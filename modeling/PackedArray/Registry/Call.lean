import PackedArray.Float.Double
import PackedArray.Registry.Status

/-!
# PackedArray.Registry.Call

The calls of foreign callers and the replies to them.

A foreign caller passes addresses that may be missing.  A list that is passed
by address and length is a `Span`; a place to write to is told as present or
not.  The answer to a call is a `Reply`: its status, and whatever the call
wrote through each of those places.
-/

namespace PackedArray

/-- A list passed by address and length; the address may be missing. -/
structure Span (α : Type) where
  contents : Option (List α)
  length : Nat

/-- The list, if its address is there or not needed. -/
def Span.borrow {α : Type} (s : Span α) : Option (List α) :=
  if s.length = 0 then some [] else s.contents.map (·.take s.length)

/-- A call across the boundary.  `out` tells whether the place for the answer
is there, `buf` whether the caller's buffer is. -/
inductive Call
  /-- A one-dimensional double-precision array. -/
  | create (values : Span Double) (out : Bool)
  /-- A double-precision array of any shape.  A byte that is not zero marks a
  null; without lower bounds each is one. -/
  | createShaped (values : Span Double) (nulls : Option (List UInt8)) (dims : Span Int32)
      (lbounds : Option (List Int32)) (out : Bool)
  | destroy (handle : UInt64)
  | ndim (handle : UInt64) (out : Bool)
  | itemCount (handle : UInt64) (out : Bool)
  /-- Read every item, widened, into a buffer of `cap` places. -/
  | read (handle : UInt64) (cap : Nat) (buf out : Bool)
  | dot (left right : UInt64) (out : Bool)
  | scalarMult (handle : UInt64) (factor : Double) (out : Bool)
  | scalarDiv (handle : UInt64) (divisor : Double) (out : Bool)
  /-- Write the flat form into a buffer of `cap` bytes. -/
  | encode (handle : UInt64) (cap : Nat) (buf out : Bool)
  | decode (bytes : Span UInt8) (out : Bool)

/-- The status of a call, and what it wrote. -/
structure Reply where
  status : Status
  handle : Option UInt64 := none
  ndim : Option Int32 := none
  /-- The item or byte count; it may be written although the call fails. -/
  count : Option Nat := none
  number : Option Double := none
  values : Option (List Double) := none
  bytes : Option (List UInt8) := none

/-- A call that wrote nothing. -/
def Reply.of (status : Status) : Reply := { status }

end PackedArray
