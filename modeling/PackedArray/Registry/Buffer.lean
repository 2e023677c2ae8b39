import PackedArray.Registry.Basic

/-!
# PackedArray.Registry.Buffer

Reading and encoding into the caller's memory.

A `Reply` tells what a call wrote; here it is written.  A call is given the slots at the
address that the caller passed, or no address, and the number of slots that the caller
vouches for.  `Delivery` is what the caller finds afterwards, whatever became of the call.
Items are widened one by one, each straight into its slot.

* `Registry.readInto` — the items of an array;
* `Registry.encodeInto` — its flat form.
-/

namespace PackedArray

/-- What a call into a buffer leaves behind. -/
structure Delivery (α : Type) where
  status : Status
  /-- The item or byte count, if it was written. -/
  count : Option Nat := none
  /-- The slots after the call; none without an address. -/
  buffer : Option (List α)
  deriving DecidableEq

variable {α : Type}

/-- A call that wrote nothing. -/
def Delivery.of (status : Status) (buffer : Option (List α)) : Delivery α := { status, buffer }

/-- Widen scalars into the slots from `i` on, up to the first that cannot be widened. -/
def widenInto (tag : Tag) : List Scalar → Nat → List Double → Except Status Unit × List Double
  | [], _, slots => (.ok (), slots)
  | x :: xs, i, slots =>
    match x.widen tag with
    | .error e => (.error e.status, slots)
    | .ok v => widenInto tag xs (i + 1) (slots.set i v)

namespace NdArray

/-- Read every item, widened, into a buffer of `cap` places. -/
def readInto (a : NdArray) (cap : Nat) (buffer : Option (List Double)) : Delivery Double :=
  let count := some a.size
  if cap < a.size then { status := .bufferTooSmall, count, buffer }
  else
    match a.tag.layout with
    | .error e => { status := e.status, count, buffer }
    | .ok layout =>
      match a.toScalars a.tag layout with
      | .error e => { status := e.status, count, buffer }
      | .ok elems =>
        if a.size = 0 then { status := .ok, count, buffer }
        else
          match buffer with
          | none => { status := .invalidArgument, count, buffer }
          | some slots =>
            match widenInto a.tag (elems.take a.size) 0 slots with
            | (.ok (), filled) => { status := .ok, count, buffer := some filled }
            | (.error s, filled) => { status := s, count, buffer := some filled }

/-- Write the flat form into a buffer of `cap` bytes. -/
def encodeInto (a : NdArray) (cap : Nat) (buffer : Option (List UInt8)) : Delivery UInt8 :=
  match a.encode with
  | .error e => .of e.status buffer
  | .ok bytes =>
    let count := some bytes.length
    if cap < bytes.length then { status := .bufferTooSmall, count, buffer }
    else
      match buffer with
      | none => { status := .invalidArgument, count, buffer }
      | some slots => { status := .ok, count, buffer := some (overwrite slots 0 bytes) }

end NdArray

namespace Registry

/-- Let the array behind a handle write into a buffer, if the handle and the place for the
count are there. -/
def lend (r : Registry) (handle : UInt64) (buffer : Option (List α)) (out : Bool)
    (write : NdArray → Delivery α) : Delivery α :=
  if !out then .of .invalidArgument buffer
  else
    match r.resolve handle with
    | .error s => .of s buffer
    | .ok a => write a

/-- Read into a buffer of `cap` places. -/
def readInto (r : Registry) (handle : UInt64) (cap : Nat) (buffer : Option (List Double))
    (out : Bool) : Delivery Double :=
  r.lend handle buffer out (·.readInto cap buffer)

/-- Write the flat form into a buffer of `cap` bytes. -/
def encodeInto (r : Registry) (handle : UInt64) (cap : Nat) (buffer : Option (List UInt8))
    (out : Bool) : Delivery UInt8 :=
  r.lend handle buffer out (·.encodeInto cap buffer)

end Registry

end PackedArray
