import PackedArray.Registry.HandleTable
import PackedArray.NdArray.Read
import PackedArray.Operator.Reduction
import PackedArray.Operator.Scaling
import PackedArray.Registry.Call
import PackedArray.NdArray.FlatForm

/-!
# PackedArray.Registry.Basic

Arrays behind handles, for foreign callers.  A registry owns its arrays;
arrays never change once they are made, and an operator that makes a new one
gives it a handle of its own.

`Registry.call` runs one call.  Checks come in this order: the place for the
answer, the arguments, the handles, then the operation itself.
-/

namespace PackedArray

/-- The arrays that foreign callers hold handles for. -/
structure Registry where
  table : HandleTable NdArray := {}
  /-- A call broke off half-way; nothing behind a handle can be reached any
  more. -/
  isSealed : Bool := false

namespace Registry

def empty : Registry := {}

/-- The array behind a handle, or why there is none. -/
def resolve (r : Registry) (handle : UInt64) : Except Status NdArray :=
  if r.isSealed then .error .internalError
  else
    match r.table.get? handle with
    | some a => .ok a
    | none => .error .invalidHandle

/-- Give a new array a handle. -/
def publish (r : Registry) (a : NdArray) : Registry × Reply :=
  if r.isSealed then (r, .of .internalError)
  else
    let (handle, table) := r.table.insert a
    ({ r with table }, { status := .ok, handle := some handle })

/-- Give the array that was built a handle, or report why there is none. -/
def publishBuilt (r : Registry) (built : Except ArrayError NdArray) : Registry × Reply :=
  match built with
  | .ok a => r.publish a
  | .error e => (r, .of e.status)

/-! ## making arrays -/

/-- The layout of double-precision items. -/
def float8Layout : Layout := Kind.float8.layout

def create (r : Registry) (values : Span Double) (out : Bool) : Registry × Reply :=
  if !out then (r, .of .invalidArgument)
  else
    match values.borrow with
    | none => (r, .of .invalidArgument)
    | some xs =>
      if maxProduct < values.length then (r, .of .capacityExceeded)
      else
        r.publishBuilt (NdArray.ofElements (xs.map Scalar.ofDouble) none
          [Int32.ofNat values.length] [1] Tag.float8 float8Layout)

def createShaped (r : Registry) (values : Span Double) (nulls : Option (List UInt8))
    (dims : Span Int32) (lbounds : Option (List Int32)) (out : Bool) : Registry × Reply :=
  if !out then (r, .of .invalidArgument)
  else
    match values.borrow, dims.borrow with
    | some xs, some extents =>
      let bounds := match lbounds with
        | some bs => bs.take dims.length
        | none => List.replicate dims.length 1
      let flags := nulls.map fun bs => (bs.take values.length).map (· != 0)
      r.publishBuilt (NdArray.ofElements (xs.map Scalar.ofDouble) flags extents bounds
        Tag.float8 float8Layout)
    | _, _ => (r, .of .invalidArgument)

def decode (r : Registry) (bytes : Span UInt8) (out : Bool) : Registry × Reply :=
  if !out then (r, .of .invalidArgument)
  else
    match bytes.borrow with
    | none => (r, .of .invalidArgument)
    | some buf => r.publishBuilt (NdArray.decode buf)

/-- Destroy an array; its handle resolves to nothing from then on. -/
def destroy (r : Registry) (handle : UInt64) : Registry × Reply :=
  if r.isSealed then (r, .of .internalError)
  else
    match r.table.remove? handle with
    | some (_, table) => ({ r with table }, .of .ok)
    | none => (r, .of .invalidHandle)

/-! ## asking about arrays -/

/-- Answer a question about one array, if its handle and the place for the
answer are there. -/
def inquire (r : Registry) (handle : UInt64) (out : Bool) (answer : NdArray → Reply) : Reply :=
  if !out then .of .invalidArgument
  else
    match r.resolve handle with
    | .error s => .of s
    | .ok a => answer a

/-- The items of an array, widened to double precision; nulls are refused. -/
def readValues (a : NdArray) : Except Status (List Double) := do
  let layout ← a.tag.layout.mapError ScalarError.status
  let elems ← (a.toScalars a.tag layout).mapError ArrayError.status
  (elems.mapM (Scalar.widen · a.tag)).mapError ScalarError.status

/-- Read into a buffer of `cap` places.  The item count is written whatever
comes of the call; the buffer only if the call succeeds. -/
def readReply (cap : Nat) (buf : Bool) (a : NdArray) : Reply :=
  let n := a.size
  if cap < n then { status := .bufferTooSmall, count := some n }
  else
    match readValues a with
    | .error s => { status := s, count := some n }
    | .ok xs =>
      if n ≠ 0 && !buf then { status := .invalidArgument, count := some n }
      else { status := .ok, count := some n, values := some xs }

/-- Write the flat form into a buffer of `cap` bytes.  Its length is written
whenever the array has a flat form; the buffer only if the call succeeds. -/
def encodeReply (cap : Nat) (buf : Bool) (a : NdArray) : Reply :=
  match a.encode with
  | .error e => .of e.status
  | .ok bs =>
    if cap < bs.length then { status := .bufferTooSmall, count := some bs.length }
    else if !buf then { status := .invalidArgument, count := some bs.length }
    else { status := .ok, count := some bs.length, bytes := some bs }

def dot (r : Registry) (left right : UInt64) (out : Bool) : Reply :=
  r.inquire left out fun a =>
    match r.resolve right with
    | .error s => .of s
    | .ok b =>
      match (dotProduct a b).result with
      | .ok v => { status := .ok, number := some v }
      | .error e => .of e.status

/-! ## operators -/

/-- Apply an operator to the array behind a handle.  The number is narrowed to
the array's element type first.  An operator that breaks off seals the
registry. -/
def scale (r : Registry) (op : NdArray → Scalar → Noted NdArray) (handle : UInt64)
    (number : Double) (out : Bool) : Registry × Reply :=
  if !out then (r, .of .invalidArgument)
  else
    match r.resolve handle with
    | .error s => (r, .of s)
    | .ok a =>
      match number.narrow a.tag with
      | .error e => (r, .of (OpError.ofScalar e).status)
      | .ok scalar =>
        match (op a scalar).result with
        | .ok made => r.publish made
        | .error e =>
          if e.status = .panicked then ({ r with isSealed := true }, .of e.status)
          else (r, .of e.status)

/-! ## calls -/

/-- Run one call. -/
def call (r : Registry) : Call → Registry × Reply
  | .create values out => r.create values out
  | .createShaped values nulls dims lbounds out => r.createShaped values nulls dims lbounds out
  | .destroy handle => r.destroy handle
  | .ndim handle out =>
    (r, r.inquire handle out fun a => { status := .ok, ndim := some a.ndim })
  | .itemCount handle out =>
    (r, r.inquire handle out fun a => { status := .ok, count := some a.size })
  | .read handle cap buf out => (r, r.inquire handle out (readReply cap buf))
  | .dot left right out => (r, r.dot left right out)
  | .scalarMult handle factor out => r.scale PackedArray.scalarMult handle factor out
  | .scalarDiv handle divisor out => r.scale PackedArray.scalarDiv handle divisor out
  | .encode handle cap buf out => (r, r.inquire handle out (encodeReply cap buf))
  | .decode bytes out => r.decode bytes out

/-- Run calls in order. -/
def run (r : Registry) : List Call → Registry × List Reply
  | [] => (r, [])
  | c :: cs =>
    let (next, reply) := r.call c
    let (last, replies) := next.run cs
    (last, reply :: replies)

end Registry

end PackedArray
