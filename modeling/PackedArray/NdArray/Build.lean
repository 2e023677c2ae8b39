import PackedArray.NdArray.Basic

/-!
# PackedArray.NdArray.Build

Making arrays: from elements, from zeros, and from bytes that are packed
already.

Building from elements takes two passes.  The first measures the present
elements and refuses sizes over the ceiling; the second packs them into a
region of exactly the measured size.

* `NdArray.ofElements` — elements and optional null flags;
* `NdArray.zeros` — a numeric array of zeros;
* `NdArray.ofPacked` — a packed buffer, taken as it is.

Each has a one-dimensional form with lower bound one.
-/

namespace PackedArray

/-- The ceiling on the bytes of one array. -/
def maxDataSize : Nat := Quota.standard.maxSize

/-- The elements whose null flag is not set. -/
def presentElements (elems : List Scalar) (nulls : List Bool) : List Scalar :=
  ((elems.zip nulls).filter fun p => !p.2).map Prod.fst

theorem presentElements_cons_true (x : Scalar) (xs : List Scalar) (nulls : List Bool) :
    presentElements (x :: xs) (true :: nulls) = presentElements xs nulls := rfl

theorem presentElements_cons_false (x : Scalar) (xs : List Scalar) (nulls : List Bool) :
    presentElements (x :: xs) (false :: nulls) = x :: presentElements xs nulls := rfl

namespace Layout

/-- The room that the elements take after `acc` bytes, if it stays within the
ceiling throughout. -/
def measureFrom (l : Layout) (acc : Nat) : List Scalar → Except ArrayError Nat
  | [] => .ok acc
  | x :: xs =>
    match l.stride x with
    | .error e => .error e
    | .ok n =>
      if acc + n ≤ maxDataSize then l.measureFrom (acc + n) xs
      else .error (.sizeExceeded maxDataSize)

/-- Refuses layouts whose width alone puts `n` items over the ceiling. -/
def checkNominal (l : Layout) (n : Nat) : Except ArrayError Unit :=
  if 0 < l.len ∧ maxDataSize < l.len.toNat * n then .error (.sizeExceeded maxDataSize)
  else .ok ()

end Layout

/-- Pack the elements one after the other. -/
def Region.storeAll (l : Layout) : List Scalar → Region → Except ArrayError Region
  | [], r => .ok r
  | x :: xs, r =>
    match r.store l x with
    | (next, .ok _) => next.storeAll l xs
    | (_, .error e) => .error e

/-- Whether an array can have `size` bytes of data, or why not. -/
def reserveData (size : Nat) : Except ArrayError Unit :=
  match Quota.standard.reserve size with
  | .ok () => .ok ()
  | .error e => .error (.alloc e)

/-- A region of `size` zero bytes for an array's data. -/
def allocData (size : Nat) : Except ArrayError Region :=
  (reserveData size).map fun _ => Region.zeros size

namespace NdArray

/-! ## from elements -/

/-- One null flag for each of `n` items; without flags nothing is null. -/
def nullFlags (n : Nat) : Option (List Bool) → Except ArrayError (List Bool)
  | none => .ok (List.replicate n false)
  | some flags =>
    if flags.length < n then .error (.elementCountMismatch n flags.length)
    else .ok (flags.take n)

/-- The packed data of the present elements. -/
def packData (l : Layout) (present : List Scalar) : Except ArrayError (List UInt8) := do
  let size ← l.measureFrom 0 present
  let region ← allocData size
  let filled ← region.storeAll l present
  return filled.bytes

/-- An array of elements in row-major order.  Where the null flag is set the
element is ignored and takes no room.  Elements and flags must cover every
item; further ones are ignored. -/
def ofElements (elems : List Scalar) (nulls : Option (List Bool)) (dims lbounds : List Int32)
    (tag : Tag) (l : Layout) : Except ArrayError NdArray := do
  checkDimensions dims lbounds
  if dims.isEmpty then return empty tag
  let n ← itemCount dims
  if elems.length < n then throw (.elementCountMismatch n elems.length)
  let flags ← nullFlags n nulls
  l.checkNominal n
  let data ← packData l (presentElements (elems.take n) flags)
  if flags.any id then
    return {
      tag, dims, lbounds, data
      ndim := Int32.ofNat dims.length
      dataOffset := Int32.ofNat (nullableHeaderSize dims.length n)
      nulls := some (NullBitmap.ofNulls flags) }
  else
    return {
      tag, dims, lbounds, data
      ndim := Int32.ofNat dims.length
      dataOffset := 0
      nulls := none }

/-- A one-dimensional array of `n` elements without nulls. -/
def vectorOfElements (elems : List Scalar) (n : Nat) (tag : Tag) (l : Layout) :
    Except ArrayError NdArray := do
  ofElements elems none [← vectorExtent n] [1] tag l

/-! ## zeros -/

/-- A numeric array whose data is all zero bytes, at least two for each
item. -/
def zeros (dims lbounds : List Int32) (tag : Tag) (l : Layout) : Except ArrayError NdArray := do
  checkDimensions dims lbounds
  if dims.isEmpty then return empty tag
  let n ← itemCount dims
  if !tag.isNumeric then throw (.unsupportedType tag)
  let size := (max l.len 2).toNat * n
  if !Quota.standard.admits size then throw (.sizeExceeded maxDataSize)
  let region ← allocData size
  return {
    tag, dims, lbounds
    ndim := Int32.ofNat dims.length
    dataOffset := 0
    nulls := none
    data := region.bytes }

/-- A one-dimensional array of `n` zeros. -/
def zeroVector (n : Nat) (tag : Tag) (l : Layout) : Except ArrayError NdArray := do
  zeros [← vectorExtent n] [1] tag l

/-- Elements when there are some to take, else zeros. -/
def ofElementsOrZeros (elems : Option (List Scalar)) (nulls : Option (List Bool))
    (dims lbounds : List Int32) (tag : Tag) (l : Layout) : Except ArrayError NdArray :=
  match elems with
  | some elems => ofElements elems nulls dims lbounds tag l
  | none => zeros dims lbounds tag l

/-- The one-dimensional form of `ofElementsOrZeros`. -/
def vectorOrZeros (elems : Option (List Scalar)) (n : Nat) (tag : Tag) (l : Layout) :
    Except ArrayError NdArray :=
  match elems with
  | some elems => vectorOfElements elems n tag l
  | none => zeroVector n tag l

/-! ## packed bytes -/

/-- An array whose data is the first bytes of a packed buffer, unchanged.
Only fixed-width layouts can be taken this way, and nothing is null. -/
def ofPacked (raw : List UInt8) (dims lbounds : List Int32) (tag : Tag) (l : Layout) :
    Except ArrayError NdArray := do
  checkDimensions dims lbounds
  if dims.isEmpty then return empty tag
  if l.len ≤ 0 then throw (.invalidTypeLength l.len)
  let n ← itemCount dims
  let size := l.len.toNat * n
  if raw.length < size then throw (.bufferTooShort size raw.length)
  reserveData size
  return {
    tag, dims, lbounds
    ndim := Int32.ofNat dims.length
    dataOffset := 0
    nulls := none
    data := raw.take size }

/-- The one-dimensional form of `ofPacked`. -/
def vectorOfPacked (raw : List UInt8) (n : Nat) (tag : Tag) (l : Layout) :
    Except ArrayError NdArray := do
  ofPacked raw [← vectorExtent n] [1] tag l

end NdArray

end PackedArray
