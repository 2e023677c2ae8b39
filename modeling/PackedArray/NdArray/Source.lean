import PackedArray.NdArray.Build

/-!
# PackedArray.NdArray.Source

Making arrays of elements that are lent or given away, as it is done: the mask stays as
absent as it was given, and both passes go over all elements and ask the mask by position
which to leave out.

* `NdArray.ofSource` — a source and an optional mask.
-/

namespace PackedArray

/-- The elements that an array is to be made of. -/
inductive Source
  /-- They stay with the caller. -/
  | borrow (elems : List Scalar)
  /-- They are given away, and released one by one as they are packed. -/
  | consume (elems : List Scalar)
  deriving DecidableEq, Repr

namespace Source

def elems : Source → List Scalar
  | borrow elems => elems
  | consume elems => elems

def length (s : Source) : Nat := s.elems.length

end Source

/-- Whether the mask has item `i` as null; without a mask nothing is null. -/
def masked (mask : Option (List Bool)) (i : Nat) : Bool :=
  mask.any fun flags => flags[i]?.getD false

/-- The room that the items from `i` on take after `acc` bytes, those left out that the mask
has as null. -/
def Layout.measureItems (l : Layout) (mask : Option (List Bool)) :
    Nat → Nat → List Scalar → Except ArrayError Nat
  | _, acc, [] => .ok acc
  | i, acc, x :: xs =>
    if masked mask i then l.measureItems mask (i + 1) acc xs
    else
      match l.stride x with
      | .error e => .error e
      | .ok n =>
        if acc + n ≤ maxDataSize then l.measureItems mask (i + 1) (acc + n) xs
        else .error (.sizeExceeded maxDataSize)

/-- Pack the items from `i` on, those left out that the mask has as null. -/
def Region.storeItems (l : Layout) (mask : Option (List Bool)) :
    Nat → List Scalar → Region → Except ArrayError Region
  | _, [], r => .ok r
  | i, x :: xs, r =>
    if masked mask i then r.storeItems l mask (i + 1) xs
    else
      match r.store l x with
      | (next, .ok _) => next.storeItems l mask (i + 1) xs
      | (_, .error e) => .error e

/-- Pack the first `n` elements, those left out that the mask has as null.  What is given away
is cut to them first. -/
def Source.storeItems (source : Source) (l : Layout) (mask : Option (List Bool)) (n : Nat)
    (r : Region) : Except ArrayError Region :=
  match source with
  | borrow elems => r.storeItems l mask 0 (elems.take n)
  | consume elems => r.storeItems l mask 0 (elems.take n)

/-- The packed data of the first `n` elements, those left out that the mask has as null. -/
def Source.packItems (source : Source) (l : Layout) (mask : Option (List Bool)) (n : Nat) :
    Except ArrayError (List UInt8) := do
  let size ← l.measureItems mask 0 0 (source.elems.take n)
  let region ← allocData size
  let filled ← source.storeItems l mask n region
  return filled.bytes

namespace NdArray

/-- The mask over `n` items, if one was given. -/
def maskOver (n : Nat) : Option (List Bool) → Except ArrayError (Option (List Bool))
  | none => .ok none
  | some flags =>
    if flags.length < n then .error (.elementCountMismatch n flags.length)
    else .ok (some (flags.take n))

/-- An array of the elements of a source in row-major order.  Source and mask must cover
every item; what goes beyond is ignored. -/
def ofSource (source : Source) (nulls : Option (List Bool)) (dims lbounds : List Int32)
    (tag : Tag) (l : Layout) : Except ArrayError NdArray := do
  checkDimensions dims lbounds
  if dims.isEmpty then return empty tag
  let n ← itemCount dims
  if source.length < n then throw (.elementCountMismatch n source.length)
  let mask ← maskOver n nulls
  l.checkNominal n
  let hasNulls := mask.any fun flags => flags.any id
  let data ← source.packItems l mask n
  return {
    tag, dims, lbounds, data
    ndim := Int32.ofNat dims.length
    dataOffset := if hasNulls then Int32.ofNat (nullableHeaderSize dims.length n) else 0
    nulls := if hasNulls then mask.map NullBitmap.ofNulls else none }

end NdArray

end PackedArray
