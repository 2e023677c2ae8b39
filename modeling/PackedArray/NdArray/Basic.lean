import PackedArray.Layout.Packing
import PackedArray.NullBitmap

/-!
# PackedArray.NdArray.Basic

The array itself: the number of dimensions, extents, lower bounds, an optional
null bitmap and the packed bytes of the present items, in storage order.

Reading is a walk.  `Walk.next?` yields the entry of one item — a scalar, a
null, or the error that ends the walk — and `Walk.run` goes to the end.

* `Walk.Consistent.advance` — a walk carries the bytes from its offset on, so
  it never goes back over what it has read.
-/

namespace PackedArray

/-- A multi-dimensional array of packed elements. -/
structure NdArray where
  /-- The element type. -/
  tag : Tag
  /-- The number of dimensions. -/
  ndim : Int32
  /-- The extent of each dimension. -/
  dims : List Int32
  /-- The lower bound of each dimension. -/
  lbounds : List Int32
  /-- Zero without a null bitmap, else the header size of the flat form. -/
  dataOffset : Int32
  /-- Presence bits, if some item may be null. -/
  nulls : Option NullBitmap
  /-- The packed elements. -/
  data : List UInt8
  deriving DecidableEq, Repr

namespace NdArray

/-- The array of no dimensions. -/
def empty (tag : Tag) : NdArray := ⟨tag, 0, [], [], 0, none, []⟩

/-- Whether the array has no dimensions. -/
def isEmpty (a : NdArray) : Bool := a.ndim == 0

/-- Whether the array carries a null bitmap. -/
def hasNulls (a : NdArray) : Bool := a.dataOffset != 0

/-- The number of items, nulls included: the product of the extents, or none
without dimensions. -/
def size (a : NdArray) : Nat :=
  if a.isEmpty then 0 else a.dims.foldr (fun d n => d.toInt.toNat * n) 1

/-- Whether item `i` is null. -/
def isNullAt (a : NdArray) (i : Nat) : Bool :=
  match a.nulls with
  | some bitmap => bitmap.isNull i
  | none => false

/-- What a walk yields for one item: a scalar, a null, or the error that ends
the walk. -/
abbrev Entry := Except ArrayError (Option Scalar)

end NdArray

open NdArray (Entry)

/-! ## walks -/

/-- A position in an array that is being read with a layout. -/
structure Walk where
  array : NdArray
  layout : Layout
  /-- The next item. -/
  index : Nat
  /-- The next packed byte. -/
  offset : Nat
  /-- The packed bytes from `offset` on. -/
  rest : List UInt8
  deriving DecidableEq, Repr

namespace Walk

/-- At most this many entries are still to come. -/
def remaining (w : Walk) : Nat := w.array.size - w.index

/-- The position after an item of `taken` bytes and its padding. -/
def advance (w : Walk) (taken : Nat) : Walk :=
  let offset := w.layout.align.pad (w.offset + taken)
  { w with index := w.index + 1, offset, rest := w.rest.drop (offset - w.offset) }

/-- The entry of the next item, and the position after it.  An error moves
the position to the end. -/
def next? (w : Walk) : Option (Entry × Walk) :=
  if w.index < w.array.size then
    if w.array.isNullAt w.index then some (.ok none, { w with index := w.index + 1 })
    else
      match w.layout.unpack w.rest with
      | .ok (x, taken) => some (.ok (some x), w.advance taken)
      | .error e => some (.error e, { w with index := w.array.size })
  else none

/-- The entries of up to `n` more items, and the position after them. -/
def steps : Nat → Walk → List Entry × Walk
  | 0, w => ([], w)
  | n + 1, w =>
    match w.next? with
    | none => ([], w)
    | some (entry, next) =>
      let (entries, last) := steps n next
      (entry :: entries, last)

/-- All entries that are still to come, and the position at the end. -/
def run (w : Walk) : List Entry × Walk := w.steps w.remaining

/-- The bytes that a position carries are those from its offset on. -/
def Consistent (w : Walk) : Prop := w.rest = w.array.data.drop w.offset

/-- Stepping over an item keeps the bytes in step with the offset. -/
theorem Consistent.advance {w : Walk} (h : w.Consistent) (taken : Nat) :
    (w.advance taken).Consistent := by
  have hle : w.offset ≤ w.layout.align.pad (w.offset + taken) :=
    Nat.le_trans (Nat.le_add_right _ _) (Align.le_pad _ _)
  simp only [Consistent, Walk.advance] at h ⊢
  rw [h, List.drop_drop]
  congr 1
  omega

end Walk

namespace NdArray

/-- The walk over all items of an array. -/
def walk (a : NdArray) (layout : Layout) : Walk := ⟨a, layout, 0, 0, a.data⟩

/-- The entries of all items, in storage order, up to the first error. -/
def entries (a : NdArray) (layout : Layout) : List Entry := (a.walk layout).run.1

end NdArray

end PackedArray
