import PackedArray.NdArray.Build
import PackedArray.Operator.Combiner
import PackedArray.Operator.Finalizer

/-!
# PackedArray.Operator.Reduction

Folding two arrays of one shape into a scalar.  A combiner and a finalizer
decide what is computed; the algorithm itself checks the operands, walks both
arrays in storage order and counts its steps.

* `reduce` — the generic algorithm;
* `dotProduct` — the sum of the products.
-/

namespace PackedArray

open NdArray (Entry)

/-- The outcome of a reduction, with the number of steps that were taken; a
step that fails counts. -/
structure Reduction where
  result : Except OpError Scalar
  calls : Nat := 0
  warnings : List Warning := []

/-- The scalar of an entry; a null is refused. -/
def Entry.scalar : Entry → Except OpError Scalar
  | .ok (some x) => .ok x
  | .ok none => .error .nullElement
  | .error e => .error (.ofArray e)

/-- The first dimension from `dim` on whose extents or lower bounds differ, as
an error. -/
def rangeConflict (dim : Nat) : List (Int32 × Int32) → List (Int32 × Int32) → Option OpError
  | (d₁, l₁) :: as, (d₂, l₂) :: bs =>
    if d₁ ≠ d₂ ∨ l₁ ≠ l₂ then some (.rangeMismatch dim (l₁, l₁ + d₁) (l₂, l₂ + d₂))
    else rangeConflict (dim + 1) as bs
  | _, _ => none

/-- Extent and lower bound of each dimension. -/
def NdArray.ranges (a : NdArray) : List (Int32 × Int32) := a.dims.zip a.lbounds

/-- Fold the pairs into `acc`, counting on from `calls`. -/
def foldPairs (f : Combiner) (tag : Tag) :
    List (Entry × Entry) → Scalar → Nat → Except OpError Scalar × Nat
  | [], acc, calls => (.ok acc, calls)
  | (x, y) :: rest, acc, calls =>
    match Entry.scalar x with
    | .error e => (.error e, calls)
    | .ok x =>
      match Entry.scalar y with
      | .error e => (.error e, calls)
      | .ok y =>
        match f x tag acc Tag.float8 y tag with
        | .error e => (.error e, calls + 1)
        | .ok acc => foldPairs f tag rest acc (calls + 1)

/-- What `reduce` checks of two arrays that have dimensions: shape, nulls,
tags.  The answer is the item count and the layout to read with. -/
def checkOperands (a b : NdArray) : Except OpError (Nat × Layout) := do
  if let some e := rangeConflict 0 a.ranges b.ranges then throw e
  let n ← (itemCount a.dims).mapError OpError.ofArray
  if a.hasNulls || b.hasNulls then throw .nullElement
  if a.tag ≠ b.tag then throw (.elementTypeMismatch a.tag b.tag)
  let layout ← liftScalar a.tag.layout
  return (n, layout)

/-- Fold two arrays of one shape and one numeric tag, without nulls, into a
scalar.  The running result starts as a double-precision zero; `f` takes the
items in storage order, and `fin` the last result and the item count.  Two
arrays of no dimensions give zero without a step. -/
def reduce (a b : NdArray) (f : Combiner) (fin : Finalizer) : Reduction :=
  if a.ndim ≠ b.ndim then
    { result := .error (.dimensionCountMismatch a.ndim.toInt b.ndim.toInt) }
  else if a.isEmpty then
    { result := .ok (Scalar.ofDouble Double.zero), warnings := [.emptyArrays] }
  else
    match checkOperands a b with
    | .error e => { result := .error e }
    | .ok (n, layout) =>
      let pairs := (a.entries layout).zip (b.entries layout)
      match foldPairs f a.tag pairs (Scalar.ofDouble Double.zero) 0 with
      | (.error e, calls) => { result := .error e, calls }
      | (.ok acc, calls) =>
        let last := fin acc n Tag.float8
        { result := last.result, calls, warnings := last.warnings }

/-! ## operators -/

/-- The sum of the products of the items of two arrays. -/
def dotProduct (a b : NdArray) : Noted Double :=
  let r := reduce a b NumericOp.dot.combine Finalizer.noop
  { result := r.result.map Scalar.asDouble, warnings := r.warnings }

end PackedArray
