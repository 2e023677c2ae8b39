import PackedArray.NdArray.Build
import PackedArray.Operator.Combiner
import PackedArray.Operator.Finalizer

/-!
# PackedArray.Operator.Scaling

Changing every item of an array by one scalar.  Nulls stay where they are,
and the result has the shape and the tag of the array.

* `mapScalar` — the generic algorithm, over any combiner;
* `scalarMult`, `scalarDiv` — multiplication and division.
-/

namespace PackedArray

open NdArray (Entry)

/-- Apply the step to the scalars among the entries; nulls stay. -/
def mapEntries (f : Combiner) (tag : Tag) (scalar : Scalar) :
    List Entry → Except OpError (List (Option Scalar))
  | [] => .ok []
  | .error e :: _ => .error (.ofArray e)
  | .ok none :: rest => (mapEntries f tag scalar rest).map (none :: ·)
  | .ok (some x) :: rest =>
    match f x tag x tag scalar tag with
    | .error e => .error e
    | .ok r => (mapEntries f tag scalar rest).map (some r :: ·)

/-- Whether a scalar is stored the way elements of this layout are. -/
def Layout.storesLike (l : Layout) (x : Scalar) : Bool := x.isRef == !l.byValue

/-- Apply a step to every item of a numeric array, with the item itself as the
running result and `scalar` as the second operand.  The result has the shape,
the tag and the nulls of the array.  An array of no dimensions is returned as
it is. -/
def mapScalar (a : NdArray) (scalar : Scalar) (f : Combiner) : Noted NdArray :=
  if a.isEmpty then { result := .ok a, warnings := [.emptyArrays] }
  else
    match a.tag.kind? with
    | none => { result := .error (.unsupportedType a.tag) }
    | some kind =>
      let layout := kind.layout
      if !layout.storesLike scalar then { result := .error (.scalarStorage a.tag) }
      else
        match mapEntries f a.tag scalar (a.entries layout) with
        | .error e => { result := .error e }
        | .ok items =>
          let elems := items.map (·.getD Scalar.zero)
          let nulls := if a.hasNulls then some (items.map Option.isNone) else none
          let built := NdArray.ofElements elems nulls a.dims a.lbounds a.tag layout
          { result := built.mapError OpError.ofArray }

/-! ## operators -/

/-- Multiply every item by a scalar of the array's tag. -/
def scalarMult (a : NdArray) (scalar : Scalar) : Noted NdArray :=
  mapScalar a scalar NumericOp.mult.combine

/-- Divide every item by a scalar of the array's tag; integers truncate. -/
def scalarDiv (a : NdArray) (scalar : Scalar) : Noted NdArray :=
  mapScalar a scalar NumericOp.div.combine

end PackedArray
