import PackedArray.Numeric

/-!
# PackedArray.Operator.Combiner

One step of an operator: combine an element and a second operand with the
running result.  A combiner sees scalars and tags only, so the algorithms that
use it need not know what it computes.

* `NumericOp.eval` — the arithmetic of a step, with its overflow policy;
* `NumericOp.combine` — the step on scalars of any numeric tags.
-/

namespace PackedArray

/-- A step: element and its tag, running result and its tag, second operand
and its tag.  The answer has the tag of the result. -/
abbrev Combiner := Scalar → Tag → Scalar → Tag → Scalar → Tag → Except OpError Scalar

/-- The arithmetic steps. -/
inductive NumericOp
  /-- Add the product of element and operand to the result. -/
  | dot
  /-- Multiply element and operand; the result is ignored. -/
  | mult
  /-- Divide the element by the operand; the result is ignored. -/
  | div
  deriving DecidableEq, Repr

/-- A scalar outcome, seen from the operators. -/
def liftScalar {α : Type} (r : Except ScalarError α) : Except OpError α :=
  r.mapError OpError.ofScalar

namespace NumericOp

/-- Refuses infinities and zeros that the operands do not explain. -/
def checked (v : Double) (infinityOk zeroOk : Bool) : Except OpError Double :=
  liftScalar ((checkFloat v infinityOk zeroOk).map fun _ => v)

/-- The arithmetic of a step.  An infinity is accepted if an operand is
infinite.  A zero is accepted always by a dot step, by a product if a factor
is zero, and by a quotient if the numerator is. -/
def eval (op : NumericOp) (elt res opt : Double) : Except OpError Double :=
  match op with
  | dot =>
    checked (res.add (elt.mul opt)) (elt.isInfinite || res.isInfinite || opt.isInfinite) true
  | mult =>
    checked (elt.mul opt) (elt.isInfinite || opt.isInfinite) (elt.isZero || opt.isZero)
  | div =>
    if opt.isZero then .error .divisionByZero
    else checked (elt.div opt) (elt.isInfinite || opt.isInfinite) elt.isZero

/-- Whole-number division, truncated toward zero.  The quotient must fit the
widest integer before it is narrowed. -/
def divideInt (num denom : Int) (tag : Tag) : Except OpError Scalar :=
  if denom = 0 then .error .divisionByZero
  else
    let q := num.tdiv denom
    if IntWidth.eight.Holds q then liftScalar (narrowInt q tag)
    else .error (.scalar (.outOfRange IntWidth.eight.rangeName))

/-- The step on scalars.  Division into an integer tag is whole-number division;
everything else is computed in double precision and narrowed. -/
def combine (op : NumericOp) : Combiner :=
  fun elt eltTag res resTag opt optTag =>
    if op = div ∧ resTag.isInteger then do
      let num ← liftScalar (elt.widenInt eltTag)
      let denom ← liftScalar (opt.widenInt optTag)
      divideInt num denom resTag
    else do
      let x ← liftScalar (elt.widen eltTag)
      let acc ← liftScalar (res.widen resTag)
      let y ← liftScalar (opt.widen optTag)
      liftScalar ((← op.eval x acc y).narrow resTag)

end NumericOp

end PackedArray
