import PackedArray.Numeric

/-!
# PackedArray.Operator.Finalizer

What becomes of a running result once all items are folded in.  A finalizer
may have something to tell besides its answer, so operators answer with
`Noted` outcomes: a result and the warnings on the way to it.
-/

namespace PackedArray

/-- What an operator tells besides its answer. -/
inductive Warning
  /-- The operands have no dimensions. -/
  | emptyArrays
  /-- There is nothing to take an average of. -/
  | nothingToAverage
  deriving DecidableEq, Repr

def Warning.message : Warning → String
  | emptyArrays => "input are empty arrays"
  | nothingToAverage => "input array only contains NULL or NaN, returning 0"

/-- An outcome and the warnings on the way to it, in order. -/
structure Noted (α : Type) where
  result : Except OpError α
  warnings : List Warning := []

/-- A finalizer sees the running result, the item count and the tag of the
result. -/
abbrev Finalizer := Scalar → Nat → Tag → Noted Scalar

namespace Finalizer

/-- The running result itself. -/
def noop : Finalizer := fun value _ _ => ⟨.ok value, []⟩

/-- The running result over the item count; zero, with a warning, if there
are no items. -/
def average : Finalizer := fun value n tag =>
  match value.widen tag with
  | .error e => ⟨.error (.ofScalar e), []⟩
  | .ok v =>
    if n = 0 then ⟨.ok (Scalar.ofDouble Double.zero), [.nothingToAverage]⟩
    else ⟨.ok (Scalar.ofDouble (v.div (Double.ofInt n))), []⟩

/-- The square root of the running result over one less than the item count;
zero for fewer than two items. -/
def averageRoot : Finalizer := fun value n tag =>
  match value.widen tag with
  | .error e => ⟨.error (.ofScalar e), []⟩
  | .ok v =>
    if n ≤ 1 then ⟨.ok (Scalar.ofDouble Double.zero), []⟩
    else
      let denom := (Double.ofInt n).add (Double.ofInt (-1))
      ⟨.ok (Scalar.ofDouble (v.div denom).sqrt), []⟩

end Finalizer

end PackedArray
