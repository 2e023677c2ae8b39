import PackedArray.Proofs.Machine.Building
import PackedArray.Proofs.Machine.Reading
import PackedArray.Proofs.Refusals

/-!
# PackedArray.Proofs.Machine.Operators

Operators in machine words.

Floating-point numbers never break anything off, so what a step can break off over
is reading its scalars.  Scaling asserts that its scalar is stored the way the
elements are, where the library's operator reports an error.

* `combine_eq` — one step;
* `dotProduct_eq`, `readValues_eq` — folding and reading;
* `mapScalar_eq` — scaling, with a scalar of the right storage.
-/

namespace PackedArray.Machine

open NdArray (Entry)

variable {ε : Type}

/-! ## steps -/

/-- The number that a scalar of this kind stands for. -/
def toDouble (x : Scalar) (k : Kind) : Run ε Double :=
  match k with
  | .int w => do
    let bs ← lead w.bytes x
    return Double.ofInt ((leNat bs : Int).bmod w.modulus)
  | .float4 => do
    let bs ← lead 4 x
    return (⟨UInt32.ofNat (leNat bs)⟩ : Single).toDouble
  | .float8 => do
    let bs ← lead 8 x
    return ⟨UInt64.ofNat (leNat bs)⟩

def widen (x : Scalar) (tag : Tag) : Run ScalarError Double := do
  let k ← lift tag.kind
  toDouble x k

def widenInt (x : Scalar) (tag : Tag) : Run ScalarError Int :=
  match tag.kind? with
  | some (.int w) => do
    let bs ← lead w.bytes x
    return (leNat bs : Int).bmod w.modulus
  | _ => .error (.reported (.unsupportedType tag))

/-- A step: element and its tag, running result and its tag, second operand and its
tag. -/
abbrev Combiner := Scalar → Tag → Scalar → Tag → Scalar → Tag → Run OpError Scalar

/-- A step that goes through with the library's one. -/
def Combiner.Mirrors (f : Combiner) (g : PackedArray.Combiner) : Prop :=
  ∀ elt eltTag res resTag opt optTag,
    f elt eltTag res resTag opt optTag = lift (g elt eltTag res resTag opt optTag)

/-- Division tells a zero denominator and a quotient that is too great, so neither
breaks it off. -/
def combine (op : NumericOp) : Combiner := fun elt eltTag res resTag opt optTag =>
  if op = .div ∧ resTag.isInteger then do
    let num ← rethrow OpError.ofScalar (widenInt elt eltTag)
    let denom ← rethrow OpError.ofScalar (widenInt opt optTag)
    lift (NumericOp.divideInt num denom resTag)
  else do
    let x ← rethrow OpError.ofScalar (widen elt eltTag)
    let acc ← rethrow OpError.ofScalar (widen res resTag)
    let y ← rethrow OpError.ofScalar (widen opt optTag)
    let v ← lift (op.eval x acc y)
    lift (liftScalar (v.narrow resTag))

theorem toDouble_eq (x : Scalar) (k : Kind) :
    (toDouble x k : Run ε Double) = .ok (x.toDouble k) := by
  cases k <;> rw [toDouble, lead_eq] <;> rfl

theorem widen_eq (x : Scalar) (tag : Tag) : widen x tag = lift (x.widen tag) := by
  rw [widen, Scalar.widen]
  cases tag.kind with
  | error e => rfl
  | ok k => exact toDouble_eq x k

theorem widenInt_eq (x : Scalar) (tag : Tag) : widenInt x tag = lift (x.widenInt tag) := by
  unfold widenInt Scalar.widenInt
  match tag.kind? with
  | some (.int w) =>
      simp only [lead_eq, ok_bind]
      rfl
  | some .float4 | some .float8 | none => rfl

/-- **A step** never breaks off. -/
theorem combine_eq (op : NumericOp) : (combine op).Mirrors op.combine := by
  intro elt eltTag res resTag opt optTag
  unfold combine NumericOp.combine
  simp only [widen_eq, widenInt_eq, rethrow_lift]
  split
  · exact bind_eq_lift rfl fun num _ => bind_eq_lift rfl fun denom _ => rfl
  · exact bind_eq_lift rfl fun x _ => bind_eq_lift rfl fun acc _ => bind_eq_lift rfl fun y _ =>
      bind_eq_lift rfl fun v _ => rfl

/-! ## folding -/

/-- Fold the pairs into `acc`. -/
def foldPairs (f : Combiner) (tag : Tag) : List (Entry × Entry) → Scalar → Run OpError Scalar
  | [], acc => .ok acc
  | (x, y) :: rest, acc => do
    let x ← lift (Entry.scalar x)
    let y ← lift (Entry.scalar y)
    let next ← f x tag acc Tag.float8 y tag
    foldPairs f tag rest next

def checkOperands (a b : NdArray) : Run OpError (Nat × Layout) := do
  if let some e := rangeConflict 0 a.ranges b.ranges then throw (.reported e)
  let n ← rethrow OpError.ofArray (itemCount a.dims)
  if a.hasNulls || b.hasNulls then throw (.reported .nullElement)
  if a.tag ≠ b.tag then throw (.reported (.elementTypeMismatch a.tag b.tag))
  let layout ← lift (liftScalar a.tag.layout)
  return (n, layout)

/-- The sum of the products.  Both walks go to their ends here, whatever the steps
on the way come to. -/
def dotProduct (a b : NdArray) : Run OpError Double :=
  if a.ndim ≠ b.ndim then .error (.reported (.dimensionCountMismatch a.ndim.toInt b.ndim.toInt))
  else if a.isEmpty then toDouble (Scalar.ofDouble Double.zero) .float8
  else do
    let (_, layout) ← checkOperands a b
    let left ← entries a layout
    let right ← entries b layout
    let sum ← foldPairs (combine .dot) a.tag (left.zip right) (Scalar.ofDouble Double.zero)
    toDouble sum .float8

section

variable {f : Combiner} {g : PackedArray.Combiner} {a b : NdArray}

theorem foldPairs_eq (hf : f.Mirrors g) (tag : Tag) (pairs : List (Entry × Entry)) (acc : Scalar)
    (calls : Nat) :
    foldPairs f tag pairs acc = lift (PackedArray.foldPairs g tag pairs acc calls).1 := by
  induction pairs generalizing acc calls with
  | nil => rfl
  | cons pair pairs ih =>
      obtain ⟨x, y⟩ := pair
      rw [foldPairs, PackedArray.foldPairs]
      cases Entry.scalar x with
      | error e => rfl
      | ok x =>
          cases Entry.scalar y with
          | error e => rfl
          | ok y =>
              simp only [lift_ok, ok_bind, hf x]
              cases g x tag acc Tag.float8 y tag with
              | error e => rfl
              | ok next => exact ih next (calls + 1)

theorem checkOperands_eq (a b : NdArray) :
    checkOperands a b = lift (PackedArray.checkOperands a b) := by
  unfold checkOperands PackedArray.checkOperands
  cases rangeConflict 0 a.ranges b.ranges with
  | some e => rfl
  | none =>
      rw [itemCount_eq, rethrow_lift]
      refine bind_eq_lift rfl fun n _ => refuse_eq_lift fun _ => refuse_eq_lift fun _ => ?_
      exact bind_eq_lift rfl fun layout _ => rfl

/-- **Folding** never breaks off. -/
theorem dotProduct_eq (ha : a.WellFormed) (hb : b.WellFormed) :
    dotProduct a b = lift (PackedArray.dotProduct a b).result := by
  unfold dotProduct PackedArray.dotProduct reduce
  split
  · rfl
  · split
    · rw [toDouble_eq]
      rfl
    · rw [checkOperands_eq]
      cases hcheck : PackedArray.checkOperands a b with
      | error e => rfl
      | ok operands =>
          obtain ⟨n, layout⟩ := operands
          obtain ⟨-, -, -, k, -, rfl⟩ := of_checkOperands hcheck
          have hlen := k.len_layout_le
          simp only [lift_ok, ok_bind]
          rw [entries_eq ha (by omega), ok_bind, entries_eq hb (by omega), ok_bind,
            foldPairs_eq (combine_eq .dot) _ _ _ 0]
          split
          · next e calls hfold => rw [hfold]; rfl
          · next sum calls hfold =>
              rw [hfold, lift_ok, ok_bind, toDouble_eq]
              rfl

end

/-! ## scaling -/

/-- Apply the step to the scalars among the entries; nulls stay. -/
def mapEntries (f : Combiner) (tag : Tag) (scalar : Scalar) :
    List Entry → Run OpError (List (Option Scalar))
  | [] => .ok []
  | .error e :: _ => .error (.reported (.ofArray e))
  | .ok none :: rest => do
    let items ← mapEntries f tag scalar rest
    return none :: items
  | .ok (some x) :: rest => do
    let r ← f x tag x tag scalar tag
    let items ← mapEntries f tag scalar rest
    return some r :: items

/-- Apply a step to every item.  The scalar has to be stored the way the elements
are; how many items there are is found once more, for room. -/
def mapScalar (a : NdArray) (scalar : Scalar) (f : Combiner) : Run OpError NdArray :=
  if a.isEmpty then .ok a
  else
    match a.tag.kind? with
    | none => .error (.reported (.unsupportedType a.tag))
    | some kind => do
      demand (kind.layout.storesLike scalar)
      let _ ← size a
      let found ← entries a kind.layout
      let items ← mapEntries f a.tag scalar found
      let elems := items.map (·.getD Scalar.zero)
      let nulls := if a.hasNulls then some (items.map Option.isNone) else none
      rethrow OpError.ofArray (ofElements elems nulls a.dims a.lbounds a.tag kind.layout)

section

variable {f : Combiner} {g : PackedArray.Combiner} {a : NdArray} {scalar : Scalar}

theorem mapEntries_eq (hf : f.Mirrors g) (tag : Tag) (scalar : Scalar) (found : List Entry) :
    mapEntries f tag scalar found = lift (PackedArray.mapEntries g tag scalar found) := by
  induction found with
  | nil => rfl
  | cons entry found ih =>
      match entry with
      | .error e => rfl
      | .ok none =>
          rw [mapEntries, PackedArray.mapEntries, ih]
          cases PackedArray.mapEntries g tag scalar found <;> rfl
      | .ok (some x) =>
          rw [mapEntries, PackedArray.mapEntries, ih, hf x]
          cases g x tag x tag scalar tag with
          | error e => rfl
          | ok r => cases PackedArray.mapEntries g tag scalar found <;> rfl

/-- Items of numeric kinds can be packed, whatever the scalars are. -/
theorem packable (k : Kind) (x : Scalar) : Packable k.layout x := by
  refine ⟨Int.le_trans k.len_layout_le (by decide), fun hv => ?_⟩
  rw [k.isVariable_layout] at hv
  contradiction

/-- **Scaling** never breaks off, if the scalar is stored the way the elements are. -/
theorem mapScalar_eq (ha : a.WellFormed) (hf : f.Mirrors g)
    (hscalar : ∀ k, a.tag.kind? = some k → k.layout.storesLike scalar) :
    mapScalar a scalar f = lift (PackedArray.mapScalar a scalar g).result := by
  unfold mapScalar PackedArray.mapScalar
  split
  · rfl
  · cases hk : a.tag.kind? with
    | none => rfl
    | some k =>
        have hlen := k.len_layout_le
        have hstores := hscalar k hk
        simp only [hstores, Bool.not_true, Bool.false_eq_true, if_false]
        rw [demand_of trivial, ok_bind, size_eq ha, ok_bind, entries_eq ha (by omega), ok_bind,
          mapEntries_eq hf]
        cases PackedArray.mapEntries g a.tag scalar (a.entries k.layout) with
        | error e => rfl
        | ok items =>
            rw [lift_ok, ok_bind, ofElements_eq fun x _ => packable k x, rethrow_lift]

end

/-- A scalar of another storage breaks scaling off. -/
example : mapScalar ⟨Tag.int4, 1, [1], [1], 0, none, [7, 0, 0, 0]⟩ (.ref [2, 0, 0, 0])
    (combine .mult) = .error .broken := rfl

end PackedArray.Machine
