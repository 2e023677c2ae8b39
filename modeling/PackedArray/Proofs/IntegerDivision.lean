import PackedArray.Proofs.Integers

/-!
# PackedArray.Proofs.IntegerDivision

Dividing arrays of integers.

A quotient truncated toward zero is no greater than its numerator, so it is held
by the width of the array with one exception, the least number divided by minus
one.  For the widest integers that is found before the quotient is narrowed, for
the others when it is; the error is the same.

* `IntWidth.not_holds_tdiv_iff` — the exception;
* `NdArray.scalarDiv_divides` — division.
-/

namespace PackedArray

variable {w : IntWidth} {v d : Int}

/-! ## quotients -/

namespace IntWidth

theorem bound_pos (w : IntWidth) : 0 < w.bound := by
  cases w <;> decide

theorem bound_le_eight (w : IntWidth) : w.bound ≤ eight.bound := by
  cases w <;> decide

/-- A truncated quotient is smaller than its numerator, unless that is divided by one or
minus one. -/
theorem natAbs_tdiv_lt (hd : d ≠ 0) (hone : d ≠ 1) (hneg : d ≠ -1) (hv : v ≠ 0) :
    (v.tdiv d).natAbs < v.natAbs := by
  rw [Int.natAbs_tdiv]
  exact Nat.div_lt_self (by omega) (by omega)

/-- **The one quotient that a width does not hold** is that of its least number by minus
one. -/
theorem not_holds_tdiv_iff (hv : w.Holds v) (hd : d ≠ 0) :
    ¬w.Holds (v.tdiv d) ↔ d = -1 ∧ v = -w.bound := by
  have hbound := w.bound_pos
  have hle := Int.natAbs_tdiv_le_natAbs v d
  unfold Holds at *
  by_cases hneg : d = -1
  · subst hneg
    rw [Int.tdiv_neg, Int.tdiv_one]
    omega
  · by_cases hone : d = 1
    · subst hone
      rw [Int.tdiv_one]
      omega
    · by_cases hzero : v = 0
      · subst hzero
        rw [Int.zero_tdiv]
        omega
      · have hlt := natAbs_tdiv_lt hd hone hneg hzero
        omega

/-- The widest integers hold what any width does. -/
theorem Holds.eight (h : w.Holds v) : IntWidth.eight.Holds v := by
  have hle := w.bound_le_eight
  unfold Holds at *
  omega

end IntWidth

/-! ## the step -/

/-- Division of numbers that a width holds. -/
theorem NumericOp.divideInt_of_holds {tag : Tag} (hk : tag.kind? = some (.int w))
    (hv : w.Holds v) :
    divideInt v d tag =
      if d = 0 then .error .divisionByZero
      else if d = -1 ∧ v = -w.bound then .error (.scalar (.outOfRange w.rangeName))
      else .ok (Scalar.ofInt w (v.tdiv d)) := by
  unfold divideInt narrowInt IntWidth.narrow
  rw [hk]
  by_cases hd : d = 0
  · rw [if_pos hd, if_pos hd]
  · rw [if_neg hd, if_neg hd]
    have hexception := IntWidth.not_holds_tdiv_iff hv hd
    simp only
    by_cases hbad : d = -1 ∧ v = -w.bound
    · rw [if_pos hbad, if_neg (hexception.mpr hbad)]
      by_cases height : IntWidth.eight.Holds (v.tdiv d)
      · rw [if_pos height]
        rfl
      · -- only the widest integers leave the widest range
        have hwidth : w = .eight := by
          obtain ⟨rfl, rfl⟩ := hbad
          cases w with
          | two | four => exact absurd (by decide) height
          | eight => rfl
        rw [if_neg height, hwidth]
    · have hholds : w.Holds (v.tdiv d) := Decidable.not_not.mp (mt hexception.mp hbad)
      rw [if_neg hbad, if_pos hholds.eight, if_pos hholds]
      rfl

theorem combine_div_of_int {x scalar : Scalar} {tag : Tag} (hk : tag.kind? = some (.int w)) :
    NumericOp.div.combine x tag x tag scalar tag =
      NumericOp.divideInt (x.asInt w) (scalar.asInt w) tag := by
  have hinteger : tag.isInteger = true := by
    unfold Tag.isInteger
    rw [hk]
  have hwiden (y : Scalar) : liftScalar (y.widenInt tag) = .ok (y.asInt w) := by
    rw [Scalar.widenInt, hk]
    rfl
  rw [NumericOp.combine, if_pos ⟨rfl, hinteger⟩, hwiden, hwiden]
  rfl

variable {tag : Tag} {scalar : Scalar}

/-- Division by zero fails whatever the number. -/
theorem integerStep_div_zero (hk : tag.kind? = some (.int w)) (hd : scalar.asInt w = 0) :
    IntegerStep w tag scalar NumericOp.div.combine (fun _ => True) .divisionByZero
      (·.tdiv (scalar.asInt w)) where
  of_bad := fun x _ => by
    rw [combine_div_of_int hk, NumericOp.divideInt_of_holds hk (x.holds_asInt w), if_pos hd]
  of_not_bad := fun _ h => absurd trivial h
  holds := fun _ _ h => absurd trivial h

/-- Division by anything else fails for the one quotient that the width does not hold. -/
theorem integerStep_div (hk : tag.kind? = some (.int w)) (hd : scalar.asInt w ≠ 0) :
    IntegerStep w tag scalar NumericOp.div.combine
      (fun v => scalar.asInt w = -1 ∧ v = -w.bound) (.scalar (.outOfRange w.rangeName))
      (·.tdiv (scalar.asInt w)) where
  of_bad := fun x h => by
    rw [combine_div_of_int hk, NumericOp.divideInt_of_holds hk (x.holds_asInt w), if_neg hd,
      if_pos h]
  of_not_bad := fun x h => by
    rw [combine_div_of_int hk, NumericOp.divideInt_of_holds hk (x.holds_asInt w), if_neg hd,
      if_neg h]
  holds := fun _ hv h => Decidable.not_not.mp (mt (IntWidth.not_holds_tdiv_iff hv hd).mp h)

/-! ## arrays -/

namespace NdArray

variable {a : NdArray} {values : List (Option Int)}

/-- What becomes of an array of these integers when it is divided by a scalar. -/
structure Divides (a : NdArray) (w : IntWidth) (scalar : Scalar) (values : List (Option Int)) :
    Prop where
  /-- A zero is refused exactly if there is something to divide by it. -/
  divisionByZero : (scalarDiv a scalar).result = .error .divisionByZero ↔
    scalar.asInt w = 0 ∧ ∃ v, some v ∈ values
  /-- The range is left exactly by the least number over minus one. -/
  outOfRange : (scalarDiv a scalar).result = .error (.scalar (.outOfRange w.rangeName)) ↔
    scalar.asInt w = -1 ∧ some (-w.bound) ∈ values
  /-- Everything else is divided, truncating toward zero. -/
  quotients : ¬(scalar.asInt w = 0 ∧ ∃ v, some v ∈ values) →
    ¬(scalar.asInt w = -1 ∧ some (-w.bound) ∈ values) →
    ∃ r, (scalarDiv a scalar).result = .ok r ∧
      IntegersMapped a r w values (·.tdiv (scalar.asInt w))

/-- Nothing can go wrong where there are no dimensions. -/
theorem divides_of_ndim (hdim : a.ndim = 0) (hvalues : a.integers w = .ok []) :
    Divides a w scalar [] := by
  have hresult : (scalarDiv a scalar).result = .ok a := mapScalar_of_ndim hdim scalar _
  constructor
  case divisionByZero => simp [hresult]
  case outOfRange => simp [hresult]
  case quotients => exact fun _ _ => ⟨a, hresult, rfl, rfl, rfl, rfl, fun _ _ => rfl, hvalues⟩

theorem divides_of_holds {items : List (Option Scalar)} (hwf : a.WellFormed)
    (hk : a.tag.kind? = some (.int w)) (hdim : a.ndim ≠ 0)
    (hscalar : (Kind.int w).layout.storesLike scalar = true)
    (hholds : a.Holds (Kind.int w).layout items) :
    Divides a w scalar (integersOf w items) := by
  have hzero (h : scalar.asInt w = 0 ∧ ∃ v, some v ∈ integersOf w items) :
      (scalarDiv a scalar).result = .error .divisionByZero := by
    obtain ⟨hd, v, hv⟩ := h
    exact (integerStep_div_zero hk hd).mapScalar_eq_error hk hdim hscalar hholds hv trivial
  have hrange (h : scalar.asInt w = -1 ∧ some (-w.bound) ∈ integersOf w items) :
      (scalarDiv a scalar).result = .error (.scalar (.outOfRange w.rangeName)) := by
    obtain ⟨hd, hv⟩ := h
    exact (integerStep_div hk (by omega)).mapScalar_eq_error hk hdim hscalar hholds hv ⟨hd, rfl⟩
  have hquotients (hnot : ¬(scalar.asInt w = 0 ∧ ∃ v, some v ∈ integersOf w items))
      (hnot' : ¬(scalar.asInt w = -1 ∧ some (-w.bound) ∈ integersOf w items)) :
      ∃ r, (scalarDiv a scalar).result = .ok r ∧
        IntegersMapped a r w (integersOf w items) (·.tdiv (scalar.asInt w)) := by
    by_cases hd : scalar.asInt w = 0
    · exact (integerStep_div_zero hk hd).exists_mapScalar hwf hk hdim hscalar hholds
        fun v hv _ => hnot ⟨hd, v, hv⟩
    · exact (integerStep_div hk hd).exists_mapScalar hwf hk hdim hscalar hholds
        fun v hv hbad => hnot' ⟨hbad.1, hbad.2 ▸ hv⟩
  constructor
  case divisionByZero =>
    refine ⟨fun hresult => Classical.byContradiction fun hnot => ?_, hzero⟩
    by_cases hother : scalar.asInt w = -1 ∧ some (-w.bound) ∈ integersOf w items
    · simp [hrange hother] at hresult
    · obtain ⟨r, hr, -⟩ := hquotients hnot hother
      rw [hr] at hresult
      contradiction
  case outOfRange =>
    refine ⟨fun hresult => Classical.byContradiction fun hnot => ?_, hrange⟩
    by_cases hother : scalar.asInt w = 0 ∧ ∃ v, some v ∈ integersOf w items
    · simp [hzero hother] at hresult
    · obtain ⟨r, hr, -⟩ := hquotients hother hnot
      rw [hr] at hresult
      contradiction
  case quotients => exact hquotients

/-- **Division of integer arrays**: whatever array of integers is divided, of any shape and
with any nulls, by whatever scalar of its storage form.  Nulls are never divided, so
neither error comes of them. -/
theorem scalarDiv_divides (h : Obtained Tag.Admits a) (hk : a.tag.kind? = some (.int w))
    (hscalar : (Kind.int w).layout.storesLike scalar = true) :
    ∃ values, a.integers w = .ok values ∧ values.length = a.size ∧
      (∀ i < a.size, values[i]? = some none ↔ a.isNullAt i = true) ∧
      Divides a w scalar values := by
  obtain ⟨items, hholds, hvalues, hlen, hnulls⟩ := h.filled.exists_integers hk
  refine ⟨_, hvalues, hlen, hnulls, ?_⟩
  by_cases hdim : a.ndim = 0
  · rw [hholds.integersOf_eq_nil hdim] at hvalues ⊢
    exact divides_of_ndim hdim hvalues
  · exact divides_of_holds h.wellFormed hk hdim hscalar hholds

/-- The least small integer beside a null, from the trust boundary, over minus one in a
word that is filled up with zeros. -/
theorem scalarDiv_divides_decoded :
    let a := assemble Tag.int2 [3] [1] [false, true, false] [255, 127, 0, 128]
    let buf := [144, 0, 0, 0, 1, 0, 0, 0, 32, 0, 0, 0, 1, 0, 0, 0, 3, 0, 0, 0, 1, 0, 0, 0,
      5, 0, 0, 0, 0, 0, 0, 0, 255, 127, 0, 128]
    let d : Scalar := .word 0xffff
    decode buf = .ok a ∧ a.tag.kind? = some (.int .two) ∧
    (Kind.int .two).layout.storesLike d = true ∧
    ∃ values, a.integers .two = .ok values ∧ values.length = a.size ∧
      (∀ i < a.size, values[i]? = some none ↔ a.isNullAt i = true) ∧
      Divides a .two d values := by
  intro a buf d
  have hdecode : decode buf = .ok a := by
    simp only [buf, a]
    exact eq_ok_of_toOption (by decide +kernel)
  have hk : a.tag.kind? = some (.int .two) := by decide
  have hscalar : (Kind.int .two).layout.storesLike d = true := by decide
  exact ⟨hdecode, hk, hscalar, scalarDiv_divides (Obtained.decode hdecode) hk hscalar⟩

end NdArray

end PackedArray
