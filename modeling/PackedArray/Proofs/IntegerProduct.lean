import PackedArray.Proofs.IntegerDivision
import PackedArray.Proofs.WholeNumbers

/-!
# PackedArray.Proofs.IntegerProduct

Multiplying arrays of integers.

Products are computed in double precision, so what comes out is the product of the
two numbers rounded, rounded again, or an error if the width does not hold it.  It
is the product itself exactly when that has few enough significant bits, as every
product has that one of the two narrower widths holds.  Division, in whole numbers,
takes such products back.

* `roundedProduct_eq_mul_iff` — which products are exact;
* `NdArray.scalarMult_exact` — multiplication, and the way back;
* `NdArray.scalarMult_inexact` — an array for which there is none.
-/

namespace PackedArray

variable {w : IntWidth} {v d : Int}

/-! ## products -/

/-- The product of two integers in double precision. -/
def roundedProduct (v d : Int) : Int :=
  let magnitude : Int :=
    binary64.round (binary64.round v.natAbs 1 * binary64.round d.natAbs 1) 1
  if decide (v < 0) != decide (d < 0) then -magnitude else magnitude

theorem natAbs_roundedProduct (v d : Int) :
    (roundedProduct v d).natAbs =
      binary64.round (binary64.round v.natAbs 1 * binary64.round d.natAbs 1) 1 := by
  unfold roundedProduct
  simp only
  split <;> simp

/-- The sign and the magnitude of a product. -/
theorem mul_eq_sign_natAbs (v d : Int) :
    v * d = if decide (v < 0) != decide (d < 0) then -((v.natAbs * d.natAbs : Nat) : Int)
      else ((v.natAbs * d.natAbs : Nat) : Int) := by
  have hneg {u : Int} (h : u < 0) : (u.natAbs : Int) = -u :=
    Int.ofNat_natAbs_of_nonpos (Int.le_of_lt h)
  have hpos {u : Int} (h : ¬u < 0) : (u.natAbs : Int) = u :=
    Int.natAbs_of_nonneg (Int.not_lt.mp h)
  rw [Int.natCast_mul]
  by_cases hv : v < 0
  · by_cases hd : d < 0
    · rw [if_neg (by simp [hv, hd]), hneg hv, hneg hd, Int.neg_mul_neg]
    · rw [if_pos (by simp [hv, hd]), hneg hv, hpos hd, Int.neg_mul, Int.neg_neg]
  · by_cases hd : d < 0
    · rw [if_pos (by simp [hv, hd]), hpos hv, hneg hd, Int.mul_neg, Int.neg_neg]
    · rw [if_neg (by simp [hv, hd]), hpos hv, hpos hd]

/-- **Which products are exact**: those with as few significant bits as double precision
keeps. -/
theorem roundedProduct_eq_mul_iff : roundedProduct v d = v * d ↔ binary64.Exact (v * d).natAbs := by
  constructor
  · intro h
    rw [← h, natAbs_roundedProduct]
    exact binary64.exact_round _ 1
  · intro h
    rw [Int.natAbs_mul] at h
    have hmagnitude : binary64.round (binary64.round v.natAbs 1 * binary64.round d.natAbs 1) 1 =
        v.natAbs * d.natAbs := by
      by_cases hzero : v.natAbs * d.natAbs = 0
      · rw [hzero, FloatFormat.round_eq_zero_iff, Nat.mul_eq_zero, FloatFormat.round_eq_zero_iff,
          FloatFormat.round_eq_zero_iff, ← Nat.mul_eq_zero]
        exact hzero
      · have hcomm := h
        rw [Nat.mul_comm] at hcomm
        have hv : binary64.Exact v.natAbs := h.of_mul hzero
        have hd : binary64.Exact d.natAbs := hcomm.of_mul (Nat.mul_comm _ _ ▸ hzero)
        rw [hv.round_eq, hd.round_eq, h.round_eq]
    rw [roundedProduct, hmagnitude, mul_eq_sign_natAbs]

/-! ## the step -/

theorem IntWidth.natAbs_le (h : w.Holds v) : v.natAbs ≤ 0x8000000000000000 := by
  have hle := w.bound_le_eight
  have height : IntWidth.eight.bound = 0x8000000000000000 := by decide
  unfold Holds at h
  omega

/-- Integers are whole numbers in double precision. -/
theorem isWhole_ofInt (hv : w.Holds v) :
    (Double.ofInt v).IsWhole (v < 0) (binary64.round v.natAbs 1) :=
  Double.isWhole_ofInt (Nat.lt_of_le_of_lt (IntWidth.natAbs_le hv) (by decide))

/-- Products of integers are whole numbers in double precision. -/
theorem isWhole_mul_ofInt (hv : w.Holds v) (hd : w.Holds d) :
    ((Double.ofInt v).mul (Double.ofInt d)).IsWhole (decide (v < 0) != decide (d < 0))
      (roundedProduct v d).natAbs := by
  have hround {u : Int} (hu : w.Holds u) :
      binary64.round u.natAbs 1 ≤ 2 * 0x8000000000000000 :=
    Nat.le_trans (binary64.round_le _) (Nat.mul_le_mul_left 2 (IntWidth.natAbs_le hu))
  rw [natAbs_roundedProduct]
  exact (isWhole_ofInt hv).mul (isWhole_ofInt hd)
    (Nat.lt_of_le_of_lt (Nat.mul_le_mul (hround hv) (hround hd)) (by decide))

/-- A product is accepted if it is finite, and zero only where a factor is. -/
theorem NumericOp.eval_mult_of_finite {x y : Double} (acc : Double)
    (hfinite : (x.mul y).isInfinite = false)
    (hzero : (x.mul y).isZero = true → (x.isZero || y.isZero) = true) :
    NumericOp.mult.eval x acc y = .ok (x.mul y) := by
  have hpolicy : checkFloat (x.mul y) (x.isInfinite || y.isInfinite) (x.isZero || y.isZero) =
      .ok () := by
    rw [checkFloat, if_neg (by simp [hfinite]), if_neg]
    intro hrefused
    obtain ⟨hproduct, hfactors⟩ := Bool.and_eq_true_iff.mp hrefused
    rw [hzero hproduct] at hfactors
    contradiction
  rw [eval, checked, hpolicy]
  rfl

/-- A product of integers is never refused in double precision. -/
theorem NumericOp.eval_mult_ofInt (acc : Double) (hv : w.Holds v) (hd : w.Holds d) :
    NumericOp.mult.eval (Double.ofInt v) acc (Double.ofInt d) =
      .ok ((Double.ofInt v).mul (Double.ofInt d)) := by
  have hwhole := isWhole_mul_ofInt hv hd
  refine eval_mult_of_finite acc hwhole.isInfinite_eq_false fun hzero => ?_
  rw [hwhole.isZero_iff, natAbs_roundedProduct, FloatFormat.round_eq_zero_iff, Nat.mul_eq_zero]
    at hzero
  rw [Bool.or_eq_true, (isWhole_ofInt hv).isZero_iff, (isWhole_ofInt hd).isZero_iff]
  exact hzero

/-- A whole number is narrowed if the width holds it. -/
theorem narrow_of_roundEven? {p : Double} {n : Int} {tag : Tag} (hk : tag.kind? = some (.int w))
    (h : p.roundEven? = some n) :
    liftScalar (p.narrow tag) =
      if w.Holds n then .ok (Scalar.ofInt w n)
      else .error (.scalar (.outOfRange w.rangeName)) := by
  rw [Double.narrow, Tag.kind, hk]
  simp only [ok_bind, Kind.narrow, IntWidth.narrowDouble, h, IntWidth.narrow]
  split <;> rfl

theorem combine_mult_of_int {x scalar : Scalar} {tag : Tag} (hk : tag.kind? = some (.int w)) :
    NumericOp.mult.combine x tag x tag scalar tag =
      if w.Holds (roundedProduct (x.asInt w) (scalar.asInt w)) then
        .ok (Scalar.ofInt w (roundedProduct (x.asInt w) (scalar.asInt w)))
      else .error (.scalar (.outOfRange w.rangeName)) := by
  have hwiden (y : Scalar) : liftScalar (y.widen tag) = .ok (Double.ofInt (y.asInt w)) := by
    rw [Scalar.widen, Tag.kind, hk]
    rfl
  have hproduct : ((Double.ofInt (x.asInt w)).mul (Double.ofInt (scalar.asInt w))).roundEven? =
      some (roundedProduct (x.asInt w) (scalar.asInt w)) := by
    rw [(isWhole_mul_ofInt (x.holds_asInt w) (scalar.holds_asInt w)).roundEven?_eq,
      natAbs_roundedProduct, roundedProduct]
  rw [NumericOp.combine, if_neg (by simp), hwiden, hwiden, ok_bind, ok_bind, ok_bind,
    NumericOp.eval_mult_ofInt _ (x.holds_asInt w) (scalar.holds_asInt w), ok_bind,
    narrow_of_roundEven? hk hproduct]

/-- Multiplication is a step on integers, and fails only for products that the width does
not hold. -/
theorem integerStep_mult {tag : Tag} (hk : tag.kind? = some (.int w)) (scalar : Scalar) :
    IntegerStep w tag scalar NumericOp.mult.combine
      (fun v => ¬w.Holds (roundedProduct v (scalar.asInt w)))
      (.scalar (.outOfRange w.rangeName)) (roundedProduct · (scalar.asInt w)) where
  of_bad := fun x h => by rw [combine_mult_of_int hk, if_neg h]
  of_not_bad := fun x h => by rw [combine_mult_of_int hk, if_pos (Decidable.not_not.mp h)]
  holds := fun _ _ h => Decidable.not_not.mp h

/-! ## exact products -/

/-- Products that one of the narrower widths holds are exact. -/
theorem exact_of_holds (hw : w ≠ .eight) (hv : w.Holds v) (hd : w.Holds d)
    (hproduct : w.Holds (roundedProduct v d)) : binary64.Exact (v * d).natAbs := by
  have hbound : w.bound ≤ 0x80000000 := by
    cases w with
    | two | four => decide
    | eight => exact absurd rfl hw
  have hkept {u : Int} (hu : w.Holds u) : binary64.round u.natAbs 1 = u.natAbs := by
    refine (FloatFormat.exact_of_lt ?_).round_eq
    have hbinade : 2 * binary64.binade = 0x20000000000000 := by decide
    unfold IntWidth.Holds at hu
    omega
  have hmagnitude := natAbs_roundedProduct v d
  rw [hkept hv, hkept hd, ← Int.natAbs_mul] at hmagnitude
  refine FloatFormat.exact_of_lt (Nat.lt_of_not_le fun hlong => ?_)
  have hround := FloatFormat.le_round hlong
  have hbinade : 2 * binary64.binade = 0x20000000000000 := by decide
  unfold IntWidth.Holds at hproduct
  omega

/-- Division takes exact products back. -/
theorem tdiv_roundedProduct (hd : d ≠ 0) (h : binary64.Exact (v * d).natAbs) :
    (roundedProduct v d).tdiv d = v := by
  rw [roundedProduct_eq_mul_iff.mpr h, Int.mul_tdiv_cancel v hd]

/-! ## arrays -/

namespace NdArray

variable {a r : NdArray} {scalar : Scalar} {values products : List (Option Int)}

/-- The array `r` is the array `a` of integers multiplied by `d`, as far as double precision
goes. -/
structure Multiplied (a r : NdArray) (w : IntWidth) (d : Int)
    (values products : List (Option Int)) : Prop where
  read : a.integers w = .ok values
  read_products : r.integers w = .ok products
  length : values.length = a.size ∧ products.length = a.size
  nulls : ∀ i : Nat, products[i]? = some none ↔ values[i]? = some none
  /-- A product is the exact one if and only if that has few significant bits. -/
  exact_iff : ∀ (i : Nat) v, values[i]? = some (some v) → ∃ p, products[i]? = some (some p) ∧
    (p = v * d ↔ binary64.Exact (v * d).natAbs)
  /-- In the narrower widths every exact product has few significant bits. -/
  exact_narrow : w ≠ .eight → ∀ v, some v ∈ values → binary64.Exact (v * d).natAbs

/-- What scaling gives has been assembled. -/
theorem exists_assembled_of_mapScalar {source : NdArray} {f : Combiner}
    (h : (mapScalar source scalar f).result = .ok a) (hdim : a.ndim ≠ 0) (hne : source.ndim ≠ 0) :
    ∃ l, Assembled l a := by
  obtain ⟨hempty, -⟩ | ⟨-, k, elems, nulls, -, hmade⟩ := origin_of_mapScalar h
  · exact absurd (isEmpty_iff.mp hempty) hne
  · obtain ⟨-, rfl | hassembled⟩ := assembled_of_ofElements hmade
    · exact absurd rfl hdim
    · exact ⟨_, hassembled⟩

/-- If multiplication succeeds, no product was bad. -/
theorem integersMapped_of_scalarMult {items : List (Option Scalar)} (hwf : a.WellFormed)
    (hk : a.tag.kind? = some (.int w)) (hdim : a.ndim ≠ 0)
    (hscalar : (Kind.int w).layout.storesLike scalar = true)
    (hholds : a.Holds (Kind.int w).layout items) (hmult : (scalarMult a scalar).result = .ok r) :
    IntegersMapped a r w (integersOf w items) (roundedProduct · (scalar.asInt w)) ∧
      ∀ v, some v ∈ integersOf w items → w.Holds (roundedProduct v (scalar.asInt w)) := by
  have hstep := integerStep_mult hk scalar
  have hgood : ∀ v, some v ∈ integersOf w items → w.Holds (roundedProduct v (scalar.asInt w)) := by
    refine fun v hv => Decidable.byContradiction fun hbad => ?_
    have herror := hstep.mapScalar_eq_error hk hdim hscalar hholds hv hbad
    rw [scalarMult, herror] at hmult
    contradiction
  obtain ⟨r', hr', hmapped⟩ := hstep.exists_mapScalar hwf hk hdim hscalar hholds
    fun v hv => not_not_intro (hgood v hv)
  obtain rfl := Except.ok.inj (hr'.symm.trans hmult)
  exact ⟨hmapped, hgood⟩

/-- Exact products are divided again into the array that was multiplied. -/
theorem scalarDiv_of_exact {l : Layout} (ha : Assembled l a) (hfill : a.Filled)
    (hr : Obtained Tag.Admits r) (hk : a.tag.kind? = some (.int w))
    (hscalar : (Kind.int w).layout.storesLike scalar = true) (hne : scalar.asInt w ≠ 0)
    (hdim : a.ndim ≠ 0) (hvalues : a.integers w = .ok values)
    (hheld : ∀ v, some v ∈ values → w.Holds v)
    (hmapped : IntegersMapped a r w values (roundedProduct · (scalar.asInt w)))
    (hexact : ∀ v, some v ∈ values → binary64.Exact (v * scalar.asInt w).natAbs) :
    (scalarDiv r scalar).result = .ok a := by
  have hk' : r.tag.kind? = some (.int w) := hmapped.tag ▸ hk
  have hdim' : r.ndim ≠ 0 := hmapped.ndim ▸ hdim
  obtain ⟨items, hholds, hints, -⟩ := hr.filled.exists_integers hk'
  have hproducts :
      integersOf w items = values.map (Option.map (roundedProduct · (scalar.asInt w))) :=
    Except.ok.inj (hints.symm.trans hmapped.integers)
  -- a product over minus one is the least number only if the number itself was too great
  have hgood : ∀ p, some p ∈ integersOf w items → ¬(scalar.asInt w = -1 ∧ p = -w.bound) := by
    rintro p hp ⟨hd, hleast⟩
    rw [hproducts, List.mem_map] at hp
    obtain ⟨item, hitem, hp⟩ := hp
    obtain ⟨v, rfl, hproduct⟩ := Option.map_eq_some_iff.mp hp
    rw [roundedProduct_eq_mul_iff.mpr (hexact v hitem)] at hproduct
    have hlt := (hheld v hitem).2
    rw [hd] at hproduct
    omega
  obtain ⟨b, hb, hdivided⟩ :=
    (integerStep_div hk' hne).exists_mapScalar hr.wellFormed hk' hdim' hscalar hholds hgood
  have hback : (values.map (Option.map (roundedProduct · (scalar.asInt w)))).map
      (Option.map (·.tdiv (scalar.asInt w))) = values := by
    rw [List.map_map]
    refine (List.map_congr_left fun item hitem => ?_).trans (List.map_id values)
    cases item with
    | none => rfl
    | some v => exact congrArg some (tdiv_roundedProduct hne (hexact v hitem))
  obtain ⟨l', hassembled⟩ := exists_assembled_of_mapScalar hb (hdivided.ndim ▸ hdim') hdim'
  have hfilled : b.Filled := (Obtained.mapScalar (fun _ => hr) hb).filled
  have heq : b = a := hassembled.eq_of_integers ha hfilled hfill (by rwa [hdivided.tag])
    (hdivided.tag.trans hmapped.tag) (hdivided.dims.trans hmapped.dims)
    (hdivided.lbounds.trans hmapped.lbounds)
    (by rw [hdivided.integers, hproducts, hback, hvalues])
  rw [scalarDiv, hb, heq]

/-- What a successful multiplication gives, item by item. -/
theorem IntegersMapped.multiplied (hmapped : IntegersMapped a r w values (roundedProduct · d))
    (hvalues : a.integers w = .ok values) (hlen : values.length = a.size)
    (hheld : ∀ v, some v ∈ values → w.Holds v) (hd : w.Holds d)
    (hgood : ∀ v, some v ∈ values → w.Holds (roundedProduct v d)) :
    Multiplied a r w d values (values.map (Option.map (roundedProduct · d))) where
  read := hvalues
  read_products := hmapped.integers
  length := ⟨hlen, by rw [List.length_map, hlen]⟩
  nulls := fun i => by
    rw [List.getElem?_map]
    cases values[i]? with
    | none => simp
    | some item => cases item <;> simp
  exact_iff := fun i v hv =>
    ⟨roundedProduct v d, by rw [List.getElem?_map, hv]; rfl, roundedProduct_eq_mul_iff⟩
  exact_narrow := fun hw v hv => exact_of_holds hw (hheld v hv) hd (hgood v hv)

/-- **Multiplication of integer arrays**: if it succeeds, the products that have no more
significant bits than double precision keeps are exact, and only those; and if
all are, division gives the array back. -/
theorem scalarMult_exact (h : Made Tag.Admits a) (hk : a.tag.kind? = some (.int w))
    (hscalar : (Kind.int w).layout.storesLike scalar = true) (hne : scalar.asInt w ≠ 0)
    (hmult : (scalarMult a scalar).result = .ok r) :
    ∃ values products, Multiplied a r w (scalar.asInt w) values products ∧
      ((∀ v, some v ∈ values → binary64.Exact (v * scalar.asInt w).natAbs) →
        (scalarDiv r scalar).result = .ok a) := by
  obtain ⟨items, hholds, hvalues, hlen, -⟩ := h.obtained.filled.exists_integers hk
  by_cases hdim : a.ndim = 0
  · obtain rfl : a = r := Except.ok.inj ((mapScalar_of_ndim hdim scalar _).symm.trans hmult)
    have hsize := size_of_ndim hdim
    rw [hholds.integersOf_eq_nil hdim] at hvalues
    exact ⟨[], [], ⟨hvalues, hvalues, by simp [hsize], by simp, by simp, by simp⟩,
      fun _ => mapScalar_of_ndim hdim scalar _⟩
  · obtain hempty | ⟨l, -, hassembled⟩ := h.empty_or_assembled
    · exact absurd (by rw [hempty]; rfl) hdim
    have hheld : ∀ v, some v ∈ integersOf w items → w.Holds v := fun _ => holds_of_mem_integersOf
    obtain ⟨hmapped, hgood⟩ :=
      integersMapped_of_scalarMult h.obtained.wellFormed hk hdim hscalar hholds hmult
    have hr : Obtained Tag.Admits r := .mapScalar (fun _ => h.obtained) hmult
    exact ⟨_, _, hmapped.multiplied hvalues hlen hheld (scalar.holds_asInt w) hgood,
      scalarDiv_of_exact hassembled h.obtained.filled hr hk hscalar hne hdim hvalues hheld hmapped⟩

/-- Great integers around a null, multiplied by four: their products have few significant
bits. -/
theorem scalarMult_exact_great :
    let l := (Kind.int .eight).layout
    let elems := [.ref [0, 0, 0, 0, 0, 0, 0, 16], .word 7,
      .ref [253, 255, 255, 255, 255, 255, 255, 255]]
    let flags := [false, true, false]
    let a := assemble Tag.int8 [3] [1] flags
      [0, 0, 0, 0, 0, 0, 0, 16, 253, 255, 255, 255, 255, 255, 255, 255]
    let four : Scalar := .ref [4]
    let r := assemble Tag.int8 [3] [1] flags
      [0, 0, 0, 0, 0, 0, 0, 64, 244, 255, 255, 255, 255, 255, 255, 255]
    ofElements elems (some flags) [3] [1] Tag.int8 l = .ok a ∧
    a.tag.kind? = some (.int .eight) ∧ l.storesLike four = true ∧ four.asInt .eight ≠ 0 ∧
    (scalarMult a four).result = .ok r ∧
    ∃ values products, Multiplied a r .eight (four.asInt .eight) values products ∧
      ((∀ v, some v ∈ values → binary64.Exact (v * four.asInt .eight).natAbs) →
        (scalarDiv r four).result = .ok a) := by
  intro l elems flags a four r
  have hmade : ofElements elems (some flags) [3] [1] Tag.int8 l = .ok a := by
    simp only [elems, flags, l, a]
    rfl
  have hadmits : Tag.int8.Admits l := by
    rintro k ⟨⟩
    rfl
  have hk : a.tag.kind? = some (.int .eight) := by decide
  have hscalar : l.storesLike four = true := by decide
  have hne : four.asInt .eight ≠ 0 := by decide
  have hmult : (scalarMult a four).result = .ok r := by
    simp only [a, four, r, flags]
    exact eq_ok_of_toOption (by decide +kernel)
  exact ⟨hmade, hk, hscalar, hne, hmult,
    scalarMult_exact (.ofElements hadmits hmade) hk hscalar hne hmult⟩

/-- An integer that double precision has no room for: multiplied by one it is another, and
divided by one it stays that. -/
theorem scalarMult_inexact :
    let l := (Kind.int .eight).layout
    let a := assemble Tag.int8 [1] [1] [false] [1, 0, 0, 0, 0, 0, 32, 0]
    let one : Scalar := .ref [1, 0, 0, 0, 0, 0, 0, 0]
    let r := assemble Tag.int8 [1] [1] [false] [0, 0, 0, 0, 0, 0, 32, 0]
    vectorOfElements [.ref [1, 0, 0, 0, 0, 0, 32, 0]] 1 Tag.int8 l = .ok a ∧
    one.asInt .eight = 1 ∧ (scalarMult a one).result = .ok r ∧
    a.integers .eight = .ok [some 9007199254740993] ∧
    r.integers .eight = .ok [some 9007199254740992] ∧
    (scalarDiv r one).result = .ok r ∧ r ≠ a := by
  intro l a one r
  simp only [l, a, one, r]
  refine ⟨rfl, by decide +kernel, eq_ok_of_toOption ?_, eq_ok_of_toOption ?_,
    eq_ok_of_toOption ?_, eq_ok_of_toOption ?_, by decide⟩ <;> decide +kernel

end NdArray

end PackedArray
