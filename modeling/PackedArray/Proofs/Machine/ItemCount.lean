import PackedArray.Proofs.Machine.Shape

/-!
# PackedArray.Proofs.Machine.ItemCount

Item counts in the very words that hold them.

The running product of the extents lives in a signed half word.  For each extent
it is widened to a word, multiplied there, and narrowed again if the product fits
a half word.  The last one is read as an unsigned word and held against the limit.

* `Machine.multiply_half` — the product of two half words never overflows a word;
* `Machine.countWords_eq` — the words come to the count of the library, for extents
  of any signs and any number;
* `itemCount_exact` — that count is the product over the integers.
-/

namespace PackedArray

/-! ## products over the integers -/

/-- The product of extents of any signs. -/
def signedProduct (dims : List Int32) : Int := dims.foldr (fun d p => d.toInt * p) 1

/-- Extents that have a count: none is negative, no product on the way is too great
for a signed half word, and the whole product is within the limit on items. -/
structure HasCount (dims : List Int32) : Prop where
  /-- No extent is negative. -/
  nonneg : ∀ d ∈ dims, 0 ≤ d.toInt
  /-- The product of the first extents fits a signed half word, however many are
  taken. -/
  take_le : ∀ k, signedProduct (dims.take k) ≤ 0x7fffffff
  /-- The whole product is within the limit on items. -/
  product_le : signedProduct dims ≤ 134217727

theorem signedProduct_of_nonneg {dims : List Int32} (h : ∀ d ∈ dims, 0 ≤ d.toInt) :
    signedProduct dims = extentProduct dims := by
  induction dims with
  | nil => rfl
  | cons d ds ih =>
      obtain ⟨hd, hds⟩ := List.forall_mem_cons.mp h
      have htail := ih hds
      simp only [signedProduct, extentProduct, List.foldr_cons] at htail ⊢
      rw [htail, Int.natCast_mul, Int.toNat_of_nonneg hd]

theorem isItemCount_iff_hasCount {dims : List Int32} (hne : dims ≠ []) {n : Nat} :
    IsItemCount dims n ↔ HasCount dims ∧ (n : Int) = signedProduct dims := by
  constructor
  · rintro (⟨hnil, -⟩ | ⟨-, hneg, htake, rfl, hle⟩)
    · exact absurd hnil hne
    · have hproduct := signedProduct_of_nonneg hneg
      refine ⟨⟨hneg, fun k => ?_, by omega⟩, hproduct.symm⟩
      rw [signedProduct_of_nonneg fun d hd => hneg d (List.mem_of_mem_take hd)]
      exact Int.ofNat_le.mpr (htake k)
  · rintro ⟨h, hn⟩
    have hproduct := signedProduct_of_nonneg h.nonneg
    have hle := h.product_le
    refine .inr ⟨hne, h.nonneg, fun k => ?_, by omega, by omega⟩
    have htake := h.take_le k
    rw [signedProduct_of_nonneg fun d hd => h.nonneg d (List.mem_of_mem_take hd)] at htake
    exact Int.ofNat_le.mp htake

/-! ## the product in words -/

namespace Machine

variable {ε : Type}

/-- A product of signed words. -/
def multiply (x y : Int64) : Run ε Int64 := do
  demand (-0x8000000000000000 ≤ x.toInt * y.toInt ∧ x.toInt * y.toInt ≤ 0x7fffffffffffffff)
  return x * y

/-- The signed half word with the same number, if there is one. -/
def narrow? (x : Int64) : Option Int32 :=
  if -0x80000000 ≤ x.toInt ∧ x.toInt ≤ 0x7fffffff then some x.toInt32 else none

/-- The running product of extents in a signed half word. -/
def productWords (acc : Int32) : List Int32 → Run ArrayError Int32
  | [] => .ok acc
  | d :: ds =>
    if d < 0 then .error (.reported (.sizeExceeded maxItems))
    else do
      let product ← multiply acc.toInt64 d.toInt64
      match narrow? product with
      | some next => productWords next ds
      | none => .error (.reported (.sizeExceeded maxItems))

/-- The item count, from the running product as an unsigned word. -/
def countWords (dims : List Int32) : Run ArrayError Nat :=
  if dims.isEmpty then .ok 0
  else do
    let n := unsigned (← productWords 1 dims)
    if n ≤ maxItems then .ok n else .error (.reported (.sizeExceeded maxItems))

theorem toInt_mul_half_bounds (x y : Int32) :
    -0x8000000000000000 ≤ x.toInt * y.toInt ∧ x.toInt * y.toInt ≤ 0x7fffffffffffffff := by
  have habs : (x.toInt * y.toInt).natAbs ≤ 0x80000000 * 0x80000000 := by
    rw [Int.natAbs_mul]
    refine Nat.mul_le_mul ?_ ?_
    · have hlt := x.toInt_lt
      have hle := x.le_toInt
      omega
    · have hlt := y.toInt_lt
      have hle := y.le_toInt
      omega
  omega

/-- The product of two half words never overflows a word, and is their product over
the integers. -/
theorem multiply_half (x y : Int32) :
    ∃ z : Int64, (multiply x.toInt64 y.toInt64 : Run ε Int64) = .ok z ∧
      z.toInt = x.toInt * y.toInt := by
  have hbounds := toInt_mul_half_bounds x y
  refine ⟨x.toInt64 * y.toInt64, ?_, ?_⟩
  · rw [multiply, Int32.toInt_toInt64, Int32.toInt_toInt64, demand_of hbounds]
    rfl
  · rw [Int64.toInt_mul, Int32.toInt_toInt64, Int32.toInt_toInt64]
    exact Int.bmod_eq_of_le (by omega) (by omega)

theorem narrow?_eq_some_iff {x : Int64} {y : Int32} : narrow? x = some y ↔ y.toInt = x.toInt := by
  have hlt := y.toInt_lt
  have hle := y.le_toInt
  unfold narrow?
  split
  · next h =>
      have hx : x.toInt32.toInt = x.toInt := by
        rw [Int64.toInt_toInt32]
        exact Int.bmod_eq_of_le (by omega) (by omega)
      rw [Option.some_inj, ← Int32.toInt_inj, hx, eq_comm]
  · next h =>
      simp only [reduceCtorEq, false_iff]
      omega

theorem narrow?_of_lt {x : Int64} (h : 0x7fffffff < x.toInt) : narrow? x = none :=
  if_neg fun hbounds => Int.not_le.mpr h hbounds.2

/-- Along the extents, the half word holds the running product of the library. -/
theorem productWords_eq {acc : Int32} {m : Nat} (hacc : acc.toInt = m) (dims : List Int32) :
    productWords acc dims = match PackedArray.productFrom m dims with
      | some n => .ok (Int32.ofNat n)
      | none => .error (.reported (.sizeExceeded maxItems)) := by
  induction dims generalizing acc m with
  | nil =>
      have hlt := acc.toInt_lt
      have hword : acc = Int32.ofNat m := by
        rw [← Int32.toInt_inj, hacc, Int32.toInt_ofNat_of_lt (by omega)]
      rw [hword]
      rfl
  | cons d ds ih =>
      rw [productWords, PackedArray.productFrom]
      by_cases hd : d.toInt < 0
      · rw [if_pos (Int32.lt_iff_toInt_lt.mpr hd), if_pos hd]
      · obtain ⟨product, hmul, hproduct⟩ := multiply_half (ε := ArrayError) acc d
        have hnat : ((m * d.toInt.toNat : Nat) : Int) = product.toInt := by
          rw [hproduct, hacc, Int.natCast_mul, Int.toNat_of_nonneg (Int.not_lt.mp hd)]
        rw [if_neg (mt Int32.lt_iff_toInt_lt.mp hd), if_neg hd, hmul, ok_bind]
        simp only
        by_cases hle : m * d.toInt.toNat ≤ maxProduct
        · have hhalf : (Int32.ofNat (m * d.toInt.toNat)).toInt = (m * d.toInt.toNat : Nat) :=
            Int32.toInt_ofNat_of_lt (Nat.lt_succ_of_le hle)
          rw [narrow?_eq_some_iff.mpr (hhalf.trans hnat), if_pos hle]
          exact ih hhalf
        · have hlt : maxProduct < m * d.toInt.toNat := Nat.lt_of_not_le hle
          unfold maxProduct at hlt
          rw [narrow?_of_lt (by omega), if_neg hle]

/-- The words come to the count of the library, and never break off. -/
theorem countWords_eq (dims : List Int32) :
    countWords dims = lift (PackedArray.itemCount dims) := by
  unfold countWords PackedArray.itemCount itemCount?
  split
  · rfl
  · rw [productWords_eq Int32.toInt_one]
    cases hproduct : PackedArray.productFrom 1 dims with
    | none => rfl
    | some n =>
        have hle : n ≤ 0x7fffffff := le_maxProduct_of_productFrom (by decide) hproduct
        have hword : unsigned (Int32.ofNat n) = n :=
          (unsigned_eq_iff (by omega)).mpr (Int32.toInt_ofNat_of_lt (by omega))
        rw [ok_bind, hword]
        by_cases hmax : n ≤ maxItems <;> simp [Option.filter, hmax]

end Machine

/-! ## exactness -/

/-- Extents without a count are those of some dimension that fail one of the
conditions. -/
theorem not_exists_isItemCount_iff {dims : List Int32} :
    (¬∃ n, IsItemCount dims n) ↔ dims ≠ [] ∧ ¬HasCount dims := by
  by_cases hne : dims = []
  · simp [IsItemCount, hne]
  · simp only [isItemCount_iff_hasCount hne, ne_eq, hne, not_false_eq_true, true_and]
    refine not_congr ⟨fun ⟨_, h, _⟩ => h, fun h => ?_⟩
    exact ⟨extentProduct dims, h, (signedProduct_of_nonneg h.nonneg).symm⟩

/-- Items within the limit leave room for a word each in one request. -/
theorem admits_mul_of_itemCount {dims : List Int32} {n : Nat} (h : itemCount dims = .ok n) :
    Quota.standard.admits (n * 8) = true := by
  have hle := itemCount_le h
  have hmax : maxItems = 134217727 := by decide
  exact decide_eq_true (show n * 8 ≤ 0x3fffffff by omega)

/-- **Exact item counts**: a count is the product of the extents over the integers,
and there is one just if no extent is negative, no product on the way leaves the
signed half word, and the whole is within the limit.  Everything else is refused for
its size.  The words that the count is taken in overflow nowhere, and a word for
each item still fits one request. -/
theorem itemCount_exact (dims : List Int32) :
    (∀ n, itemCount dims = .ok n ↔
      if dims = [] then n = 0 else HasCount dims ∧ (n : Int) = signedProduct dims) ∧
    (∀ e, itemCount dims = .error e ↔
      (dims ≠ [] ∧ ¬HasCount dims) ∧ e = .sizeExceeded 134217727) ∧
    Machine.countWords dims = Machine.lift (itemCount dims) ∧
    (∀ n, itemCount dims = .ok n → Quota.standard.admits (n * 8) = true) := by
  have hok : ∀ n, itemCount dims = .ok n ↔
      if dims = [] then n = 0 else HasCount dims ∧ (n : Int) = signedProduct dims := by
    intro n
    rw [itemCount_eq_ok_iff_isItemCount]
    split
    · next hnil => simp [IsItemCount, hnil]
    · next hne => exact isItemCount_iff_hasCount hne
  refine ⟨hok, fun e => ?_, Machine.countWords_eq dims, fun n => admits_mul_of_itemCount⟩
  rw [itemCount_eq_error_iff, not_exists_isItemCount_iff, and_comm]
  rfl

/-! An extent of none takes the product back to nothing, but not the products before
it. -/

example : itemCount [0, 65536, 65536] = .ok 0 := rfl

example : itemCount [65536, 65536, 0] = .error (.sizeExceeded 134217727) := rfl

end PackedArray
