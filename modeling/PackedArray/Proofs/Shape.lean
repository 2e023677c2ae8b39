import PackedArray.NdArray.Basic
import PackedArray.Shape

/-!
# PackedArray.Proofs.Shape

Item counts as products, and the sizes of headers.

* `extentProduct_take_le` — no product on the way to a count that exists is
  cut off by a machine word;
* `NdArray.Dimensioned`, `NdArray.Dimensioned.size_of_itemCount` — where the number
  of dimensions is that of the extents, their count is that of the items;
* `itemCount_eq_ok_iff_isItemCount` — which counts exist;
* `toInt_nullableHeaderSize` — the size of a header with a null bitmap
  survives the signed word that carries it.
-/

namespace PackedArray

/-! ## item counts -/

/-- The product of extents, none of which is negative. -/
def extentProduct (dims : List Int32) : Nat := dims.foldr (fun d n => d.toInt.toNat * n) 1

/-- Each step of a product meets an extent that is not negative, and stays
within the limit. -/
theorem productFrom_cons_eq_some_iff {acc n : Nat} {d : Int32} {ds : List Int32} :
    productFrom acc (d :: ds) = some n ↔
      0 ≤ d.toInt ∧ acc * d.toInt.toNat ≤ maxProduct ∧
        productFrom (acc * d.toInt.toNat) ds = some n := by
  rw [productFrom]
  split
  · next hneg => simp [Int.not_le.mpr hneg]
  · next hneg => simp [Int.not_lt.mp hneg]

theorem eq_mul_of_productFrom {acc n : Nat} {dims : List Int32}
    (h : productFrom acc dims = some n) : n = acc * extentProduct dims := by
  induction dims generalizing acc with
  | nil =>
      cases h
      simp [extentProduct]
  | cons d ds ih =>
      obtain ⟨-, -, h⟩ := productFrom_cons_eq_some_iff.mp h
      rw [ih h, extentProduct, extentProduct, List.foldr_cons, Nat.mul_assoc]

/-- The product in machine words that wrap. -/
theorem foldl_mul_of_productFrom {acc n : Nat} {dims : List Int32}
    (h : productFrom acc dims = some n) :
    dims.foldl (fun n d => n * UInt64.ofInt d.toInt) (UInt64.ofNat acc) = UInt64.ofNat n := by
  have hnat (k : Nat) : UInt64.ofInt k = UInt64.ofNat k := by
    rw [← UInt64.toNat_inj]
    simp [UInt64.ofInt]
    omega
  induction dims generalizing acc with
  | nil =>
      cases h
      rfl
  | cons d ds ih =>
      obtain ⟨hd, -, h⟩ := productFrom_cons_eq_some_iff.mp h
      rw [List.foldl_cons, ← ih h, UInt64.ofNat_mul, ← hnat d.toInt.toNat, Int.toNat_of_nonneg hd]

theorem toInt_nonneg_of_productFrom {acc n : Nat} {dims : List Int32}
    (h : productFrom acc dims = some n) : ∀ d ∈ dims, 0 ≤ d.toInt := by
  induction dims generalizing acc with
  | nil => simp
  | cons d ds ih =>
      obtain ⟨hd, -, h⟩ := productFrom_cons_eq_some_iff.mp h
      exact List.forall_mem_cons.mpr ⟨hd, ih h⟩

theorem le_maxProduct_of_productFrom {acc n : Nat} {dims : List Int32} (hacc : acc ≤ maxProduct)
    (h : productFrom acc dims = some n) : n ≤ maxProduct := by
  induction dims generalizing acc with
  | nil =>
      cases h
      exact hacc
  | cons d ds ih =>
      obtain ⟨-, hle, h⟩ := productFrom_cons_eq_some_iff.mp h
      exact ih hle h

theorem itemCount_eq_ok_iff {dims : List Int32} {n : Nat} :
    itemCount dims = .ok n ↔
      dims = [] ∧ n = 0 ∨ dims ≠ [] ∧ productFrom 1 dims = some n ∧ n ≤ maxItems := by
  unfold itemCount itemCount?
  cases dims with
  | nil => simp [eq_comm]
  | cons d ds =>
      have hfilter : (productFrom 1 (d :: ds)).filter (· ≤ maxItems) = some n ↔
          productFrom 1 (d :: ds) = some n ∧ n ≤ maxItems := by
        simp [Option.filter_eq_some_iff]
      simp only [reduceCtorEq, false_and, false_or, ne_eq, not_false_eq_true, true_and, ← hfilter]
      cases (productFrom 1 (d :: ds)).filter (· ≤ maxItems) <;> simp

/-- Extents that can be counted are not negative. -/
theorem toInt_nonneg_of_itemCount {dims : List Int32} {n : Nat} (h : itemCount dims = .ok n) :
    ∀ d ∈ dims, 0 ≤ d.toInt := by
  obtain ⟨rfl, -⟩ | ⟨-, hproduct, -⟩ := itemCount_eq_ok_iff.mp h
  · simp
  · exact toInt_nonneg_of_productFrom hproduct

/-- However far extents that can be counted are multiplied, the product is a
small one. -/
theorem extentProduct_take_le {dims : List Int32} {n : Nat} (h : itemCount dims = .ok n)
    (k : Nat) : extentProduct (dims.take k) ≤ maxProduct := by
  obtain ⟨rfl, -⟩ | ⟨-, hproduct, -⟩ := itemCount_eq_ok_iff.mp h
  · rw [List.take_nil]
    decide
  · rw [← List.take_append_drop k dims, productFrom_append, Option.bind_eq_some_iff] at hproduct
    obtain ⟨m, hm, -⟩ := hproduct
    have hle := le_maxProduct_of_productFrom (by decide) hm
    rwa [eq_mul_of_productFrom hm, Nat.one_mul] at hle

/-! ## which counts exist -/

/-- Extents that are not negative have a product, if none of the products on the
way is too great. -/
theorem productFrom_of_take_le {acc : Nat} {dims : List Int32} (hneg : ∀ d ∈ dims, 0 ≤ d.toInt)
    (hle : ∀ k, acc * extentProduct (dims.take k) ≤ maxProduct) :
    productFrom acc dims = some (acc * extentProduct dims) := by
  induction dims generalizing acc with
  | nil => simp [productFrom, extentProduct]
  | cons d ds ih =>
      obtain ⟨hd, hds⟩ := List.forall_mem_cons.mp hneg
      have hstep : ∀ k, acc * d.toInt.toNat * extentProduct (ds.take k) ≤ maxProduct := fun k => by
        rw [Nat.mul_assoc]
        exact hle (k + 1)
      have hfirst : acc * d.toInt.toNat ≤ maxProduct := by
        simpa [extentProduct] using hstep 0
      rw [productFrom_cons_eq_some_iff]
      refine ⟨hd, hfirst, ?_⟩
      rw [ih hds hstep, Nat.mul_assoc]
      rfl

/-- These extents have `n` items: none without dimensions, else the product of
the extents, if none is negative and neither the product nor one on the way to it
is too great. -/
def IsItemCount (dims : List Int32) (n : Nat) : Prop :=
  dims = [] ∧ n = 0 ∨
  dims ≠ [] ∧ (∀ d ∈ dims, 0 ≤ d.toInt) ∧
    (∀ k, extentProduct (dims.take k) ≤ 0x7fffffff) ∧ n = extentProduct dims ∧ n ≤ 134217727

/-- **Item counts**: the running product finds the count where there is one. -/
theorem itemCount_eq_ok_iff_isItemCount {dims : List Int32} {n : Nat} :
    itemCount dims = .ok n ↔ IsItemCount dims n := by
  have hmax : maxItems = 134217727 := by decide
  constructor
  · intro h
    obtain hnone | ⟨hne, hproduct, hle⟩ := itemCount_eq_ok_iff.mp h
    · exact .inl hnone
    · have hn := eq_mul_of_productFrom hproduct
      rw [Nat.one_mul] at hn
      exact .inr ⟨hne, toInt_nonneg_of_itemCount h, extentProduct_take_le h, hn, hmax ▸ hle⟩
  · rintro (hnone | ⟨hne, hneg, hsteps, rfl, hle⟩)
    · exact itemCount_eq_ok_iff.mpr (.inl hnone)
    · have hone : ∀ k, 1 * extentProduct (dims.take k) ≤ maxProduct := fun k => by
        rw [Nat.one_mul]
        exact hsteps k
      have hproduct := productFrom_of_take_le hneg hone
      rw [Nat.one_mul] at hproduct
      exact itemCount_eq_ok_iff.mpr (.inr ⟨hne, hproduct, hmax ▸ hle⟩)

/-- Extents without a count are refused for their size. -/
theorem itemCount_eq_error_iff {dims : List Int32} {e : ArrayError} :
    itemCount dims = .error e ↔ e = .sizeExceeded maxItems ∧ ¬∃ n, IsItemCount dims n := by
  simp only [← itemCount_eq_ok_iff_isItemCount]
  unfold itemCount
  cases itemCount? dims <;> simp [eq_comm]

/-! ## the number of dimensions -/

namespace NdArray

variable {a b : NdArray}

/-- The number of dimensions is that of the extents, and there are not too many. -/
structure Dimensioned (a : NdArray) : Prop where
  ndim_eq : a.ndim = Int32.ofNat a.dims.length
  length_dims_le : a.dims.length ≤ maxDimensions

theorem isEmpty_iff : a.isEmpty = true ↔ a.ndim = 0 := by
  simp [isEmpty]

/-- Without dimensions there are no items. -/
theorem size_of_ndim (h : a.ndim = 0) : a.size = 0 := by
  rw [size, if_pos (isEmpty_iff.mpr h)]

/-- The number of extents survives the signed word that carries it. -/
theorem Dimensioned.toInt_ndim (h : a.Dimensioned) : a.ndim.toInt = a.dims.length := by
  rw [h.ndim_eq]
  exact Int32.toInt_ofNat_of_lt (Nat.lt_of_le_of_lt h.length_dims_le (by decide))

theorem Dimensioned.toNat_toUInt32_ndim (h : a.Dimensioned) :
    a.ndim.toUInt32.toNat = a.dims.length := by
  rw [h.ndim_eq]
  exact UInt32.toNat_ofNat_of_lt' (Nat.lt_of_le_of_lt h.length_dims_le (by decide))

theorem Dimensioned.ndim_eq_iff (ha : a.Dimensioned) (hb : b.Dimensioned) :
    a.ndim = b.ndim ↔ a.dims.length = b.dims.length := by
  rw [← Int32.toInt_inj, ha.toInt_ndim, hb.toInt_ndim, Int.natCast_inj]

theorem Dimensioned.ndim_eq_zero_iff (h : a.Dimensioned) : a.ndim = 0 ↔ a.dims = [] := by
  rw [← Int32.toInt_inj, h.toInt_ndim, Int32.toInt_zero, Int.natCast_eq_zero,
    List.length_eq_zero_iff]

theorem Dimensioned.isEmpty_iff (h : a.Dimensioned) : a.isEmpty = true ↔ a.dims = [] :=
  NdArray.isEmpty_iff.trans h.ndim_eq_zero_iff

/-- A count that exists is the product of the extents. -/
theorem Dimensioned.size_of_itemCount (h : a.Dimensioned) {n : Nat}
    (hcount : itemCount a.dims = .ok n) : a.size = n := by
  unfold size
  obtain ⟨hd, rfl⟩ | ⟨hd, hproduct, -⟩ := itemCount_eq_ok_iff.mp hcount
  · rw [if_pos (h.isEmpty_iff.mpr hd)]
  · rw [eq_mul_of_productFrom hproduct, Nat.one_mul, extentProduct,
      if_neg (mt h.isEmpty_iff.mp hd)]

end NdArray

/-! ## header sizes -/

theorem plainHeaderSize_eq (ndim : Nat) : plainHeaderSize ndim = fixedHeaderSize + 8 * ndim := by
  unfold plainHeaderSize maxAlign fixedHeaderSize
  exact Align.pad_eq_self ⟨2 + ndim, by simp [Align.width]; omega⟩

/-- The boundary behind a null bitmap, in figures. -/
theorem nullableHeaderSize_eq (ndim n : Nat) :
    nullableHeaderSize ndim n = (16 + 8 * ndim + (n + 7) / 8 + 7) / 8 * 8 := rfl

/-- A header with a null bitmap has room for the words and the bitmap. -/
theorem le_nullableHeaderSize (ndim n : Nat) :
    fixedHeaderSize + 8 * ndim + bitmapSize n ≤ nullableHeaderSize ndim n :=
  Align.le_pad _ _

theorem nullableHeaderSize_lt {ndim n : Nat} (hdim : ndim ≤ maxDimensions) (hn : n ≤ maxItems) :
    nullableHeaderSize ndim n < 0x80000000 := by
  have hlt : nullableHeaderSize ndim n < fixedHeaderSize + 8 * ndim + bitmapSize n + 8 :=
    Align.pad_lt .double _
  have hmax : maxItems = 134217727 := by decide
  unfold fixedHeaderSize bitmapSize at hlt
  unfold maxDimensions at hdim
  omega

/-- The size of a header with a null bitmap survives the signed word that
carries it. -/
theorem toInt_nullableHeaderSize {ndim n : Nat} (hdim : ndim ≤ maxDimensions)
    (hn : n ≤ maxItems) :
    (Int32.ofNat (nullableHeaderSize ndim n)).toInt = nullableHeaderSize ndim n :=
  Int32.toInt_ofNat_of_lt (nullableHeaderSize_lt hdim hn)

end PackedArray
