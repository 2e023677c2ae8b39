import PackedArray.Proofs.Bitmap
import PackedArray.Proofs.PackedData
import PackedArray.Proofs.Shape

/-!
# PackedArray.Proofs.Construction

What the ways of making an array give back.

They differ in where the data comes from and in what they refuse.  What they
share is `NdArray.assemble`: a shape whose items can be counted, one null flag
per item, and some packed data; a bitmap is attached only if a flag is set.

* `NdArray.ofElements_eq_ok_iff` — from elements, with the exact conditions;
* `NdArray.zeros_eq_ok_iff`, `NdArray.ofPacked_eq_ok_iff` — zeros and packed
  bytes, likewise;
* `NdArray.isNullAt_assemble` — the flags come back item by item.
-/

namespace PackedArray

namespace NdArray

/-! ## assembling -/

/-- An array of this shape with these null flags and this data.  It carries a
bitmap only if some flag is set. -/
def assemble (tag : Tag) (dims lbounds : List Int32) (flags : List Bool) (data : List UInt8) :
    NdArray where
  tag := tag
  ndim := Int32.ofNat dims.length
  dims := dims
  lbounds := lbounds
  dataOffset :=
    if flags.any id then Int32.ofNat (nullableHeaderSize dims.length flags.length) else 0
  nulls := if flags.any id then some (NullBitmap.ofNulls flags) else none
  data := data

variable {tag : Tag} {dims lbounds : List Int32} {flags : List Bool} {data : List UInt8}

/-- Without a null there is no bitmap. -/
theorem assemble_replicate (n : Nat) :
    assemble tag dims lbounds (List.replicate n false) data =
      { tag, dims, lbounds, data, ndim := Int32.ofNat dims.length, dataOffset := 0,
        nulls := none } := by
  have hany : (List.replicate n false).any id = false := by simp
  rw [assemble, hany]
  rfl

theorem checkDimensions_eq_ok_iff :
    checkDimensions dims lbounds = .ok () ↔
      dims.length ≤ maxDimensions ∧ lbounds.length = dims.length := by
  unfold checkDimensions
  by_cases hmax : maxDimensions < dims.length
  · rw [if_pos hmax]
    simp only [reduceCtorEq, false_iff]
    omega
  · rw [if_neg hmax]
    by_cases hlen : dims.length = lbounds.length
    · simp [hlen]
      omega
    · simp only [ne_eq, hlen, not_false_eq_true, if_true, reduceCtorEq, false_iff]
      omega

theorem dimensioned_assemble (hcheck : checkDimensions dims lbounds = .ok ()) :
    (assemble tag dims lbounds flags data).Dimensioned where
  ndim_eq := rfl
  length_dims_le := (checkDimensions_eq_ok_iff.mp hcheck).1

theorem size_assemble (hcheck : checkDimensions dims lbounds = .ok ())
    (hcount : itemCount dims = .ok flags.length) :
    (assemble tag dims lbounds flags data).size = flags.length :=
  (dimensioned_assemble hcheck).size_of_itemCount hcount

/-- The flags come back item by item, with or without a bitmap. -/
theorem isNullAt_assemble {i : Nat} (h : i < flags.length) :
    (assemble tag dims lbounds flags data).isNullAt i = flags[i] := by
  unfold isNullAt assemble
  by_cases hany : flags.any id = true
  · simp [hany, NullBitmap.isNull_ofNulls h]
  · have hall : ∀ b ∈ flags, b = false := by simpa using hany
    simp [hany, hall _ (List.getElem_mem h)]

theorem nullMask_assemble (hcheck : checkDimensions dims lbounds = .ok ())
    (hcount : itemCount dims = .ok flags.length) :
    (assemble tag dims lbounds flags data).nullMask = flags := by
  refine List.ext_getElem (by rw [length_nullMask, size_assemble hcheck hcount]) fun i _ hi => ?_
  simp only [nullMask, List.getElem_map, List.getElem_range]
  exact isNullAt_assemble hi

/-! ## flags and shapes -/

theorem nullFlags_eq_ok_iff {n : Nat} {nulls : Option (List Bool)} :
    nullFlags n nulls = .ok flags ↔
      flags.length = n ∧ flags = (nulls.getD (List.replicate n false)).take n := by
  cases nulls with
  | none =>
      simp only [nullFlags, Except.ok.injEq, Option.getD_none]
      constructor
      · rintro rfl
        simp
      · rintro ⟨-, rfl⟩
        simp
  | some mask =>
      simp only [nullFlags, Option.getD_some]
      split
      · next hlt =>
          simp only [reduceCtorEq, false_iff]
          rintro ⟨hlen, rfl⟩
          rw [List.length_take] at hlen
          omega
      · next hle =>
          simp only [Except.ok.injEq]
          constructor
          · rintro rfl
            exact ⟨List.length_take_of_le (by omega), rfl⟩
          · rintro ⟨-, rfl⟩
            rfl

/-- Every way of making an array begins alike: the dimensions are checked, and
no dimensions give the empty array whatever else is asked. -/
theorem shaped_eq_ok_iff {rest : Except ArrayError NdArray} {a : NdArray} :
    (checkDimensions dims lbounds >>= fun _ =>
        if dims.isEmpty = true then pure (empty tag) else rest) = .ok a ↔
      dims = [] ∧ lbounds = [] ∧ a = empty tag ∨
      dims ≠ [] ∧ checkDimensions dims lbounds = .ok () ∧ rest = .ok a := by
  rw [bind_eq_ok_iff]
  cases dims with
  | nil =>
      simp only [List.isEmpty_nil, if_true]
      constructor
      · rintro ⟨⟨⟩, hcheck, h⟩
        obtain ⟨-, hlen⟩ := checkDimensions_eq_ok_iff.mp hcheck
        exact .inl ⟨trivial, List.eq_nil_of_length_eq_zero hlen, (Except.ok.inj h).symm⟩
      · rintro (⟨-, rfl, rfl⟩ | ⟨hne, -⟩)
        · exact ⟨(), checkDimensions_eq_ok_iff.mpr ⟨Nat.zero_le _, rfl⟩, rfl⟩
        · contradiction
  | cons d ds =>
      simp only [List.isEmpty_cons, Bool.false_eq_true, if_false]
      constructor
      · rintro ⟨⟨⟩, hcheck, h⟩
        exact .inr ⟨List.cons_ne_nil d ds, hcheck, h⟩
      · rintro (⟨hnil, -⟩ | ⟨-, hcheck, h⟩)
        · contradiction
        · exact ⟨(), hcheck, h⟩

/-! ## from elements -/

/-- **Making an array of elements**: it succeeds exactly when the shape can be
counted, elements and flags cover it, and the measure of the present elements
stays within the ceiling; and then the data is the blocks of the present
elements. -/
theorem ofElements_eq_ok_iff {elems : List Scalar} {nulls : Option (List Bool)} {l : Layout}
    {a : NdArray} :
    ofElements elems nulls dims lbounds tag l = .ok a ↔
      dims = [] ∧ lbounds = [] ∧ a = empty tag ∨
      dims ≠ [] ∧ checkDimensions dims lbounds = .ok () ∧ ∃ n flags size,
        itemCount dims = .ok n ∧ n ≤ elems.length ∧ nullFlags n nulls = .ok flags ∧
        l.checkNominal n = .ok () ∧
        l.measureFrom 0 (presentElements (elems.take n) flags) = .ok size ∧
        a = assemble tag dims lbounds flags
          ((presentElements (elems.take n) flags).flatMap l.block) := by
  have hassemble : ∀ (flags : List Bool) (data : List UInt8),
      (if flags.any id = true then
        pure { tag, dims, lbounds, data,
               ndim := Int32.ofNat dims.length,
               dataOffset := Int32.ofNat (nullableHeaderSize dims.length flags.length),
               nulls := some (NullBitmap.ofNulls flags) }
      else
        pure { tag, dims, lbounds, data, ndim := Int32.ofNat dims.length, dataOffset := 0,
               nulls := none } :
        Except ArrayError NdArray) = .ok (assemble tag dims lbounds flags data) := by
    intro flags data
    unfold assemble
    split <;> rfl
  rw [ofElements, shaped_eq_ok_iff]
  simp only [bind_eq_ok_iff, refuse_eq_ok_iff, packData_eq, map_eq_ok_iff]
  refine or_congr_right (and_congr_right fun _ => and_congr_right fun _ => ?_)
  constructor
  · rintro ⟨n, hn, hlen, flags, hflags, ⟨⟩, hnominal, _, ⟨size, hsize, rfl⟩, h⟩
    obtain ⟨rfl, -⟩ := nullFlags_eq_ok_iff.mp hflags
    rw [hassemble] at h
    exact ⟨_, flags, size, hn, Nat.le_of_not_lt hlen, hflags, hnominal, hsize,
      (Except.ok.inj h).symm⟩
  · rintro ⟨n, flags, size, hn, hlen, hflags, hnominal, hsize, rfl⟩
    obtain ⟨rfl, -⟩ := nullFlags_eq_ok_iff.mp hflags
    exact ⟨_, hn, Nat.not_lt.mpr hlen, flags, hflags, (), hnominal, _, ⟨size, hsize, rfl⟩,
      hassemble _ _⟩

/-! ## from zeros and from packed bytes -/

/-- **Making an array of zeros**: it succeeds exactly for numeric tags and
shapes whose size is within the ceiling. -/
theorem zeros_eq_ok_iff {l : Layout} {a : NdArray} :
    zeros dims lbounds tag l = .ok a ↔
      dims = [] ∧ lbounds = [] ∧ a = empty tag ∨
      dims ≠ [] ∧ checkDimensions dims lbounds = .ok () ∧ ∃ n,
        itemCount dims = .ok n ∧ tag.isNumeric = true ∧ (max l.len 2).toNat * n ≤ maxDataSize ∧
        a = assemble tag dims lbounds (List.replicate n false)
          (List.replicate ((max l.len 2).toNat * n) 0) := by
  rw [zeros, shaped_eq_ok_iff]
  simp only [bind_eq_ok_iff, refuse_eq_ok_iff]
  refine or_congr_right (and_congr_right fun _ => and_congr_right fun _ => ?_)
  constructor
  · rintro ⟨n, hn, hnum, hadmits, region, hregion, h⟩
    have hsize : (max l.len 2).toNat * n ≤ maxDataSize := by
      simpa [admits_iff] using hadmits
    rw [allocData_eq_ok hsize] at hregion
    obtain rfl := Except.ok.inj hregion
    refine ⟨n, hn, by simpa using hnum, hsize, ?_⟩
    rw [assemble_replicate, ← Region.bytes_zeros]
    exact (Except.ok.inj h).symm
  · rintro ⟨n, hn, hnum, hsize, rfl⟩
    refine ⟨n, hn, by simpa using hnum, by simpa [admits_iff] using hsize, _,
      allocData_eq_ok hsize, ?_⟩
    rw [assemble_replicate, Region.bytes_zeros]
    rfl

/-- **Making an array of packed bytes**: it succeeds exactly for fixed widths
and buffers that are long enough, and keeps the front of the buffer. -/
theorem ofPacked_eq_ok_iff {raw : List UInt8} {l : Layout} {a : NdArray} :
    ofPacked raw dims lbounds tag l = .ok a ↔
      dims = [] ∧ lbounds = [] ∧ a = empty tag ∨
      dims ≠ [] ∧ checkDimensions dims lbounds = .ok () ∧ ∃ n,
        itemCount dims = .ok n ∧ 0 < l.len ∧ l.len.toNat * n ≤ raw.length ∧
        l.len.toNat * n ≤ maxDataSize ∧
        a = assemble tag dims lbounds (List.replicate n false) (raw.take (l.len.toNat * n)) := by
  rw [ofPacked, shaped_eq_ok_iff]
  simp only [bind_eq_ok_iff, refuse_eq_ok_iff]
  refine or_congr_right (and_congr_right fun _ => and_congr_right fun _ => ?_)
  constructor
  · rintro ⟨hlen, n, hn, hraw, ⟨⟩, hreserve, h⟩
    refine ⟨n, hn, Int.not_le.mp hlen, Nat.le_of_not_lt hraw,
      reserveData_eq_ok_iff.mp hreserve, ?_⟩
    rw [assemble_replicate]
    exact (Except.ok.inj h).symm
  · rintro ⟨n, hn, hlen, hraw, hsize, rfl⟩
    refine ⟨Int.not_le.mpr hlen, n, hn, Nat.not_lt.mpr hraw, (), reserveData_eq_ok_iff.mpr hsize,
      ?_⟩
    rw [assemble_replicate]
    rfl

end NdArray

end PackedArray
