import PackedArray.Proofs.WellFormed

/-!
# PackedArray.Proofs.Representation

What the fields of an array tell of each other, however it was obtained.

Counts and offsets are stored in machine words, and nothing checks them again
once an array is made: the product of the extents is taken without a check, and
the data offset goes through a signed word.  `NdArray.Sound` says that neither
can go wrong.

* `NdArray.sound_of_wellFormed` — what every maker and the decoder establish is enough;
* `NdArray.Obtained.sound` — the fields of whatever is obtained agree.
-/

namespace PackedArray

namespace NdArray

variable {a : NdArray}

/-- The product of the extents as machine words give it, which widen an extent
with its sign, wrap, and check nothing. -/
def wordSize (a : NdArray) : UInt64 :=
  if a.isEmpty then 0 else a.dims.foldl (fun n d => n * UInt64.ofInt d.toInt) 1

/-- The fields of an array agree, and the words that carry them cut nothing
off. -/
structure Sound (a : NdArray) : Prop where
  /-- Each of at most six dimensions has an extent and a lower bound. -/
  dimensions : a.ndim.toInt = a.dims.length ∧ a.lbounds.length = a.dims.length ∧ a.dims.length ≤ 6
  /-- The extents can be counted. -/
  itemCount_dims : itemCount a.dims = .ok a.size
  toInt_nonneg : ∀ d ∈ a.dims, 0 ≤ d.toInt
  /-- No product on the way to the count leaves a signed 32-bit word. -/
  extentProduct_take_lt : ∀ k, extentProduct (a.dims.take k) < 0x80000000
  /-- Machine words give the count without a check. -/
  toNat_wordSize : a.wordSize.toNat = a.size
  dataOffset_eq_zero_iff : a.dataOffset = 0 ↔ a.nulls = none
  /-- The signed word of the data offset carries the size of the header. -/
  toInt_dataOffset : a.nulls ≠ none → a.dataOffset.toInt = nullableHeaderSize a.dims.length a.size
  /-- A bitmap covers the items, in as few bytes as that takes, and has no
  other bits set. -/
  bitmap : ∀ b, a.nulls = some b → b.len = a.size ∧ b.bytes.length = (a.size + 7) / 8 ∧
    ∀ i, a.size ≤ i → bitAt b.bytes i = false
  length_data_le : a.data.length ≤ 0x3fffffff
  /-- Without dimensions there is nothing but the tag. -/
  eq_empty : a.ndim = 0 → a = empty a.tag

/-- An array of no dimensions is the empty one of its tag. -/
theorem WellFormed.eq_empty (h : a.WellFormed) (hzero : a.ndim = 0) : a = empty a.tag := by
  have hnulls : a.nulls = none := by
    cases hn : a.nulls with
    | none => rfl
    | some b => exact absurd hzero (h.of_some b hn).1
  have hdims : a.dims = [] := h.ndim_eq_zero_iff.mp hzero
  have hlbounds : a.lbounds = [] :=
    List.eq_nil_of_length_eq_zero (h.length_lbounds.trans (congrArg List.length hdims))
  have hoffset := h.dataOffset_of_none hnulls
  have hdata := h.data_of_ndim hzero
  obtain ⟨tag, ndim, dims, lbounds, dataOffset, nulls, data⟩ := a
  subst hzero hdims hlbounds hoffset hnulls hdata
  rfl

theorem WellFormed.dataOffset_eq_zero_iff (h : a.WellFormed) :
    a.dataOffset = 0 ↔ a.nulls = none := by
  have hflag := h.hasNulls_eq
  unfold hasNulls at hflag
  rw [← Option.not_isSome_iff_eq_none, ← hflag]
  simp

/-- Extents that were counted once need no check again. -/
theorem WellFormed.toNat_wordSize (h : a.WellFormed) : a.wordSize.toNat = a.size := by
  unfold wordSize
  obtain ⟨hd, hsize⟩ | ⟨hd, hproduct, hle⟩ := itemCount_eq_ok_iff.mp h.itemCount_dims
  · rw [if_pos (h.isEmpty_iff.mpr hd), hsize]
    rfl
  · have hlt : a.size < UInt64.size := Nat.lt_of_le_of_lt hle (by decide)
    have hwords := foldl_mul_of_productFrom hproduct
    rw [if_neg (mt h.isEmpty_iff.mp hd)]
    exact (congrArg UInt64.toNat hwords).trans (UInt64.toNat_ofNat_of_lt' hlt)

theorem sound_of_wellFormed (h : a.WellFormed) : a.Sound where
  dimensions := ⟨h.toInt_ndim, h.length_lbounds, h.length_dims_le⟩
  itemCount_dims := h.itemCount_dims
  toInt_nonneg := toInt_nonneg_of_itemCount h.itemCount_dims
  extentProduct_take_lt := fun k =>
    Nat.lt_succ_of_le (extentProduct_take_le h.itemCount_dims k)
  toNat_wordSize := h.toNat_wordSize
  dataOffset_eq_zero_iff := h.dataOffset_eq_zero_iff
  toInt_dataOffset := fun hsome => by
    obtain ⟨b, hb⟩ := Option.ne_none_iff_exists'.mp hsome
    exact (h.of_some b hb).2.2
  bitmap := fun b hb =>
    ⟨(h.exact hb).len_eq, (h.exact hb).length_bytes, fun i hi => (h.exact hb).bitAt_eq_false hi⟩
  length_data_le := h.length_data
  eq_empty := h.eq_empty

/-- **Fields agree**: whatever is done to obtain an array, and whatever layouts
tags are used with, its fields agree and the words that carry them cut nothing
off. -/
theorem Obtained.sound {fits : Tag → Layout → Prop} (h : Obtained fits a) : a.Sound :=
  sound_of_wellFormed h.wellFormed

/-- Nine texts under a tag of integers, one of them null, in two dimensions. -/
theorem sound_mismatched :
    let elems := List.replicate 9 (.ref [97])
    let flags := [false, false, false, false, false, false, false, false, true]
    let a := assemble Tag.int4 [3, 3] [1, -1] flags
      (List.replicate 8 [20, 0, 0, 0, 97, 0, 0, 0]).flatten
    ofElements elems (some flags) [3, 3] [1, -1] Tag.int4 ⟨-1, false, .int⟩ = .ok a ∧
      a.Sound ∧ a.dataOffset = 40 := by
  intro elems flags a
  have hmade :
      ofElements elems (some flags) [3, 3] [1, -1] Tag.int4 ⟨-1, false, .int⟩ = .ok a := by
    simp only [elems, flags, a]
    rfl
  have h : Obtained (fun _ _ => True) a := .ofElements trivial hmade
  exact ⟨hmade, h.sound, by decide⟩

end NdArray

end PackedArray
