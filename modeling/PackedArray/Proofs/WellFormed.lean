import PackedArray.Proofs.Obtained

/-!
# PackedArray.Proofs.WellFormed

What holds of every array that can be obtained.

* `Obtained.wellFormed` — shape, bitmap and data offset agree, whatever the
  layouts;
* `Obtained.filled` — where numeric tags go with the layout of their kind,
  there is data for exactly the present items.
-/

namespace PackedArray

namespace NdArray

/-! ## invariants -/

/-- Shape, bitmap and data offset agree. -/
structure WellFormed (a : NdArray) : Prop extends Dimensioned a where
  length_lbounds : a.lbounds.length = a.dims.length
  itemCount_dims : itemCount a.dims = .ok a.size
  length_data : a.data.length ≤ maxDataSize
  data_of_ndim : a.ndim = 0 → a.data = []
  dataOffset_of_none : a.nulls = none → a.dataOffset = 0
  of_some : ∀ b, a.nulls = some b →
    a.ndim ≠ 0 ∧ b.Exact a.size ∧ a.dataOffset.toInt = nullableHeaderSize a.dims.length a.size

/-- Data of a numeric tag has room for exactly the present items. -/
def Filled (a : NdArray) : Prop :=
  ∀ k, a.tag.kind? = some k → a.data.length = a.nullMask.count false * k.itemSize

/-- Filled data has the length that the tag demands of the present items. -/
theorem filled_iff {a : NdArray} :
    a.Filled ↔ ∀ size, a.tag.dataSize? (a.nullMask.count false) = some size →
      size = a.data.length := by
  unfold Filled Tag.dataSize? Tag.layout?
  cases a.tag.kind? with
  | none => simp
  | some k =>
      constructor
      · rintro h size hsize
        rw [h k rfl]
        exact (Option.some.inj hsize).symm
      · rintro h k' hk
        obtain rfl := Option.some.inj hk
        exact (h _ rfl).symm

namespace WellFormed

variable {a : NdArray} (h : a.WellFormed)

include h

theorem exact {b : NullBitmap} (hb : a.nulls = some b) : b.Exact a.size := (h.of_some b hb).2.1

/-- The data offset tells whether there is a bitmap. -/
theorem hasNulls_eq : a.hasNulls = a.nulls.isSome := by
  unfold hasNulls
  cases hn : a.nulls with
  | none => simp [h.dataOffset_of_none hn]
  | some b =>
      obtain ⟨-, -, hoffset⟩ := h.of_some b hn
      have hle := le_nullableHeaderSize a.dims.length a.size
      have hne : a.dataOffset ≠ 0 := by
        intro hzero
        rw [hzero, Int32.toInt_zero] at hoffset
        unfold fixedHeaderSize at hle
        omega
      simpa using hne

end WellFormed

/-! ## by origin -/

variable {tag : Tag} {l : Layout} {a : NdArray} {buf : List UInt8}

theorem wellFormed_empty (tag : Tag) : (empty tag).WellFormed where
  ndim_eq := rfl
  length_dims_le := Nat.zero_le _
  length_lbounds := rfl
  itemCount_dims := rfl
  length_data := Nat.zero_le _
  data_of_ndim := fun _ => rfl
  dataOffset_of_none := fun _ => rfl
  of_some := fun b hb => by contradiction

theorem Assembled.wellFormed (h : Assembled l a) : a.WellFormed := by
  obtain ⟨hne, hcheck, hcount, hmax, -⟩ := h
  next tag dims lbounds flags data =>
    obtain ⟨hdim, hlen⟩ := checkDimensions_eq_ok_iff.mp hcheck
    have hdimensioned : (assemble tag dims lbounds flags data).Dimensioned :=
      dimensioned_assemble hcheck
    have hsize : (assemble tag dims lbounds flags data).size = flags.length :=
      size_assemble hcheck hcount
    have hndim : (assemble tag dims lbounds flags data).ndim ≠ 0 :=
      mt hdimensioned.ndim_eq_zero_iff.mp hne
    refine ⟨hdimensioned, hlen, ?_, hmax, ?_, ?_, ?_⟩
    · rw [hsize]
      exact hcount
    · intro hzero
      exact absurd hzero hndim
    · intro hnone
      unfold assemble at hnone ⊢
      cases hany : flags.any id <;> simp_all
    · intro b hb
      refine ⟨hndim, ?_⟩
      rw [hsize]
      unfold assemble at hb ⊢
      cases hany : flags.any id with
      | false => simp [hany] at hb
      | true =>
          simp only [hany, if_true, Option.some.injEq] at hb ⊢
          subst hb
          exact ⟨NullBitmap.exact_ofNulls flags,
            toInt_nullableHeaderSize hdim (itemCount_le hcount)⟩

/-- The decoder reads as many extents as it was told of dimensions. -/
theorem dimensioned_of_decode (h : decode buf = .ok a) : a.Dimensioned := by
  obtain ⟨header, n, nulls, start, hread, -, -, -, -, -, -, rfl⟩ := decode_eq_ok_iff.mp h
  obtain ⟨hdim, hdims, -⟩ := FlatHeader.read_eq_ok_iff.mp hread
  exact ⟨congrArg Int32.ofNat hdims.symm, hdims ▸ hdim⟩

/-- A decoded array is well-formed: the decoder has checked all of it. -/
theorem wellFormed_of_decode (h : decode buf = .ok a) : a.WellFormed := by
  have hdimensioned := dimensioned_of_decode h
  obtain ⟨header, n, nulls, start, hread, hcount, hplace, hle, hempty, -, hmax, rfl⟩ :=
    decode_eq_ok_iff.mp h
  obtain ⟨-, hdims, hlbounds, -⟩ := FlatHeader.read_eq_ok_iff.mp hread
  have hplace := FlatHeader.placement_eq_ok_iff.mp hplace
  have hsize := hdimensioned.size_of_itemCount hcount
  have hndim := hdimensioned.ndim_eq_zero_iff
  rw [← List.length_eq_zero_iff, hdims] at hndim
  refine ⟨hdimensioned, hlbounds.trans hdims.symm, ?_, ?_, ?_, ?_, ?_⟩
  · rw [hsize]
    exact hcount
  · rwa [List.length_drop]
  · intro hzero
    rw [hempty (hndim.mp hzero)]
    exact List.drop_length
  · rintro rfl
    obtain ⟨hoffset, -⟩ | ⟨-, -, -, -, b, hb, -⟩ := hplace
    · exact hoffset
    · contradiction
  · rintro b rfl
    rw [hsize]
    obtain ⟨-, hnone, -⟩ | ⟨-, hne, hoffset, rfl, b', hb, hbytes⟩ := hplace
    · contradiction
    · cases hb
      exact ⟨mt hndim.mp hne, (NullBitmap.ofBytes?_eq_some_iff.mp hbytes).2.1, hdims ▸ hoffset⟩

theorem filled_empty (tag : Tag) : (empty tag).Filled := by
  intro k _
  simp [empty, nullMask, size, isEmpty]

theorem Assembled.filled (h : Assembled l a) (hl : Tag.Admits a.tag l) : a.Filled := by
  intro k hk
  have hlayout := hl k hk
  obtain ⟨-, hcheck, hcount, -, hfill⟩ := h
  rw [nullMask_assemble hcheck hcount]
  exact hfill k hlayout

/-- The decoder has counted the present items of a numeric tag by the
bitmap. -/
theorem filled_of_decode (h : decode buf = .ok a) : a.Filled := by
  rw [filled_iff, ← presentCount_eq fun b => (wellFormed_of_decode h).exact]
  have hdimensioned := dimensioned_of_decode h
  obtain ⟨header, n, nulls, start, -, hcount, -, -, -, hsize, -, rfl⟩ := decode_eq_ok_iff.mp h
  rw [hdimensioned.size_of_itemCount hcount, List.length_drop]
  exact hsize

/-! ## whatever is obtained -/

namespace Obtained

variable {fits : Tag → Layout → Prop}

/-- **Arrays are well-formed**, whatever layouts their tags are used with. -/
theorem wellFormed (h : Obtained fits a) : a.WellFormed := by
  cases h.origin with
  | empty tag => exact wellFormed_empty tag
  | assembled _ hassembled => exact hassembled.wellFormed
  | decoded hdecode => exact wellFormed_of_decode hdecode

/-- **Arrays are filled**, where numeric tags go with the layout of their
kind. -/
theorem filled (h : Obtained Tag.Admits a) : a.Filled := by
  cases h.origin with
  | empty tag => exact filled_empty tag
  | assembled hl hassembled =>
      refine hassembled.filled (hl.elim id fun hlayout k hk => ?_)
      rw [Tag.layout?, hk] at hlayout
      exact (Option.some.inj hlayout).symm
  | decoded hdecode => exact filled_of_decode hdecode

end Obtained

end NdArray

end PackedArray
