import PackedArray.Proofs.ElementWise
import PackedArray.Proofs.NullFlag
import PackedArray.Proofs.Representation

/-!
# PackedArray.Proofs.Rebuilding

Numeric arrays, read and made again.

Reading an array of a numeric kind loses nothing: an element has all bytes of its item, there
is no padding between items and no byte behind them.  So what was read makes the same array
again, from whatever bytes it once was decoded.  The exception is an idle null flag, which the
elements do not show: the bitmap in which every item is present is not made again.

* `Layout.Packed.flatMap_block_eq` — the blocks of what data hold are the data;
* `NdArray.WellFormed.assemble_eq_iff` — shape, null flags and data determine an array;
* `NdArray.Obtained.ofElements_toElements` — reading an array and making it again.
-/

namespace PackedArray

/-! ## blocks of items that were read -/

variable {k : Kind}

/-- A numeric item that was unpacked is packed to the same bytes. -/
theorem Kind.block_of_unpack {image padding : List UInt8} {x : Scalar}
    (h : ∀ rest, k.layout.unpack (image ++ rest) = .ok (x, image.length))
    (hpad : image.length + padding.length = k.layout.align.pad image.length) :
    k.layout.block x = image ++ padding := by
  obtain ⟨hlen, rfl⟩ := image_of_unpack h
  have hpacked : k.layout.pack (k.layout.ofImage image) = .ok image := by
    have hle : image.length ≤ 8 := by
      have hwidth := k.len_layout_le
      omega
    rw [k.pack_eq_ok, ← hlen, Layout.lead_ofImage hle]
  rw [Layout.block_eq_of_pack hpacked, ← hpad, padding_eq_nil hlen hpad]
  simp

/-- The blocks of what data hold are the data. -/
theorem Layout.Packed.flatMap_block_eq {data : List UInt8} {items : List (Option Scalar)}
    (h : k.layout.Packed data items) :
    (presentElements (items.map (·.getD Scalar.zero)) (items.map Option.isNone)).flatMap
      k.layout.block = data := by
  induction h with
  | nil => rfl
  | null _ ih => exact ih
  | @present image padding data x items hunpack hpad _ ih =>
      rw [List.map_cons, List.map_cons, Option.getD_some, Option.isNone_some,
        presentElements_cons_false, List.flatMap_cons, ih, Kind.block_of_unpack hunpack hpad]

namespace NdArray

variable {a : NdArray}

/-! ## the bitmap -/

/-- The null flags of the items determine an exact bitmap. -/
theorem ofNulls_nullMask {b : NullBitmap} (hb : a.nulls = some b) (h : b.Exact a.size) :
    NullBitmap.ofNulls a.nullMask = b := by
  have hmask : a.nullMask = (List.range a.size).map fun i => !b.isPresent i :=
    List.map_congr_left fun i _ => by rw [isNullAt, hb]; rfl
  rw [hmask, ← NullBitmap.tabulate_eq_ofNulls]
  exact h.symm

/-- **Shape, null flags and data determine an array**, unless it has a bitmap in which every
item is present. -/
theorem WellFormed.assemble_eq_iff (h : a.WellFormed) :
    assemble a.tag a.dims a.lbounds a.nullMask a.data = a ↔ a.nulls = none ∨ a.HasNull := by
  have hany : a.nullMask.any id = true ↔ a.HasNull := by
    rw [hasNull_iff_mem_nullMask]
    simp
  cases hn : a.nulls with
  | none =>
      have hclear : ¬a.HasNull := h.not_hasNull (by rw [h.hasNulls_eq, hn]; rfl)
      have hoffset := h.dataOffset_of_none hn
      simp only [assemble, mt hany.mp hclear, true_or, iff_true]
      obtain ⟨tag, ndim, dims, lbounds, dataOffset, nulls, data⟩ := a
      obtain rfl : ndim = Int32.ofNat dims.length := h.ndim_eq
      subst hn hoffset
      rfl
  | some b =>
      obtain ⟨-, hexact, hoffset⟩ := h.of_some b hn
      have hsame : Int32.ofNat (nullableHeaderSize a.dims.length a.nullMask.length) =
          a.dataOffset := by
        rw [← Int32.toInt_inj, hoffset, length_nullMask]
        exact toInt_nullableHeaderSize h.length_dims_le (itemCount_le h.itemCount_dims)
      constructor
      · intro heq
        have hnulls := congrArg NdArray.nulls heq
        rw [hn, assemble] at hnulls
        cases hflag : a.nullMask.any id with
        | true => exact .inr (hany.mp hflag)
        | false => simp [hflag] at hnulls
      · rintro (hnone | hnull)
        · contradiction
        · rw [assemble, if_pos (hany.mpr hnull), if_pos (hany.mpr hnull), hsame,
            ofNulls_nullMask hn hexact, ← hn, ← h.ndim_eq]

/-! ## reading and making again -/

variable {items : List (Option Scalar)}

/-- The items of an array make it again, by shape, null flags and data. -/
theorem ofElements_of_holds (h : a.WellFormed) (hdim : a.ndim ≠ 0)
    (hholds : a.Holds k.layout items) :
    ofElements (items.map (·.getD Scalar.zero)) (some (items.map Option.isNone)) a.dims a.lbounds
      a.tag k.layout = .ok (assemble a.tag a.dims a.lbounds a.nullMask a.data) := by
  have hdata := hholds.packed.flatMap_block_eq
  rw [hholds.nulls] at hdata ⊢
  rw [h.ofElements_items k hdim hholds.nulls a.nullFlags_nullMask, hdata]

/-- **Reading an array and making it again**: however an array of a numeric kind was obtained,
what is read of it makes an array of the same tag, shape, nulls and data.  It is the same array,
unless that has a bitmap and no item is null. -/
theorem Obtained.ofElements_toElements (h : Obtained Tag.Admits a) (hk : a.tag.kind? = some k) :
    ∃ read b, a.toElements a.tag k.layout = .ok read ∧
      NdArray.ofElements read.elems (some read.nulls) a.dims a.lbounds a.tag k.layout = .ok b ∧
      b.tag = a.tag ∧ b.ndim = a.ndim ∧ b.dims = a.dims ∧ b.lbounds = a.lbounds ∧
      (∀ i < a.size, b.isNullAt i = a.isNullAt i) ∧ b.data = a.data ∧
      (b = a ↔ a.nulls = none ∨ a.HasNull) := by
  have hwf := h.wellFormed
  obtain ⟨items, hholds⟩ := h.filled.exists_holds hk
  refine ⟨_, assemble a.tag a.dims a.lbounds a.nullMask a.data, toElements_of_holds hholds, ?_,
    rfl, hwf.ndim_eq.symm, rfl, rfl, fun i hi => ?_, rfl, hwf.assemble_eq_iff⟩
  · by_cases hdim : a.ndim = 0
    · obtain ⟨tag, rfl⟩ : ∃ tag, a = .empty tag := ⟨a.tag, hwf.eq_empty hdim⟩
      exact ofElements_eq_ok_iff.mpr (.inl ⟨rfl, rfl, rfl⟩)
    · exact ofElements_of_holds hwf hdim hholds
  · have hflag := getElem?_nullMask hi
    rw [isNullAt_assemble (by rwa [length_nullMask])]
    exact (List.getElem?_eq_some_iff.mp hflag).2

/-- A signalling not-a-number beside a null, below a negative bound and behind a bitmap with
bits past the last item. -/
theorem ofElements_toElements_decoded :
    let l := Kind.float4.layout
    let buf := [144, 0, 0, 0, 1, 0, 0, 0, 32, 0, 0, 0, 4, 0, 0, 0, 2, 0, 0, 0, 251, 255, 255, 255,
      254, 0, 0, 0, 0, 0, 0, 0, 1, 0, 160, 127]
    let a := assemble Tag.float4 [2] [-5] [true, false] [1, 0, 160, 127]
    decode buf = .ok a ∧ a.tag.kind? = some .float4 ∧
      ∃ read b, a.toElements a.tag l = .ok read ∧
        ofElements read.elems (some read.nulls) a.dims a.lbounds a.tag l = .ok b ∧
        b.tag = a.tag ∧ b.ndim = a.ndim ∧ b.dims = a.dims ∧ b.lbounds = a.lbounds ∧
        (∀ i < a.size, b.isNullAt i = a.isNullAt i) ∧ b.data = a.data ∧
        (b = a ↔ a.nulls = none ∨ a.HasNull) := by
  intro l buf a
  have hdecode : decode buf = .ok a := by
    simp only [buf, a]
    exact eq_ok_of_toOption (by decide +kernel)
  have hk : a.tag.kind? = some .float4 := by decide
  exact ⟨hdecode, hk, (Obtained.decode hdecode).ofElements_toElements hk⟩

end NdArray

end PackedArray
