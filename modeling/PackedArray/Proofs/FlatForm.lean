import PackedArray.Proofs.WellFormed

/-!
# PackedArray.Proofs.FlatForm

Flat forms, and the round trip through them.

`NdArray.IsFlatForm a buf` says part by part that `buf` spells the array `a`,
canonically or not.  The decoder accepts nothing else
(`decode_eq_ok_iff_isFlatForm`) and the encoder writes nothing else
(`WellFormed.isFlatForm_flatForm`), so neither has to be looked into again.
-/

namespace PackedArray

namespace NdArray

/-! ## parts of a flat form -/

/-- What the words of a flat form of this array say. -/
def header (a : NdArray) : FlatHeader where
  ndim := a.ndim.toUInt32.toNat
  dataOffset := a.dataOffset
  tag := a.tag
  dims := a.dims
  lbounds := a.lbounds

@[simp] theorem dataOffset_header (a : NdArray) : a.header.dataOffset = a.dataOffset := rfl

/-- The bytes spell the array.  Nothing is said of the two low bits of the
length word, and of the bits and bytes between the last item of the bitmap and
the data. -/
structure IsFlatForm (a : NdArray) (buf : List UInt8) : Prop where
  length : buf.length = a.dataStart + a.data.length
  total : (wordAt buf 0).toNat / 4 = buf.length
  words : WordsAt buf 4 a.header.words
  bitmap : ∀ b, a.nulls = some b → ∀ i < a.size,
    bitAt (buf.drop (fixedHeaderSize + 8 * a.dims.length)) i = b.isPresent i
  data : buf.drop a.dataStart = a.data

/-- The header bytes that the shape and the bitmap of an array ask for. -/
def headerSize (a : NdArray) : Nat :=
  if a.nulls.isSome then nullableHeaderSize a.dims.length a.size else plainHeaderSize a.dims.length

variable {a : NdArray} {buf : List UInt8}

theorem WellFormed.ndim_header (h : a.WellFormed) : a.header.ndim = a.dims.length :=
  h.toNat_toUInt32_ndim

/-- The data offset, where it is used, is the header size. -/
theorem WellFormed.dataStart_eq (h : a.WellFormed) : a.dataStart = a.headerSize := by
  rw [dataStart, headerSize, h.hasNulls_eq]
  cases hn : a.nulls with
  | none => rfl
  | some b =>
      obtain ⟨-, -, hoffset⟩ := h.of_some b hn
      simp [hoffset]

theorem WellFormed.length_bitmapBytes (h : a.WellFormed) :
    a.bitmapBytes.length = if a.nulls.isSome then bitmapSize a.size else 0 := by
  unfold bitmapBytes
  cases hn : a.nulls with
  | none => rfl
  | some b => exact (h.exact hn).length_bytes

/-- The words and the bitmap fit in front of the data. -/
theorem WellFormed.le_headerSize (h : a.WellFormed) :
    fixedHeaderSize + 8 * a.dims.length + a.bitmapBytes.length ≤ a.headerSize := by
  rw [h.length_bitmapBytes, headerSize]
  split
  · exact le_nullableHeaderSize _ _
  · exact Nat.le_of_eq (plainHeaderSize_eq _).symm

theorem IsFlatForm.length_eq (h : a.IsFlatForm buf) (hwf : a.WellFormed) :
    buf.length = a.headerSize + a.data.length := by
  rw [h.length, hwf.dataStart_eq]

/-- What the length word tells, it can hold. -/
theorem IsFlatForm.length_le (h : a.IsFlatForm buf) : buf.length ≤ maxFlatSize := by
  have hlt := (wordAt buf 0).toNat_lt
  have htotal := h.total
  unfold maxFlatSize
  omega

/-- The data starts where the decoder has placed it. -/
theorem WellFormed.dataStart_of_placement (hwf : a.WellFormed) {n start : Nat}
    {nulls : Option NullBitmap} (h : a.header.placement buf n = .ok (nulls, start)) :
    start = a.dataStart := by
  rw [FlatHeader.placement_eq_ok_iff, dataOffset_header, hwf.ndim_header] at h
  unfold dataStart hasNulls
  obtain ⟨hzero, -, rfl⟩ | ⟨hne, -, hoffset, -⟩ := h
  · rw [hzero]
    rfl
  · rw [if_pos (bne_iff_ne.mpr hne), hoffset, Int.toNat_natCast]

/-- In bytes that reach to the data, the bitmap is found exactly when its bits
are there. -/
theorem WellFormed.placement_eq_ok_iff (h : a.WellFormed) (hle : a.dataStart ≤ buf.length) :
    a.header.placement buf a.size = .ok (a.nulls, a.dataStart) ↔
      ∀ b, a.nulls = some b → ∀ i < a.size,
        bitAt (buf.drop (fixedHeaderSize + 8 * a.dims.length)) i = b.isPresent i := by
  have hroom := h.le_headerSize
  rw [h.dataStart_eq] at hle
  rw [FlatHeader.placement_eq_ok_iff, dataOffset_header, h.ndim_header, h.dataStart_eq, headerSize]
  cases hn : a.nulls with
  | none => simp [h.dataOffset_of_none hn]
  | some b =>
      obtain ⟨hdim, hexact, hoffset⟩ := h.of_some b hn
      have hext : a.dims ≠ [] := mt h.ndim_eq_zero_iff.mpr hdim
      have hne : a.dataOffset ≠ 0 := by
        have hnulls := h.hasNulls_eq
        rw [hn] at hnulls
        exact bne_iff_ne.mp hnulls
      have hbytes : bitmapSize a.size ≤ buf.length - (fixedHeaderSize + 8 * a.dims.length) := by
        rw [h.length_bitmapBytes, hn, Option.isSome_some, if_pos rfl] at hroom
        omega
      simp [hne, hext, hoffset, NullBitmap.ofBytes?_eq_some_iff, hexact, hbytes]

/-- **What is decoded**: an array is decoded from the bytes that spell it, if
it is well-formed and filled, and from nothing else. -/
theorem decode_eq_ok_iff_isFlatForm :
    decode buf = .ok a ↔ a.WellFormed ∧ a.Filled ∧ a.IsFlatForm buf := by
  constructor
  · intro hdecode
    have hwf := wellFormed_of_decode hdecode
    refine ⟨hwf, filled_of_decode hdecode, ?_⟩
    obtain ⟨header, n, nulls, start, hread, hcount, hplace, hle, -, -, -, ha⟩ :=
      decode_eq_ok_iff.mp hdecode
    obtain ⟨-, hdims, -, -, htotal, hwords⟩ := FlatHeader.read_eq_ok_iff.mp hread
    obtain rfl : header = a.header := by
      subst ha
      exact FlatHeader.ext (hdims.symm.trans hwf.ndim_header.symm) rfl rfl rfl rfl
    obtain rfl : nulls = a.nulls := by rw [ha]
    obtain rfl : n = a.size := (hwf.size_of_itemCount hcount).symm
    obtain rfl := hwf.dataStart_of_placement hplace
    have hdata : buf.drop a.dataStart = a.data := (congrArg data ha).symm
    refine ⟨?_, htotal, hwords, (hwf.placement_eq_ok_iff hle).mp hplace, hdata⟩
    rw [← hdata, List.length_drop]
    omega
  · rintro ⟨hwf, hfilled, hform⟩
    have hlen := hform.length
    have hroom := hwf.le_headerSize
    rw [← hwf.dataStart_eq] at hroom
    have hle : a.dataStart ≤ buf.length := by omega
    refine decode_eq_ok_iff.mpr ⟨a.header, a.size, a.nulls, a.dataStart, ?_, hwf.itemCount_dims,
      (hwf.placement_eq_ok_iff hle).mpr hform.bitmap, hle, ?_, ?_, ?_, ?_⟩
    · refine FlatHeader.read_eq_ok_iff.mpr
        ⟨?_, hwf.ndim_header.symm, ?_, ?_, hform.total, hform.words⟩
      · rw [hwf.ndim_header]
        exact hwf.length_dims_le
      · rw [hwf.ndim_header]
        exact hwf.length_lbounds
      · rw [hwf.ndim_header]
        omega
    · intro hzero
      rw [hwf.ndim_header, List.length_eq_zero_iff] at hzero
      rw [hlen, hwf.data_of_ndim (hwf.ndim_eq_zero_iff.mpr hzero)]
      rfl
    · rw [hlen, Nat.add_sub_cancel_left, presentCount_eq fun b => hwf.exact]
      exact filled_iff.mp hfilled
    · rw [hlen, Nat.add_sub_cancel_left]
      exact hwf.length_data
    · rw [hform.data, hwf.ndim_header, ← hwf.ndim_eq]
      rfl

/-! ## what is encoded -/

/-- The flat form of an array with zeros wherever nothing is said. -/
def flatForm (a : NdArray) : List UInt8 :=
  leBytes 4 (4 * (a.headerSize + a.data.length)) ++ (wordBytes a.header.words ++
    (a.bitmapBytes ++ (List.replicate
      (a.headerSize - (fixedHeaderSize + 8 * a.dims.length + a.bitmapBytes.length)) 0 ++ a.data)))

theorem headerWords_eq (a : NdArray) (total : Nat) :
    a.headerWords total = leBytes 4 (4 * total) ++ wordBytes a.header.words := by
  rw [headerWords, wordBytes, FlatHeader.words, List.flatMap_cons, List.flatMap_cons,
    List.flatMap_cons, List.flatMap_append, List.flatMap_map, List.flatMap_map]
  simp [header]

theorem WellFormed.length_words (h : a.WellFormed) :
    4 + 4 * a.header.words.length = fixedHeaderSize + 8 * a.dims.length := by
  have hlen : 4 * a.header.words.length + 4 = fixedHeaderSize + 8 * a.header.ndim :=
    FlatHeader.length_words h.ndim_header.symm (h.length_lbounds.trans h.ndim_header.symm)
  rw [h.ndim_header] at hlen
  omega

/-- **What is encoded**: an array whose flat form is not too long for the length
word, as that form. -/
theorem WellFormed.encode_eq_ok_iff (h : a.WellFormed) {out : List UInt8} :
    a.encode = .ok out ↔ a.headerSize + a.data.length ≤ maxFlatSize ∧ out = a.flatForm := by
  have hle := h.le_headerSize
  have hwords := h.length_words
  have hform : fit a.headerSize (a.headerWords (a.headerSize + a.data.length) ++ a.bitmapBytes) ++
      a.data = a.flatForm := by
    have hlen : (a.headerWords (a.headerSize + a.data.length) ++ a.bitmapBytes).length =
        fixedHeaderSize + 8 * a.dims.length + a.bitmapBytes.length := by
      rw [a.headerWords_eq, List.length_append, List.length_append, length_leBytes,
        length_wordBytes, hwords]
    rw [fit, flatForm, hlen, List.take_of_length_le (by omega), a.headerWords_eq]
    simp only [List.append_assoc]
  unfold encode
  simp only [h.dataStart_eq, hform]
  split
  · next hlt => simp [Nat.not_le_of_lt hlt]
  · next hge => simp [Nat.le_of_not_lt hge, eq_comm]

theorem WellFormed.length_flatForm (h : a.WellFormed) :
    a.flatForm.length = a.headerSize + a.data.length := by
  have hle := h.le_headerSize
  have hwords := h.length_words
  unfold flatForm
  simp only [List.length_append, length_leBytes, length_wordBytes, List.length_replicate]
  omega

theorem take_words_flatForm (a : NdArray) :
    (a.flatForm.drop 4).take (4 * a.header.words.length) = wordBytes a.header.words := by
  rw [flatForm, List.drop_left' (length_leBytes _ _)]
  exact List.take_left' (length_wordBytes _)

/-- Past the words come the bitmap, zeros and the data. -/
theorem WellFormed.drop_words_flatForm (h : a.WellFormed) :
    a.flatForm.drop (fixedHeaderSize + 8 * a.dims.length) =
      a.bitmapBytes ++ (List.replicate
        (a.headerSize - (fixedHeaderSize + 8 * a.dims.length + a.bitmapBytes.length)) 0 ++
          a.data) := by
  rw [flatForm, ← h.length_words, ← List.append_assoc]
  refine List.drop_left' ?_
  rw [List.length_append, length_leBytes, length_wordBytes]

theorem WellFormed.drop_headerSize_flatForm (h : a.WellFormed) :
    a.flatForm.drop a.headerSize = a.data := by
  have hle := h.le_headerSize
  have hsplit : a.headerSize = fixedHeaderSize + 8 * a.dims.length +
      (a.headerSize - (fixedHeaderSize + 8 * a.dims.length)) := by omega
  rw [hsplit, ← List.drop_drop, h.drop_words_flatForm, ← List.append_assoc]
  refine List.drop_left' ?_
  rw [List.length_append, List.length_replicate]
  omega

/-- The length word of the flat form is four times its length. -/
theorem WellFormed.wordAt_flatForm (h : a.WellFormed)
    (hle : a.headerSize + a.data.length ≤ maxFlatSize) :
    (wordAt a.flatForm 0).toNat = 4 * (a.headerSize + a.data.length) := by
  have hroom := h.le_headerSize
  have hlen := h.length_flatForm
  have htotal : (UInt32.ofNat (4 * (a.headerSize + a.data.length))).toNat =
      4 * (a.headerSize + a.data.length) :=
    UInt32.toNat_ofNat_of_lt' (Nat.lt_of_le_of_lt (Nat.mul_le_mul_left 4 hle) (by decide))
  have hword : wordAt a.flatForm 0 = UInt32.ofNat (4 * (a.headerSize + a.data.length)) := by
    refine (take_drop_eq_leBytes_iff (by unfold fixedHeaderSize at hroom; omega)).mp ?_
    rw [htotal, List.drop_zero]
    exact List.take_left' (length_leBytes _ _)
  rw [hword, htotal]

/-- The encoder spells the array. -/
theorem WellFormed.isFlatForm_flatForm (h : a.WellFormed)
    (hle : a.headerSize + a.data.length ≤ maxFlatSize) : a.IsFlatForm a.flatForm := by
  have hroom := h.le_headerSize
  have hwords := h.length_words
  have hlen := h.length_flatForm
  refine ⟨?_, ?_, ?_, ?_, ?_⟩
  · rw [hlen, h.dataStart_eq]
  · rw [h.wordAt_flatForm hle, hlen]
    omega
  · exact (take_drop_eq_wordBytes_iff (by omega)).mp a.take_words_flatForm
  · intro b hb i hi
    have hexact := h.exact hb
    have hbits : i < 8 * b.bytes.length := by
      rw [hexact.length_bytes]
      exact Nat.lt_of_lt_of_le hi (le_bitmapSize _)
    rw [h.drop_words_flatForm, bitmapBytes, hb, bitAt_append_left _ _ hbits, hexact.bitAt_bytes]
  · rw [h.dataStart_eq]
    exact h.drop_headerSize_flatForm

/-- **Round trip through the flat form**: arrays are encoded exactly when
header and data are not too long for the length word, and decoding gives back
the array, field by field. -/
theorem decode_encode (h : Obtained Tag.Admits a) :
    ((∃ out, a.encode = .ok out) ↔ a.headerSize + a.data.length ≤ maxFlatSize) ∧
      ∀ out, a.encode = .ok out → decode out = .ok a := by
  have hwf := h.wellFormed
  constructor
  · simp [hwf.encode_eq_ok_iff]
  · intro out hout
    obtain ⟨hle, rfl⟩ := hwf.encode_eq_ok_iff.mp hout
    exact decode_eq_ok_iff_isFlatForm.mpr ⟨hwf, h.filled, hwf.isFlatForm_flatForm hle⟩

/-- A text and a null, from lower bound minus one on. -/
theorem decode_encode_text :
    let a := assemble Tag.text [2] [-1] [false, true] [24, 0, 0, 0, 97, 98, 0, 0]
    let out := [160, 0, 0, 0, 1, 0, 0, 0, 32, 0, 0, 0, 25, 0, 0, 0, 2, 0, 0, 0, 255, 255, 255, 255,
      1, 0, 0, 0, 0, 0, 0, 0, 24, 0, 0, 0, 97, 98, 0, 0]
    Obtained Tag.Admits a ∧ a.encode = .ok out ∧ a.headerSize + a.data.length ≤ maxFlatSize ∧
      decode out = .ok a := by
  intro a out
  have hmade : ofElements [.ref [97, 98], .word 5] (some [false, true]) [2] [-1] Tag.text
      ⟨-1, false, .int⟩ = .ok a := by rfl
  have h : Obtained Tag.Admits a := .ofElements (fun k hk => by contradiction) hmade
  have hout : a.encode = .ok out := by
    simp only [a, out]
    rfl
  exact ⟨h, hout, (decode_encode h).1.mp ⟨out, hout⟩, (decode_encode h).2 out hout⟩

end NdArray

end PackedArray
