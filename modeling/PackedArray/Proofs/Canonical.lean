import PackedArray.Proofs.FlatForm

/-!
# PackedArray.Proofs.Canonical

Which bits of a flat form the decoder overlooks, and what encoding makes of
them.

`NdArray.Ignores` lists their positions.  Outside of them flat forms of one
array agree bit by bit (`bitAt_flatForm`), and bytes that agree with a flat
form there are one as well (`IsFlatForm.congr`); the encoder writes zeros.
-/

namespace PackedArray

namespace NdArray

/-! ## overlooked bits -/

/-- The decoder overlooks bit `j` of a flat form of the array: it is one of the
two low bits of the length word, or past the last item in the last byte of the
null bitmap, or in the padding between bitmap and data. -/
def Ignores (a : NdArray) (j : Nat) : Prop :=
  let bitmap := 8 * (fixedHeaderSize + 8 * a.dims.length)
  j < 2 ∨
  a.hasNulls = true ∧ bitmap + a.size ≤ j ∧ j < bitmap + 8 * bitmapSize a.size ∨
  a.hasNulls = true ∧ bitmap + 8 * bitmapSize a.size ≤ j ∧ j < 8 * a.dataStart

instance (a : NdArray) (j : Nat) : Decidable (a.Ignores j) :=
  inferInstanceAs (Decidable (_ ∨ _ ∨ _))

variable {a : NdArray} {buf buf' : List UInt8}

namespace WellFormed

variable {j : Nat}

/-- Without a bitmap only the length word is overlooked, else all between the
last item and the data as well. -/
theorem ignores_iff (h : a.WellFormed) :
    a.Ignores j ↔ j < 2 ∨ a.nulls.isSome = true ∧
      8 * (fixedHeaderSize + 8 * a.dims.length) + a.size ≤ j ∧ j < 8 * a.headerSize := by
  have hsize := le_bitmapSize a.size
  have hroom := h.le_headerSize
  rw [h.length_bitmapBytes] at hroom
  rw [Ignores, h.hasNulls_eq, h.dataStart_eq]
  cases hn : a.nulls.isSome with
  | false => simp
  | true =>
      simp only [hn, if_true] at hroom
      simp only [true_and]
      omega

theorem ignores_lengthWord_iff (h : a.WellFormed) (hj : j < 32) : a.Ignores j ↔ j < 2 := by
  rw [h.ignores_iff]
  unfold fixedHeaderSize
  omega

theorem not_ignores_word (h : a.WellFormed) (hle : 32 ≤ j)
    (hlt : j < 8 * (fixedHeaderSize + 8 * a.dims.length)) : ¬a.Ignores j := by
  rw [h.ignores_iff]
  omega

theorem ignores_bitmap_iff (h : a.WellFormed) {b : NullBitmap} (hb : a.nulls = some b)
    (hlt : 8 * (fixedHeaderSize + 8 * a.dims.length) + j < 8 * a.headerSize) :
    a.Ignores (8 * (fixedHeaderSize + 8 * a.dims.length) + j) ↔ ¬j < a.size := by
  rw [h.ignores_iff, hb, Option.isSome_some, eq_self, true_and]
  unfold fixedHeaderSize at *
  omega

theorem not_ignores_data (h : a.WellFormed) (hle : 8 * a.headerSize ≤ j) : ¬a.Ignores j := by
  have hroom := h.le_headerSize
  rw [h.ignores_iff]
  unfold fixedHeaderSize at hroom
  omega

end WellFormed

/-! ## the canonical form -/

/-- The length word without its two low bits. -/
theorem bitAt_lengthWord (buf : List UInt8) {j : Nat} (hj : j < 32) :
    bitAt (leBytes 4 (4 * ((wordAt buf 0).toNat / 4))) j = (bitAt buf j && !decide (j < 2)) := by
  have hlt := (wordAt buf 0).toNat_lt
  have hword := testBit_wordAt buf 0 hj
  rw [Nat.mul_zero, Nat.zero_add] at hword
  rw [bitAt_eq_testBit, leNat_leBytes_of_lt (by omega), show (4 : Nat) = 2 ^ 2 from rfl,
    Nat.testBit_two_pow_mul, Nat.testBit_div_two_pow, ← hword]
  by_cases hlow : j < 2
  · simp [hlow, Nat.not_le_of_lt hlow]
  · simp [hlow, Nat.le_of_not_lt hlow]

/-- Between the words and the data the flat form has the bits of the items, and
zeros past the last one. -/
theorem IsFlatForm.bitAt_drop_words (hwf : a.WellFormed) (h : a.IsFlatForm buf) {b : NullBitmap}
    (hb : a.nulls = some b) {i : Nat}
    (hi : 8 * (fixedHeaderSize + 8 * a.dims.length) + i < 8 * a.headerSize) :
    bitAt (a.flatForm.drop (fixedHeaderSize + 8 * a.dims.length)) i =
      (decide (i < a.size) && bitAt (buf.drop (fixedHeaderSize + 8 * a.dims.length)) i) := by
  have hexact := hwf.exact hb
  have hbytes : a.bitmapBytes = b.bytes := by
    rw [bitmapBytes, hb]
  have hlen : 8 * bitmapSize a.size = 8 * b.bytes.length := by rw [hexact.length_bytes]
  have hsize := le_bitmapSize a.size
  rw [hwf.drop_words_flatForm, hbytes]
  by_cases hitem : i < a.size
  · rw [bitAt_append_left _ _ (by omega), hexact.bitAt_bytes, h.bitmap b hb i hitem,
      decide_eq_true hitem, Bool.true_and]
  rw [decide_eq_false hitem, Bool.false_and]
  by_cases hbits : i < 8 * b.bytes.length
  · rw [bitAt_append_left _ _ hbits, hexact.bitAt_bytes, NullBitmap.isPresent, hexact.len_eq,
      decide_eq_false hitem, Bool.false_and]
  · rw [← Nat.add_sub_cancel' (Nat.le_of_not_lt hbits), bitAt_append_right, bitAt_append_left,
      bitAt_replicate_zero]
    rw [List.length_replicate]
    omega

/-- **The canonical form**: whatever spells the array, spells it as its flat form
does, except that the flat form has zeros where the decoder looks away. -/
theorem IsFlatForm.bitAt_flatForm (hwf : a.WellFormed) (h : a.IsFlatForm buf) (j : Nat) :
    bitAt a.flatForm j = (bitAt buf j && !decide (a.Ignores j)) := by
  have hwords := hwf.length_words
  have hroom := hwf.le_headerSize
  have hlen := h.length_eq hwf
  -- the length word, the other words, the bitmap with its padding, the data
  by_cases hlength : j < 32
  · rw [decide_eq_decide.mpr (hwf.ignores_lengthWord_iff hlength),
      ← bitAt_lengthWord buf hlength, h.total, hlen]
    exact bitAt_append_left _ _ (by rwa [length_leBytes])
  by_cases hword : j < 8 * (fixedHeaderSize + 8 * a.dims.length)
  · have hsame := a.take_words_flatForm.trans
      ((take_drop_eq_wordBytes_iff (by omega)).mpr h.words).symm
    rw [decide_eq_false (hwf.not_ignores_word (Nat.le_of_not_lt hlength) hword), Bool.not_false,
      Bool.and_true]
    exact (take_drop_eq_iff (hwf.length_flatForm.trans hlen.symm)).mp hsame j (by omega) (by omega)
  by_cases hhead : j < 8 * a.headerSize
  · cases hn : a.nulls with
    | none =>
        rw [headerSize, hn, Option.isSome_none, if_neg Bool.false_ne_true, plainHeaderSize_eq]
          at hhead
        contradiction
    | some b =>
        obtain ⟨i, rfl⟩ := Nat.exists_eq_add_of_le (Nat.le_of_not_lt hword)
        rw [← bitAt_drop, h.bitAt_drop_words hwf hn hhead, bitAt_drop,
          decide_eq_decide.mpr (hwf.ignores_bitmap_iff hn hhead), decide_not, Bool.not_not,
          Bool.and_comm]
  · have hdata := Nat.le_of_not_lt hhead
    obtain ⟨i, rfl⟩ := Nat.exists_eq_add_of_le hdata
    rw [decide_eq_false (hwf.not_ignores_data hdata), Bool.not_false, Bool.and_true, ← bitAt_drop,
      ← bitAt_drop, hwf.drop_headerSize_flatForm, ← hwf.dataStart_eq, h.data]

/-- Words that agree but for their two low bits tell the same length. -/
theorem lengthWord_congr (hbits : ∀ j, 2 ≤ j → j < 32 → bitAt buf' j = bitAt buf j) :
    (wordAt buf' 0).toNat / 4 = (wordAt buf 0).toNat / 4 := by
  refine Nat.eq_of_testBit_eq fun i => ?_
  rw [show (4 : Nat) = 2 ^ 2 from rfl, Nat.testBit_div_two_pow, Nat.testBit_div_two_pow]
  by_cases hi : i + 2 < 32
  · rw [testBit_wordAt _ _ hi, testBit_wordAt _ _ hi]
    exact hbits _ (by omega) (by omega)
  · have hhigh : ∀ w : UInt32, w.toNat.testBit (i + 2) = false := fun w =>
      Nat.testBit_lt_two_pow (Nat.lt_of_lt_of_le w.toNat_lt
        (Nat.pow_le_pow_right (by decide) (Nat.le_of_not_lt hi)))
    rw [hhigh, hhigh]

/-- Bytes that agree with a flat form wherever the decoder looks are one as
well. -/
theorem IsFlatForm.congr (hwf : a.WellFormed) (h : a.IsFlatForm buf)
    (hlen : buf'.length = buf.length) (hbits : ∀ j, ¬a.Ignores j → bitAt buf' j = bitAt buf j) :
    a.IsFlatForm buf' := by
  have hwords := hwf.length_words
  have hroom := hwf.le_headerSize
  have hsize := h.length_eq hwf
  constructor
  case length => exact hlen.trans h.length
  case total =>
    rw [hlen, ← h.total]
    refine lengthWord_congr fun j hle hlt => hbits j ?_
    rw [hwf.ignores_lengthWord_iff hlt]
    omega
  case words =>
    rw [← take_drop_eq_wordBytes_iff (by omega),
      ← (take_drop_eq_wordBytes_iff (by omega)).mpr h.words]
    exact (take_drop_eq_iff hlen).mpr fun i hle hlt =>
      hbits i (hwf.not_ignores_word (by omega) (by omega))
  case bitmap =>
    intro b hb i hi
    have hspan := le_bitmapSize a.size
    rw [hwf.length_bitmapBytes, hb, Option.isSome_some, if_pos rfl] at hroom
    rw [← h.bitmap b hb i hi, bitAt_drop, bitAt_drop]
    refine hbits _ ?_
    rw [hwf.ignores_bitmap_iff hb (by omega)]
    omega
  case data =>
    rw [← h.data, hwf.dataStart_eq]
    refine eq_of_bitAt_eq (by simp [hlen]) fun i _ => ?_
    rw [bitAt_drop, bitAt_drop]
    exact hbits _ (hwf.not_ignores_data (Nat.le_add_right _ _))

/-- **Decoding and encoding again**: what is accepted can be encoded, at its own
length, and comes out with zeros at the overlooked bits and as it was
elsewhere.  So that decodes to the same array, and the bytes that do are those
that differ in overlooked bits alone. -/
theorem encode_of_decode (h : decode buf = .ok a) :
    ∃ out, a.encode = .ok out ∧ out.length = buf.length ∧
      (∀ j, bitAt out j = (bitAt buf j && !decide (a.Ignores j))) ∧
      decode out = .ok a ∧
      ∀ buf', decode buf' = .ok a ↔ buf'.length = buf.length ∧
        ∀ j, ¬a.Ignores j → bitAt buf' j = bitAt buf j := by
  obtain ⟨hwf, hfilled, hform⟩ := decode_eq_ok_iff_isFlatForm.mp h
  have hlen : a.headerSize + a.data.length = buf.length := (hform.length_eq hwf).symm
  have hle : a.headerSize + a.data.length ≤ maxFlatSize := hlen ▸ hform.length_le
  have hbits := hform.bitAt_flatForm hwf
  refine ⟨a.flatForm, hwf.encode_eq_ok_iff.mpr ⟨hle, rfl⟩, hwf.length_flatForm.trans hlen, hbits,
    decode_eq_ok_iff_isFlatForm.mpr ⟨hwf, hfilled, hwf.isFlatForm_flatForm hle⟩, fun buf' => ?_⟩
  constructor
  · intro h'
    obtain ⟨-, -, hform'⟩ := decode_eq_ok_iff_isFlatForm.mp h'
    refine ⟨hform'.length.trans hform.length.symm, fun j hj => ?_⟩
    have hsame := (hform'.bitAt_flatForm hwf j).symm.trans (hbits j)
    simpa [hj] using hsame
  · rintro ⟨hlen', hbits'⟩
    exact decode_eq_ok_iff_isFlatForm.mpr ⟨hwf, hfilled, hform.congr hwf hlen' hbits'⟩

/-- All overlooked bits are set in the bitmap byte and the padding of a null and
an integer, and in the length word. -/
theorem encode_of_decode_noisy :
    let a := assemble Tag.int4 [2] [1] [true, false] [7, 0, 0, 0]
    let buf := [147, 0, 0, 0, 1, 0, 0, 0, 32, 0, 0, 0, 2, 0, 0, 0, 2, 0, 0, 0, 1, 0, 0, 0,
      254, 255, 255, 255, 255, 255, 255, 255, 7, 0, 0, 0]
    decode buf = .ok a ∧ ∃ out, a.encode = .ok out ∧ out.length = buf.length ∧
      (∀ j, bitAt out j = (bitAt buf j && !decide (a.Ignores j))) ∧
      decode out = .ok a ∧
      ∀ buf', decode buf' = .ok a ↔ buf'.length = buf.length ∧
        ∀ j, ¬a.Ignores j → bitAt buf' j = bitAt buf j := by
  intro a buf
  have h : decode buf = .ok a := by
    simp only [buf, a]
    exact eq_ok_of_toOption (by decide +kernel)
  exact ⟨h, encode_of_decode h⟩

end NdArray

end PackedArray
