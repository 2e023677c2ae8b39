import PackedArray.NdArray.FlatForm
import PackedArray.Proofs.Bitmap
import PackedArray.Proofs.PackedData
import PackedArray.Proofs.Shape

/-!
# PackedArray.Proofs.Decoding

What the decoder has checked of a flat form that it accepts, one lemma for
each of its parts.

* `FlatHeader.read_eq_ok_iff` — the words at the front;
* `FlatHeader.placement_eq_ok_iff` — the null bitmap and the start of the data;
* `NdArray.decode_eq_ok_iff` — the whole form.
-/

namespace PackedArray

namespace FlatHeader

theorem toInt32_eq_iff {w : UInt32} {x : Int32} : w.toInt32 = x ↔ w = x.toUInt32 := by
  constructor
  · rintro rfl
    rfl
  · rintro rfl
    rfl

/-- The words of a header, after the one that tells the total length. -/
def words (h : FlatHeader) : List UInt32 :=
  UInt32.ofNat h.ndim :: h.dataOffset.toUInt32 :: h.tag.code ::
    (h.dims.map Int32.toUInt32 ++ h.lbounds.map Int32.toUInt32)

theorem length_words {h : FlatHeader} (hdims : h.dims.length = h.ndim)
    (hlbounds : h.lbounds.length = h.ndim) :
    4 * h.words.length + 4 = fixedHeaderSize + 8 * h.ndim := by
  unfold words fixedHeaderSize
  simp only [List.length_cons, List.length_append, List.length_map, hdims, hlbounds]
  omega

theorem length_signedWords (buf : List UInt8) (pos count : Nat) :
    (signedWords buf pos count).length = count := by
  simp [signedWords]

theorem signedWords_succ (buf : List UInt8) (pos count : Nat) :
    signedWords buf pos (count + 1) =
      (wordAt buf pos).toInt32 :: signedWords buf (pos + 4) count := by
  rw [signedWords, List.range_succ_eq_map, List.map_cons, List.map_map, List.cons.injEq]
  refine ⟨rfl, List.map_congr_left fun i _ => ?_⟩
  rw [Function.comp_apply, show pos + 4 * i.succ = pos + 4 + 4 * i by omega]

/-- Signed words are read where their bit patterns are. -/
theorem wordsAt_map_toUInt32_iff {buf : List UInt8} {pos : Nat} {xs : List Int32} :
    WordsAt buf pos (xs.map Int32.toUInt32) ↔ signedWords buf pos xs.length = xs := by
  induction xs generalizing pos with
  | nil => simp [WordsAt, signedWords]
  | cons x xs ih =>
      rw [List.map_cons, WordsAt, ih, List.length_cons, signedWords_succ, List.cons.injEq,
        toInt32_eq_iff]

/-- The words are read exactly when they are there, tell the length of the
buffer, and tell of no more dimensions than an array can have. -/
theorem read_eq_ok_iff {buf : List UInt8} {h : FlatHeader} :
    read buf = .ok h ↔
      h.ndim ≤ maxDimensions ∧ h.dims.length = h.ndim ∧ h.lbounds.length = h.ndim ∧
      fixedHeaderSize + 8 * h.ndim ≤ buf.length ∧ (wordAt buf 0).toNat / 4 = buf.length ∧
      WordsAt buf 4 h.words := by
  have hwords : WordsAt buf 4 h.words ↔ wordAt buf 4 = UInt32.ofNat h.ndim ∧
      (wordAt buf 8).toInt32 = h.dataOffset ∧ wordAt buf 12 = h.tag.code ∧
      signedWords buf 16 h.dims.length = h.dims ∧
      signedWords buf (16 + 4 * h.dims.length) h.lbounds.length = h.lbounds := by
    simp only [words, WordsAt, wordsAt_append, wordsAt_map_toUInt32_iff, List.length_map,
      toInt32_eq_iff]
  rw [hwords]
  unfold read fixedHeaderSize
  simp only
  constructor
  · intro hread
    split at hread
    · contradiction
    · split at hread
      · contradiction
      · split at hread
        · contradiction
        · split at hread
          · contradiction
          · next htotal hdim hroom =>
              cases hread
              simp only [length_signedWords, UInt32.ofNat_toNat]
              exact ⟨Nat.le_of_not_lt hdim, trivial, trivial, Nat.le_of_not_lt hroom,
                Decidable.not_not.mp htotal, trivial, trivial, trivial, trivial, trivial⟩
  · rintro ⟨hmax, hext, hlb, hroom, htotal, hndim, hoffset, htag, hdims, hlbounds⟩
    have hcount : (wordAt buf 4).toNat = h.ndim := by
      rw [hndim, UInt32.toNat_ofNat_of_lt']
      exact Nat.lt_of_le_of_lt hmax (by decide)
    rw [hcount, if_neg (by omega), if_neg (Decidable.not_not.mpr htotal), if_neg (by omega),
      if_neg (by omega), hoffset, htag]
    rw [hext] at hdims hlbounds
    rw [hlb] at hlbounds
    rw [hdims, hlbounds]

/-- Without a data offset there is no bitmap and the data follows the words.
Otherwise there are dimensions, the offset is what they demand, and the bitmap
is there. -/
theorem placement_eq_ok_iff {h : FlatHeader} {buf : List UInt8} {n start : Nat}
    {nulls : Option NullBitmap} :
    h.placement buf n = .ok (nulls, start) ↔
      h.dataOffset = 0 ∧ nulls = none ∧ start = plainHeaderSize h.ndim ∨
      h.dataOffset ≠ 0 ∧ h.ndim ≠ 0 ∧ h.dataOffset.toInt = start ∧
        start = nullableHeaderSize h.ndim n ∧ ∃ b, nulls = some b ∧
        NullBitmap.ofBytes? (buf.drop (fixedHeaderSize + 8 * h.ndim)) n = some b := by
  unfold placement
  by_cases hzero : h.dataOffset = 0
  · rw [if_pos hzero]
    simp [hzero, eq_comm (a := nulls), eq_comm (a := start)]
  · rw [if_neg hzero]
    by_cases hbad : h.ndim = 0 ∨ h.dataOffset.toInt ≠ nullableHeaderSize h.ndim n
    · simp only [hbad, if_true, reduceCtorEq, false_iff]
      rintro (⟨hz, -⟩ | ⟨-, hdim, hoffset, rfl, -⟩)
      · exact hzero hz
      · exact hbad.elim hdim (fun hne => hne hoffset)
    · simp only [hbad, if_false]
      obtain ⟨hdim, hoffset⟩ := not_or.mp hbad
      cases hb : NullBitmap.ofBytes? (buf.drop (fixedHeaderSize + 8 * h.ndim)) n with
      | none => simp [hzero]
      | some b =>
          simp only [Except.ok.injEq, Prod.mk.injEq]
          constructor
          · rintro ⟨rfl, rfl⟩
            exact .inr ⟨hzero, hdim, Decidable.not_not.mp hoffset, rfl, b, rfl, rfl⟩
          · rintro (⟨hz, -⟩ | ⟨-, -, -, rfl, b', rfl, hb'⟩)
            · exact absurd hz hzero
            · exact ⟨hb', rfl⟩

end FlatHeader

namespace NdArray

/-- **What decoding checks**: a flat form is accepted exactly when its words
are in order, its extents can be counted, the data has a place, no data comes
without dimensions, and data of a numeric tag has the length of its present
items. -/
theorem decode_eq_ok_iff {buf : List UInt8} {a : NdArray} :
    decode buf = .ok a ↔ ∃ header n nulls start,
      FlatHeader.read buf = .ok header ∧ itemCount header.dims = .ok n ∧
      header.placement buf n = .ok (nulls, start) ∧ start ≤ buf.length ∧
      (header.ndim = 0 → start = buf.length) ∧
      (∀ size, header.tag.dataSize? (presentCount n nulls) = some size →
        size = buf.length - start) ∧
      buf.length - start ≤ maxDataSize ∧
      a = { tag := header.tag, ndim := Int32.ofNat header.ndim, dims := header.dims,
            lbounds := header.lbounds, dataOffset := header.dataOffset, nulls,
            data := buf.drop start } := by
  unfold decode
  simp only [bind_eq_ok_iff, refuse_eq_ok_iff]
  constructor
  · rintro ⟨header, hread, n, hn, ⟨nulls, start⟩, hplace, hpast, hempty, hsize, ⟨⟩, hreserve, h⟩
    refine ⟨header, n, nulls, start, hread, hn, hplace, Nat.le_of_not_lt hpast, ?_, ?_,
      reserveData_eq_ok_iff.mp hreserve, (Except.ok.inj h).symm⟩
    · exact fun hdim => Decidable.byContradiction fun hne => hempty ⟨hdim, hne⟩
    · intro size hs
      simpa [hs] using hsize
  · rintro ⟨header, n, nulls, start, hread, hn, hplace, hle, hempty, hsize, hmax, rfl⟩
    refine ⟨header, hread, n, hn, (nulls, start), hplace, Nat.not_lt.mpr hle, ?_, ?_, (),
      reserveData_eq_ok_iff.mpr hmax, rfl⟩
    · rintro ⟨hdim, hne⟩
      exact hne (hempty hdim)
    · cases hs : header.tag.dataSize? (presentCount n nulls) with
      | none => simp
      | some size => simp [hsize size hs]

end NdArray

end PackedArray
