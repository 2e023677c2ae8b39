import PackedArray.Proofs.Decoding
import PackedArray.Proofs.Obtained

/-!
# PackedArray.Proofs.Grammar

Which bytes are flat forms.

`FlatForm.Grammatical` says it of the bytes alone, by the words that are read in
them and by the bits of the null bitmap; no array is spoken of.  The decoder
accepts these bytes and no others, and tells extents that cannot be counted from
everything else that can be wrong.

* `FlatForm.ndim_eq_numberAt`, `FlatForm.toInt_dataOffset`, `FlatForm.toNat_code_tag`,
  `FlatForm.map_toInt_extents` — the words as the numbers of their bytes;
* `FlatHeader.read_eq_ok_iff_inOrder` — the words are read exactly when they are in order;
* `NdArray.decode_by_grammar` — what becomes of any bytes.
-/

namespace PackedArray

/-! ## the grammar -/

namespace FlatForm

/-- The number of dimensions that the bytes tell of. -/
def ndim (buf : List UInt8) : Nat := (wordAt buf 4).toNat

/-- The data offset that the bytes tell of. -/
def dataOffset (buf : List UInt8) : Int32 := (wordAt buf 8).toInt32

def tag (buf : List UInt8) : Tag := ⟨wordAt buf 12⟩

/-- The extents that the bytes tell of. -/
def extents (buf : List UInt8) : List Int32 := FlatHeader.signedWords buf 16 (ndim buf)

/-- Where the null bitmap or, without one, the data starts: behind the words. -/
def wordsEnd (buf : List UInt8) : Nat := 16 + 8 * ndim buf

theorem ndim_eq_numberAt (buf : List UInt8) : ndim buf = numberAt buf 4 :=
  toNat_wordAt_eq_numberAt buf 4

theorem toNat_code_tag (buf : List UInt8) : (tag buf).code.toNat = numberAt buf 12 :=
  toNat_wordAt_eq_numberAt buf 12

/-- A signed word in figures. -/
theorem toInt_toInt32_wordAt (buf : List UInt8) (pos : Nat) :
    (wordAt buf pos).toInt32.toInt = (numberAt buf pos : Int).bmod 0x100000000 := by
  rw [← toNat_wordAt_eq_numberAt]
  exact BitVec.toInt_eq_toNat_bmod (wordAt buf pos).toBitVec

theorem toInt_dataOffset (buf : List UInt8) :
    (dataOffset buf).toInt = (numberAt buf 8 : Int).bmod 0x100000000 :=
  toInt_toInt32_wordAt buf 8

theorem map_toInt_extents (buf : List UInt8) :
    (extents buf).map Int32.toInt = (List.range (ndim buf)).map fun i =>
      (numberAt buf (16 + 4 * i) : Int).bmod 0x100000000 := by
  rw [extents, FlatHeader.signedWords, List.map_map]
  exact List.map_congr_left fun i _ => toInt_toInt32_wordAt buf (16 + 4 * i)

/-- The words at the front are there, tell the length of the bytes, and tell of no
more dimensions than an array can have. -/
structure HeaderInOrder (buf : List UInt8) : Prop where
  fixed_le : 16 ≤ buf.length
  total : (wordAt buf 0).toNat / 4 = buf.length
  ndim_le : ndim buf ≤ 6
  words_le : wordsEnd buf ≤ buf.length

/-- The data of `n` items starts at byte `start`: behind the words, or behind a
null bitmap for `n` items, on the next boundary of eight bytes. -/
def StartsAt (buf : List UInt8) (n start : Nat) : Prop :=
  dataOffset buf = 0 ∧ start = wordsEnd buf ∨
  ndim buf ≠ 0 ∧ (dataOffset buf).toInt = start ∧
    start = (wordsEnd buf + (n + 7) / 8 + 7) / 8 * 8

/-- How many of `n` items the null bitmap marks null. -/
def nullCount (buf : List UInt8) (n : Nat) : Nat :=
  if dataOffset buf = 0 then 0
  else (List.range n).countP fun i => !bitAt buf (8 * wordsEnd buf + i)

/-- The null bitmap over `n` items, if the bytes have one. -/
def bitmap? (buf : List UInt8) (n : Nat) : Option NullBitmap :=
  if dataOffset buf = 0 then none
  else some (.tabulate n fun i => bitAt buf (8 * wordsEnd buf + i))

theorem presentCount_bitmap? (buf : List UInt8) (n : Nat) :
    presentCount n (bitmap? buf n) = n - nullCount buf n := by
  unfold bitmap? nullCount
  by_cases hzero : dataOffset buf = 0
  · rw [if_pos hzero, if_pos hzero]
    rfl
  · rw [if_neg hzero, if_neg hzero, presentCount, NullBitmap.countNulls_tabulate]

/-- The bytes are a flat form of `n` items with data from byte `start` on. -/
structure Grammatical (buf : List UInt8) (n start : Nat) : Prop where
  header : HeaderInOrder buf
  count : IsItemCount (extents buf) n
  startsAt : StartsAt buf n start
  start_le : start ≤ buf.length
  bare : ndim buf = 0 → buf.length = 16
  data : ∀ l, (tag buf).layout? = some l →
    buf.length - start = (n - nullCount buf n) * l.len.toNat

end FlatForm

open FlatForm
open NullBitmap (tabulate tabulate_congr ofBytes?)

variable {buf : List UInt8} {n start : Nat}

/-! ## the words -/

namespace FlatHeader

/-- What the words say, if they are in order. -/
def ofWords (buf : List UInt8) : FlatHeader where
  ndim := FlatForm.ndim buf
  dataOffset := FlatForm.dataOffset buf
  tag := FlatForm.tag buf
  dims := extents buf
  lbounds := signedWords buf (16 + 4 * FlatForm.ndim buf) (FlatForm.ndim buf)

@[simp] theorem ndim_ofWords (buf : List UInt8) : (ofWords buf).ndim = FlatForm.ndim buf := rfl

/-- Words that are in order are read. -/
theorem read_eq (h : HeaderInOrder buf) : read buf = .ok (ofWords buf) := by
  have hmax : ¬maxDimensions < (wordAt buf 4).toNat := Nat.not_lt.mpr h.ndim_le
  have hroom : ¬buf.length < fixedHeaderSize + 8 * (wordAt buf 4).toNat :=
    Nat.not_lt.mpr h.words_le
  have hfixed : ¬buf.length < fixedHeaderSize := Nat.not_lt.mpr h.fixed_le
  unfold read
  simp only [hfixed, h.total, hmax, hroom, if_false, ne_eq, not_true_eq_false]
  rfl

/-- Words that are out of order are malformed. -/
theorem read_eq_malformed (h : ¬HeaderInOrder buf) : ∃ d, read buf = .error (.malformed d) := by
  unfold read
  simp only
  split
  · exact ⟨_, rfl⟩
  · split
    · exact ⟨_, rfl⟩
    · split
      · exact ⟨_, rfl⟩
      · split
        · exact ⟨_, rfl⟩
        · next hfixed htotal hmax hroom =>
            exact absurd ⟨Nat.le_of_not_lt hfixed, Decidable.not_not.mp htotal,
              Nat.le_of_not_lt hmax, Nat.le_of_not_lt hroom⟩ h

theorem read_eq_ok_iff_inOrder {h : FlatHeader} :
    read buf = .ok h ↔ HeaderInOrder buf ∧ h = ofWords buf := by
  by_cases horder : HeaderInOrder buf
  · simp [read_eq horder, horder, eq_comm]
  · obtain ⟨d, hd⟩ := read_eq_malformed horder
    simp [hd, horder]

/-! ## the place of the data -/

theorem placement_ofWords_failsOnly (buf : List UInt8) (n : Nat) :
    FailsOnly (fun e => ∃ d, e = .malformed d) ((ofWords buf).placement buf n) := by
  unfold placement
  simp only
  split
  · exact .ok _
  · split
    · exact .error ⟨_, rfl⟩
    · split
      · exact .error ⟨_, rfl⟩
      · exact .ok _

/-- In bytes that reach to it, the data is placed where the grammar has it. -/
theorem placement_ofWords_eq_ok_iff (hle : start ≤ buf.length) {nulls : Option NullBitmap} :
    (ofWords buf).placement buf n = .ok (nulls, start) ↔
      StartsAt buf n start ∧ nulls = bitmap? buf n := by
  have hend : fixedHeaderSize + 8 * FlatForm.ndim buf = wordsEnd buf := rfl
  have hoffset : (ofWords buf).dataOffset = FlatForm.dataOffset buf := rfl
  rw [placement_eq_ok_iff, ndim_ofWords, plainHeaderSize_eq, nullableHeaderSize_eq, hend, hoffset]
  unfold StartsAt bitmap?
  by_cases hzero : FlatForm.dataOffset buf = 0
  · rw [hzero, if_pos rfl]
    constructor
    · rintro (⟨-, hnulls, hstart⟩ | ⟨hne, -⟩)
      · exact ⟨.inl ⟨rfl, hstart⟩, hnulls⟩
      · exact absurd rfl hne
    · rintro ⟨⟨-, hstart⟩ | ⟨-, hword, hstart⟩, hnulls⟩
      · exact .inl ⟨rfl, hnulls, hstart⟩
      · -- a bitmap is never in front of the words
        have hnone : start = 0 := Int.ofNat_eq_zero.mp hword.symm
        unfold wordsEnd at hstart
        omega
  · have hbitmap (hstart : start = (wordsEnd buf + (n + 7) / 8 + 7) / 8 * 8) :
        ofBytes? (buf.drop (wordsEnd buf)) n =
          some (tabulate n fun i => bitAt buf (8 * wordsEnd buf + i)) := by
      have hroom : bitmapSize n ≤ (buf.drop (wordsEnd buf)).length := by
        rw [List.length_drop, bitmapSize]
        omega
      rw [ofBytes?, if_pos hroom, tabulate_congr fun i _ => bitAt_drop buf _ i]
    rw [if_neg hzero]
    constructor
    · rintro (⟨hz, -⟩ | ⟨-, hdim, hword, hstart, b, rfl, hb⟩)
      · exact absurd hz hzero
      · exact ⟨.inr ⟨hdim, hword, hstart⟩, hb.symm.trans (hbitmap hstart)⟩
    · rintro ⟨⟨hz, -⟩ | ⟨hdim, hword, hstart⟩, rfl⟩
      · exact absurd hz hzero
      · exact .inr ⟨hzero, hdim, hword, hstart, _, rfl, hbitmap hstart⟩

end FlatHeader

/-- The table of numeric kinds demands a whole width of each present item. -/
theorem dataSize?_eq_some_iff {t : Tag} {present size : Nat} :
    t.dataSize? present = some size ↔
      ∃ l, t.layout? = some l ∧ size = present * l.len.toNat := by
  have hpad (l : Layout) (hl : t.layout? = some l) : l.align.pad l.len.toNat = l.len.toNat := by
    obtain ⟨k, -, rfl⟩ := Option.map_eq_some_iff.mp hl
    exact k.itemSize_eq
  unfold Tag.dataSize?
  rw [Option.map_eq_some_iff]
  constructor
  · rintro ⟨l, hl, rfl⟩
    exact ⟨l, hl, by rw [hpad l hl]⟩
  · rintro ⟨l, hl, rfl⟩
    exact ⟨l, hl, by rw [hpad l hl]⟩

/-- Bytes that tell their length are no more than an array can have. -/
theorem FlatForm.HeaderInOrder.length_le (h : HeaderInOrder buf) : buf.length ≤ maxDataSize := by
  have hlt := (wordAt buf 0).toNat_lt
  have htotal := h.total
  have hmax : maxDataSize = 0x3fffffff := rfl
  omega

/-- Without dimensions the data can only start behind the four words. -/
theorem FlatForm.StartsAt.eq_of_ndim (h : StartsAt buf n start) (hdim : ndim buf = 0) :
    start = 16 := by
  obtain ⟨-, rfl⟩ | ⟨hne, -⟩ := h
  · rw [wordsEnd, hdim]
  · exact absurd hdim hne

namespace NdArray

/-! ## what is decoded -/

/-- Some array is decoded from the bytes exactly when the grammar allows them. -/
theorem exists_decode_eq_ok_iff :
    (∃ a, decode buf = .ok a) ↔ ∃ n start, Grammatical buf n start := by
  simp only [decode_eq_ok_iff]
  constructor
  · rintro ⟨_, header, n, nulls, start, hread, hcount, hplace, hle, hbare, hdata, -⟩
    obtain ⟨hheader, rfl⟩ := FlatHeader.read_eq_ok_iff_inOrder.mp hread
    obtain ⟨hstart, rfl⟩ := (FlatHeader.placement_ofWords_eq_ok_iff hle).mp hplace
    refine ⟨n, start, hheader, itemCount_eq_ok_iff_isItemCount.mp hcount, hstart, hle, ?_, ?_⟩
    · intro hdim
      rw [← hbare (FlatHeader.ndim_ofWords buf ▸ hdim), hstart.eq_of_ndim hdim]
    · intro l hl
      rw [← presentCount_bitmap?]
      exact (hdata _ (dataSize?_eq_some_iff.mpr ⟨l, hl, rfl⟩)).symm
  · rintro ⟨n, start, h⟩
    refine ⟨_, FlatHeader.ofWords buf, n, bitmap? buf n, start, FlatHeader.read_eq h.header,
      itemCount_eq_ok_iff_isItemCount.mpr h.count,
      (FlatHeader.placement_ofWords_eq_ok_iff h.start_le).mpr ⟨h.startsAt, rfl⟩, h.start_le,
      ?_, ?_, ?_, rfl⟩
    · intro hdim
      rw [FlatHeader.ndim_ofWords] at hdim
      rw [h.bare hdim, h.startsAt.eq_of_ndim hdim]
    · intro size hsize
      obtain ⟨l, hl, rfl⟩ := dataSize?_eq_some_iff.mp hsize
      rw [h.data l hl, presentCount_bitmap?]
    · exact Nat.le_trans (Nat.sub_le _ _) h.header.length_le

/-! ## what is refused -/

/-- Bytes whose words are out of order are malformed. -/
theorem decode_eq_malformed (h : ¬HeaderInOrder buf) : ∃ d, decode buf = .error (.malformed d) := by
  obtain ⟨d, hd⟩ := FlatHeader.read_eq_malformed h
  exact ⟨d, by rw [decode, hd]; rfl⟩

/-- Extents that cannot be counted are refused for their size, before anything
is asked of the data. -/
theorem decode_eq_sizeExceeded (h : HeaderInOrder buf)
    (hcount : ¬∃ n, IsItemCount (extents buf) n) :
    decode buf = .error (.sizeExceeded maxItems) := by
  have hn : itemCount (FlatHeader.ofWords buf).dims = .error (.sizeExceeded maxItems) :=
    itemCount_eq_error_iff.mpr ⟨rfl, hcount⟩
  rw [decode, FlatHeader.read_eq h, ok_bind, hn]
  rfl

/-- Past that point everything that is wrong is malformed; storage is there for
what is left of the bytes. -/
theorem decode_failsOnly_malformed (h : HeaderInOrder buf) (hcount : IsItemCount (extents buf) n) :
    FailsOnly (fun e => ∃ d, e = .malformed d) (decode buf) := by
  have hn : itemCount (FlatHeader.ofWords buf).dims = .ok n :=
    itemCount_eq_ok_iff_isItemCount.mpr hcount
  have hreserve (start : Nat) : reserveData (buf.length - start) = .ok () :=
    reserveData_eq_ok_iff.mpr (Nat.le_trans (Nat.sub_le _ _) h.length_le)
  rw [decode, FlatHeader.read_eq h, ok_bind, hn, ok_bind]
  refine (FlatHeader.placement_ofWords_failsOnly buf n).bind fun ⟨nulls, start⟩ _ => ?_
  refine .refuse ⟨_, rfl⟩ fun _ => .refuse ⟨_, rfl⟩ fun _ => .refuse ⟨_, rfl⟩ fun _ => ?_
  rw [hreserve, ok_bind]
  exact .ok _

/-- **The grammar of the decoder**: bytes are accepted exactly when they are a
flat form; where only the extents stand in the way, because they cannot be
counted, the bytes are refused for their size; and all other bytes are malformed.
Storage is never what is missing. -/
theorem decode_by_grammar (buf : List UInt8) :
    ((∃ a, decode buf = .ok a) ↔ ∃ n start, Grammatical buf n start) ∧
    (decode buf = .error (.sizeExceeded maxItems) ↔
      HeaderInOrder buf ∧ ¬∃ n, IsItemCount (extents buf) n) ∧
    ((∃ d, decode buf = .error (.malformed d)) ↔
      (¬∃ n start, Grammatical buf n start) ∧
      ¬(HeaderInOrder buf ∧ ¬∃ n, IsItemCount (extents buf) n)) := by
  rw [← exists_decode_eq_ok_iff]
  refine ⟨.rfl, ?_⟩
  by_cases horder : HeaderInOrder buf
  · by_cases hcount : ∃ n, IsItemCount (extents buf) n
    · obtain ⟨n, hn⟩ := hcount
      have hfails := decode_failsOnly_malformed horder hn
      cases hdecode : decode buf with
      | ok a => simp [horder, Exists.intro n hn]
      | error e =>
          obtain ⟨d, rfl⟩ := hfails e hdecode
          simp [Exists.intro n hn]
    · have hdecode := decode_eq_sizeExceeded horder hcount
      simp [hdecode, horder, hcount]
  · obtain ⟨d, hdecode⟩ := decode_eq_malformed horder
    simp [hdecode, horder]

end NdArray

end PackedArray
