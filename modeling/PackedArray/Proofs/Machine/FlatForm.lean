import PackedArray.Proofs.FlatForm
import PackedArray.Proofs.Machine.Building
import PackedArray.Proofs.Machine.Reading

/-!
# PackedArray.Proofs.Machine.FlatForm

Writing and reading flat forms in machine words.

The encoder takes the data offset of an array as an unsigned word, so it needs the
array to be well-formed.  The decoder gets any bytes: it reads the words of the
header one after the other, and every difference that it takes is one that it has
checked or that an accepted bitmap bounds.

* `encode_eq` — writing;
* `readHeader_eq`, `placement_eq`, `checkSize_eq` — the parts of reading;
* `decode_eq` — reading.
-/

namespace PackedArray.Machine

variable {ε : Type}

/-! ## encoding -/

/-- Where the packed elements start; the data offset is taken as an unsigned word. -/
def dataStart (a : NdArray) : Run ε Nat :=
  if a.hasNulls then .ok (unsigned a.dataOffset) else plainHeaderSize a.dims.length

def encode (a : NdArray) : Run ArrayError (List UInt8) := do
  let start ← dataStart a
  let total ← word (start + a.data.length)
  if maxFlatSize < total then .error (.reported (.sizeExceeded maxFlatSize))
  else .ok (fit start (a.headerWords total ++ a.bitmapBytes) ++ a.data)

theorem dataStart_eq {a : NdArray} (h : a.WellFormed) :
    (dataStart a : Run ε Nat) = .ok a.dataStart := by
  unfold dataStart NdArray.dataStart
  rw [h.hasNulls_eq]
  cases hn : a.nulls with
  | none => exact plainHeaderSize_eq h.length_dims_le
  | some b =>
      obtain ⟨-, -, hoffset⟩ := h.of_some b hn
      have hlt := nullableHeaderSize_lt h.length_dims_le (itemCount_le h.itemCount_dims)
      rw [Option.isSome_some, if_pos rfl, if_pos rfl, (unsigned_eq_iff hlt).mpr hoffset, hoffset,
        Int.toNat_natCast]

theorem dataStart_lt {a : NdArray} (h : a.WellFormed) : a.dataStart < 0x80000000 := by
  have hdim := h.length_dims_le
  rw [h.dataStart_eq, NdArray.headerSize]
  split
  · exact nullableHeaderSize_lt hdim (itemCount_le h.itemCount_dims)
  · rw [PackedArray.plainHeaderSize_eq]
    unfold fixedHeaderSize
    unfold maxDimensions at hdim
    omega

/-- **Writing** a flat form never breaks off. -/
theorem encode_eq {a : NdArray} (h : a.WellFormed) : encode a = lift a.encode := by
  have hstart := dataStart_lt h
  have hdata := h.length_data
  have hmax : maxDataSize = 0x3fffffff := rfl
  rw [encode, dataStart_eq h, ok_bind, word_of_lt (by omega), ok_bind, NdArray.encode]
  split <;> rfl

/-! ## decoding -/

/-- The word at `pos`, taken byte by byte, and the position after it. -/
def readWord (buf : List UInt8) (pos : Nat) : Run ArrayError (UInt32 × Nat) := do
  let stop ← word (pos + 4)
  match slice? buf pos stop with
  | none => .error (.reported (.malformed .headerTruncated))
  | some slice => do
    let next ← word (pos + 4)
    let bytes ← (List.range 4).mapM (index slice)
    return (UInt32.ofNat (leNat bytes), next)

/-- A row of signed words from `pos` on, and the position after them. -/
def readWords (buf : List UInt8) : Nat → Nat → Run ArrayError (List Int32 × Nat)
  | 0, pos => .ok ([], pos)
  | k + 1, pos => do
    let (w, next) ← readWord buf pos
    let (ws, last) ← readWords buf k next
    return (w.toInt32 :: ws, last)

/-- The words of the header, and the position after them. -/
def readHeader (buf : List UInt8) : Run ArrayError (FlatHeader × Nat) := do
  if buf.length < fixedHeaderSize then throw (.reported (.malformed .headerTruncated))
  let (total, pos) ← readWord buf 0
  if total.toNat / 4 ≠ buf.length then throw (.reported (.malformed .totalLength))
  let (ndim, pos) ← readWord buf pos
  let (dataOffset, pos) ← readWord buf pos
  let (tag, pos) ← readWord buf pos
  if maxDimensions < ndim.toNat then throw (.reported (.malformed .dimensionCount))
  let (dims, pos) ← readWords buf ndim.toNat pos
  let (lbounds, pos) ← readWords buf ndim.toNat pos
  return ({
    ndim := ndim.toNat
    dataOffset := dataOffset.toInt32
    tag := ⟨tag⟩
    dims
    lbounds }, pos)

/-- The null bitmap over `n` items, which starts at `pos`, and the start of the
data. -/
def placement (header : FlatHeader) (buf : List UInt8) (pos n : Nat) :
    Run ArrayError (Option NullBitmap × Nat) :=
  if header.dataOffset = 0 then do
    let start ← plainHeaderSize header.ndim
    return (none, start)
  else if header.ndim = 0 then .error (.reported (.malformed .dataOffset))
  else do
    let size ← nullableHeaderSize header.ndim n
    if unsigned header.dataOffset ≠ size then .error (.reported (.malformed .dataOffset))
    else
      match slice? buf pos buf.length with
      | none => .error (.reported (.malformed .bitmapTruncated))
      | some rest => do
        match ← ofBytes? rest n with
        | none => .error (.reported (.malformed .bitmapTruncated))
        | some bitmap => .ok (some bitmap, unsigned header.dataOffset)

/-- The number of present items among `n`. -/
def presentCount (n : Nat) (nulls : Option NullBitmap) : Run ε Nat :=
  match nulls with
  | some bitmap => do
    let nulls ← countNulls bitmap
    sub n nulls
  | none => .ok n

/-- Checks the length of numeric data.  The room of all items is found by a product
that may be too great for a word. -/
def checkSize (tag : Tag) (n : Nat) (nulls : Option NullBitmap) (total start : Nat) :
    Run ArrayError Unit :=
  match tag.layout? with
  | none => .ok ()
  | some l => do
    let present ← presentCount n nulls
    let room ← pad l.align l.len.toNat
    let size ← sub total start
    if present * room < 0x10000000000000000 ∧ present * room = size then .ok ()
    else .error (.reported (.malformed .dataLength))

/-- The data from `start` on, copied into a region that was asked for; an array of
no dimensions has none. -/
def takeData (ndim : Nat) (buf : List UInt8) (start : Nat) : Run ArrayError (List UInt8) :=
  if ndim = 0 then .ok []
  else do
    let size ← sub buf.length start
    let region ← allocData size
    let data ← slice buf start buf.length
    demand (region.length = data.length)
    return data

def decode (buf : List UInt8) : Run ArrayError NdArray := do
  let (header, pos) ← readHeader buf
  let n ← itemCount header.dims
  let (nulls, start) ← placement header buf pos n
  if buf.length < start then throw (.reported (.malformed .dataPastEnd))
  if header.ndim = 0 ∧ start ≠ buf.length then throw (.reported (.malformed .dataInEmpty))
  checkSize header.tag n nulls buf.length start
  let data ← takeData header.ndim buf start
  return {
    tag := header.tag
    ndim := Int32.ofNat header.ndim
    dims := header.dims
    lbounds := header.lbounds
    dataOffset := header.dataOffset
    nulls
    data }

section

variable {buf : List UInt8} {pos : Nat}

theorem readWord_eq (hpos : pos < 0x4000000000000000) :
    readWord buf pos =
      if pos + 4 ≤ buf.length then .ok (wordAt buf pos, pos + 4)
      else .error (.reported (.malformed .headerTruncated)) := by
  rw [readWord, word_of_lt (by omega), ok_bind, slice?_eq_front? (.inl (by decide))]
  by_cases hle : pos + 4 ≤ buf.length
  · have hfour : 4 ≤ (buf.drop pos).length := by
      rw [List.length_drop]
      omega
    have hindex := mapM_index (ε := ArrayError) ((buf.drop pos).take 4)
    rw [List.length_take_of_le hfour] at hindex
    rw [if_pos hle, front?_eq_some_iff.mpr ⟨hfour, rfl⟩]
    simp only [hindex, ok_bind]
    rfl
  · have hnone : front? 4 (buf.drop pos) = none := by
      rw [front?_eq_none_iff, List.length_drop]
      omega
    rw [if_neg hle, hnone]

/-- A word is read where it is there. -/
theorem readWord_of_le (hpos : pos < 0x4000000000000000) (hle : pos + 4 ≤ buf.length) :
    readWord buf pos = .ok (wordAt buf pos, pos + 4) := by
  rw [readWord_eq hpos, if_pos hle]

theorem readWords_eq {k : Nat} (hpos : pos + 4 * k < 0x4000000000000000)
    (hle : pos ≤ buf.length) :
    readWords buf k pos =
      if pos + 4 * k ≤ buf.length then .ok (FlatHeader.signedWords buf pos k, pos + 4 * k)
      else .error (.reported (.malformed .headerTruncated)) := by
  induction k generalizing pos with
  | zero =>
      rw [if_pos (by omega)]
      rfl
  | succ k ih =>
      rw [readWords]
      by_cases hfirst : pos + 4 ≤ buf.length
      · rw [readWord_of_le (by omega) hfirst, ok_bind]
        simp only
        rw [ih (by omega) hfirst, FlatHeader.signedWords_succ,
          show pos + 4 + 4 * k = pos + 4 * (k + 1) by omega]
        split <;> rfl
      · rw [readWord_eq (by omega), if_neg hfirst, if_neg (by omega)]
        rfl

theorem readHeader_eq (buf : List UInt8) :
    readHeader buf =
      lift ((FlatHeader.read buf).map fun header =>
        (header, fixedHeaderSize + 8 * header.ndim)) := by
  unfold readHeader FlatHeader.read fixedHeaderSize
  split
  · rfl
  · next hroom =>
      have hword (pos : Nat) (hpos : pos ≤ 12) :
          readWord buf pos = .ok (wordAt buf pos, pos + 4) :=
        readWord_of_le (by omega) (by omega)
      simp only [hword, ok_bind, Nat.reduceAdd, Nat.reduceLeDiff, Nat.zero_le]
      split
      · rfl
      · split
        · rfl
        · next hdim =>
            unfold maxDimensions at hdim
            generalize (wordAt buf 4).toNat = ndim at hdim
            rw [readWords_eq (by omega) (Nat.le_of_not_lt hroom)]
            by_cases hdims : 16 + 4 * ndim ≤ buf.length
            · rw [if_pos hdims, ok_bind]
              simp only
              rw [readWords_eq (by omega) hdims, Nat.add_assoc, ← Nat.add_mul]
              by_cases hlbounds : 16 + 8 * ndim ≤ buf.length
              · rw [if_pos hlbounds, if_neg (Nat.not_lt.mpr hlbounds)]
                rfl
              · rw [if_neg hlbounds, if_pos (Nat.lt_of_not_le hlbounds)]
                rfl
            · rw [if_neg hdims, if_pos (by omega)]
              rfl

end

/-! ## reading -/

section

variable {header : FlatHeader} {buf : List UInt8} {n start : Nat} {nulls : Option NullBitmap}

theorem placement_eq (hdim : header.ndim ≤ maxDimensions) (hn : n ≤ maxItems)
    (hroom : fixedHeaderSize + 8 * header.ndim ≤ buf.length) :
    placement header buf (fixedHeaderSize + 8 * header.ndim) n =
      lift (header.placement buf n) := by
  unfold placement FlatHeader.placement
  rw [plainHeaderSize_eq hdim, nullableHeaderSize_eq hdim hn, ok_bind, ok_bind]
  have hslice : slice? buf (fixedHeaderSize + 8 * header.ndim) buf.length =
      some (buf.drop (fixedHeaderSize + 8 * header.ndim)) := by
    rw [slice?, if_pos ⟨hroom, Nat.le_refl _⟩, ← List.length_drop, List.take_length]
  have hoffset := unsigned_eq_iff (x := header.dataOffset) (nullableHeaderSize_lt hdim hn)
  by_cases hzero : header.dataOffset = 0
  · rw [if_pos hzero, if_pos hzero]
    rfl
  · rw [if_neg hzero, if_neg hzero]
    by_cases hbad : header.ndim = 0 ∨
        header.dataOffset.toInt ≠ PackedArray.nullableHeaderSize header.ndim n
    · rw [if_pos hbad]
      obtain hempty | hoff := hbad
      · rw [if_pos hempty]
        rfl
      · rw [if_pos (mt hoffset.mp hoff)]
        split <;> rfl
    · obtain ⟨hne, hoff⟩ := not_or.mp hbad
      have hsize := hoffset.mpr (Decidable.not_not.mp hoff)
      rw [if_neg hbad, if_neg hne, if_neg (Decidable.not_not.mpr hsize), hslice, hsize]
      simp only [ofBytes?_eq, ok_bind]
      cases NullBitmap.ofBytes? (buf.drop (fixedHeaderSize + 8 * header.ndim)) n <;> rfl

/-- A bitmap that is placed covers the items. -/
theorem exact_of_placement (h : header.placement buf n = .ok (nulls, start)) (b : NullBitmap)
    (hb : nulls = some b) : b.Exact n := by
  subst hb
  obtain ⟨-, hnone, -⟩ | ⟨-, -, -, -, b', hb, hbytes⟩ := FlatHeader.placement_eq_ok_iff.mp h
  · contradiction
  · cases hb
    exact (NullBitmap.ofBytes?_eq_some_iff.mp hbytes).2.1

theorem presentCount_eq (h : ∀ b, nulls = some b → b.Exact n) (hn : n ≤ maxItems) :
    (presentCount n nulls : Run ε Nat) = .ok (PackedArray.presentCount n nulls) := by
  cases nulls with
  | none => rfl
  | some b =>
      have hexact := h b rfl
      have hle : b.countNulls ≤ n := hexact.countNulls_eq ▸
        Nat.le_trans List.countP_le_length (Nat.le_of_eq List.length_range)
      have hmax : maxItems = 134217727 := by decide
      rw [presentCount, countNulls_eq hexact (by omega), ok_bind, sub_of_le hle]
      rfl

theorem checkSize_eq (h : ∀ b, nulls = some b → b.Exact n) (hn : n ≤ maxItems)
    (hle : start ≤ buf.length) (hlength : buf.length < 0x10000000000000000) (tag : Tag) :
    checkSize tag n nulls buf.length start =
      if (tag.dataSize? (PackedArray.presentCount n nulls)).any (· != buf.length - start) then
        .error (.reported (.malformed .dataLength))
      else .ok () := by
  unfold checkSize Tag.dataSize?
  cases hl : tag.layout? with
  | none => rfl
  | some l =>
      obtain ⟨k, -, rfl⟩ := Option.map_eq_some_iff.mp hl
      have hlen := k.len_layout_le
      simp only [presentCount_eq h hn, ok_bind, pad_eq _ (show k.layout.len.toNat < _ by omega),
        sub_of_le hle, Option.map_some,
        Option.any_some, bne_iff_ne]
      generalize PackedArray.presentCount n nulls * k.layout.align.pad k.layout.len.toNat = room
      -- room that no word can hold is not the length of any bytes either
      by_cases hroom : room = buf.length - start
      · rw [if_pos ⟨by omega, hroom⟩, if_neg (Decidable.not_not.mpr hroom)]
      · rw [if_neg fun hboth => hroom hboth.2, if_pos hroom]

theorem takeData_eq {ndim : Nat} (hle : start ≤ buf.length)
    (hempty : ndim = 0 → start = buf.length) :
    takeData ndim buf start =
      lift ((reserveData (buf.length - start)).map fun _ => buf.drop start) := by
  unfold takeData
  split
  · next hzero =>
      rw [hempty hzero, Nat.sub_self, List.drop_length]
      rfl
  · rw [sub_of_le hle, ok_bind, allocData_eq, slice_of_le hle (Nat.le_refl _), ← List.length_drop,
      List.take_length, PackedArray.allocData]
    cases reserveData (buf.drop start).length with
    | error e => rfl
    | ok _ =>
        simp only [Except.map, lift_ok, ok_bind, Region.length_zeros, demand_of]
        rfl

end

/-- **Reading** never breaks off, whatever the bytes are. -/
theorem decode_eq (buf : List UInt8) : decode buf = lift (NdArray.decode buf) := by
  unfold decode NdArray.decode
  rw [readHeader_eq]
  refine bind_map_eq_lift fun header hread => bind_eq_lift (itemCount_eq _) fun n hcount => ?_
  obtain ⟨hdim, -, -, hroom, htotal, -⟩ := FlatHeader.read_eq_ok_iff.mp hread
  have hn := itemCount_le hcount
  refine bind_eq_lift (placement_eq hdim hn hroom) fun placed hplace => ?_
  obtain ⟨nulls, start⟩ := placed
  refine refuse_eq_lift fun hpast => refuse_eq_lift fun hempty => ?_
  have hle := Nat.le_of_not_lt hpast
  refine check_eq_lift (checkSize_eq (exact_of_placement hplace) hn hle ?_ header.tag) fun _ => ?_
  · have hword := (wordAt buf 0).toNat_lt
    omega
  · rw [takeData_eq hle fun hzero => Decidable.byContradiction fun hne => hempty ⟨hzero, hne⟩]
    exact bind_map_eq_lift fun _ _ => rfl

end PackedArray.Machine
