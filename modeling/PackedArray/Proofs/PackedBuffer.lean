import PackedArray.Proofs.Elements
import PackedArray.Proofs.Reading

/-!
# PackedArray.Proofs.PackedBuffer

Packed data of one array, taken as it is for another.

Elements are packed with the padding of their layout behind each of them, but a packed
buffer is cut to the bare widths of the items.  The two lengths are the same when the
width is a multiple of its boundary; then the data is kept and is read back as it was.
Under any other width the paddings are lost from the end: a single item is still there,
but of more than one the last has been cut off.

* `Walk.overrun_mem_steps` — a walk over data that is too short for the last item;
* `NdArray.ofPacked_of_ofElements` — taking the data of an array of elements.
-/

namespace PackedArray

/-! ## widths -/

theorem Align.pad_eq_self_iff {a : Align} {off : Nat} : a.pad off = off ↔ a.width ∣ off := by
  constructor
  · intro h
    rw [← h]
    exact a.dvd_pad off
  · exact pad_eq_self

/-- Bare widths are less than padded ones, unless there is no padding or no item. -/
theorem Align.mul_pad_le_iff {a : Align} {width n : Nat} :
    n * a.pad width ≤ width * n ↔ a.width ∣ width ∨ n = 0 := by
  rw [Nat.mul_comm width n, ← pad_eq_self_iff]
  have hle := a.le_pad width
  constructor
  · intro h
    obtain rfl | hpos := Nat.eq_zero_or_pos n
    · exact .inr rfl
    · exact .inl (Nat.le_antisymm (Nat.le_of_mul_le_mul_left h hpos) hle)
  · rintro (h | rfl)
    · exact Nat.le_of_eq (congrArg (n * ·) h)
    · simp

theorem Layout.unpack_eq_error_of_lt {l : Layout} (hlen : 0 < l.len) {bs : List UInt8}
    (h : bs.length < l.len.toNat) : l.unpack bs = .error (.malformed .elementOverrun) := by
  rw [unpack, unpackFixed, if_neg (by simp [isVariable_eq_false hlen]),
    if_neg (Int.not_le.mpr hlen)]
  simp only [front?_eq_none_iff.mpr h]

/-! ## running out of bytes -/

namespace Walk

/-- Where the bytes ahead do not last for the items that are left, a walk ends with an
overrun. -/
theorem overrun_mem_steps {l : Layout} (hlen : 0 < l.len)
    (hwidth : l.byValue = false ∨ l.len.toNat ∈ Scalar.wordWidths) {n : Nat} (w : Walk)
    (hlayout : w.layout = l) (halign : l.align.width ∣ w.offset)
    (hsize : w.index + (n + 1) = w.array.size) (hnulls : ∀ i, w.array.isNullAt i = false)
    (hshort : w.rest.length < n * l.align.pad l.len.toNat + l.len.toNat) :
    .error (.malformed .elementOverrun) ∈ (w.steps (n + 1)).1 := by
  induction n generalizing w with
  | zero =>
      rw [Nat.zero_mul, Nat.zero_add] at hshort
      have hfail : w.layout.unpack w.rest = .error (.malformed .elementOverrun) := by
        rw [hlayout]
        exact Layout.unpack_eq_error_of_lt hlen hshort
      rw [steps_succ_of_next? 0 (next?_eq_some_iff.mpr ⟨by omega, .failed (hnulls _) hfail⟩)]
      exact List.mem_cons_self
  | succ n ih =>
      by_cases hfront : w.rest.length < l.len.toNat
      · have hfail : w.layout.unpack w.rest = .error (.malformed .elementOverrun) := by
          rw [hlayout]
          exact Layout.unpack_eq_error_of_lt hlen hfront
        rw [steps_succ_of_next? _ (next?_eq_some_iff.mpr ⟨by omega, .failed (hnulls _) hfail⟩)]
        exact List.mem_cons_self
      · have himage : (w.rest.take l.len.toNat).length = l.len.toNat :=
          List.length_take_of_le (Nat.le_of_not_lt hfront)
        have hread := Layout.unpack_image_append hlen hwidth himage (w.rest.drop l.len.toNat)
        rw [List.take_append_drop, himage, ← hlayout] at hread
        rw [steps_succ_of_next? _ (next?_eq_some_iff.mpr ⟨by omega, .present (hnulls _) hread⟩)]
        refine List.mem_cons_of_mem _ (ih _ hlayout ?_ ?_ hnulls ?_)
        · rw [← hlayout]
          exact w.layout.align.dvd_pad _
        · simp only [advance]
          omega
        · simp only [advance]
          rw [hlayout, Align.pad_add halign, Nat.add_sub_cancel_left, List.length_drop]
          rw [Nat.succ_mul] at hshort
          omega

end Walk

/-! ## taking the data of an array -/

namespace NdArray

variable {elems xs : List Scalar} {nulls : Option (List Bool)} {dims lbounds : List Int32}
  {tag : Tag} {l : Layout} {a : NdArray}

/-- Without nulls a single item is read from the front of the data. -/
theorem entries_of_size_one (hsize : a.size = 1) (hnulls : a.isNullAt 0 = false) {x : Scalar}
    {taken : Nat} (h : l.unpack a.data = .ok (x, taken)) : a.entries l = [.ok (some x)] := by
  have hnext : (a.walk l).next? = some (.ok (some x), (a.walk l).advance taken) :=
    Walk.next?_eq_some_iff.mpr ⟨by simp [walk, hsize], .present hnulls h⟩
  rw [entries, Walk.run, show (a.walk l).remaining = 0 + 1 from hsize,
    Walk.steps_succ_of_next? 0 hnext]
  rfl

/-! ## blocks and bare widths -/

/-- The data of an array without nulls is the blocks of these elements. -/
structure HasBlocks (a : NdArray) (l : Layout) (xs : List Scalar) : Prop where
  size : a.size = xs.length
  nulls : a.nulls = none
  pack : ∀ x ∈ xs, ∃ bs, l.pack x = .ok bs
  data : a.data = xs.flatMap l.block

/-- The array with its data cut to the bare widths of its items. -/
def cutToWidths (a : NdArray) (l : Layout) : NdArray :=
  { a with data := a.data.take (l.len.toNat * a.size) }

/-- An array of elements without nulls is assembled from the blocks of all of them. -/
theorem exists_blocks_of_ofElements (h : ofElements elems nulls dims lbounds tag l = .ok a)
    (hnulls : a.nulls = none) :
    dims = [] ∧ lbounds = [] ∧ a = empty tag ∨
    dims ≠ [] ∧ checkDimensions dims lbounds = .ok () ∧ ∃ xs : List Scalar,
      itemCount dims = .ok xs.length ∧ (∀ x ∈ xs, ∃ bs, l.pack x = .ok bs) ∧
      (xs.flatMap l.block).length ≤ maxDataSize ∧
      a = assemble tag dims lbounds (List.replicate xs.length false) (xs.flatMap l.block) := by
  refine (ofElements_eq_ok_iff.mp h).imp_right ?_
  rintro ⟨hne, hcheck, n, flags, size, hn, hle, hflags, -, hsize, rfl⟩
  have hlen : (elems.take n).length = n := List.length_take_of_le hle
  have hclear : flags = List.replicate (elems.take n).length false := by
    rw [hlen, List.eq_replicate_iff]
    exact ⟨(nullFlags_eq_ok_iff.mp hflags).1, by simpa [assemble] using hnulls⟩
  rw [hclear, presentElements_replicate] at hsize ⊢
  obtain ⟨hpack, hsum, hmax⟩ := Layout.pack_of_measureFrom hsize (Nat.zero_le _)
  exact ⟨hne, hcheck, _, by rwa [hlen], hpack, by omega, rfl⟩

theorem exists_hasBlocks_of_ofElements (h : ofElements elems nulls dims lbounds tag l = .ok a)
    (hnulls : a.nulls = none) : ∃ xs, a.HasBlocks l xs := by
  obtain ⟨-, -, rfl⟩ | ⟨-, hcheck, xs, hn, hpack, -, rfl⟩ := exists_blocks_of_ofElements h hnulls
  · exact ⟨[], rfl, rfl, by simp, rfl⟩
  · refine ⟨xs, ?_, hnulls, hpack, rfl⟩
    rw [size_assemble hcheck (by rwa [List.length_replicate]), List.length_replicate]

namespace HasBlocks

variable (h : a.HasBlocks l xs)

include h

theorem isNullAt_eq (i : Nat) : a.isNullAt i = false := by
  rw [isNullAt, h.nulls]

variable (hlen : 0 < l.len)

include hlen

theorem length_data : a.data.length = a.size * l.align.pad l.len.toNat := by
  rw [h.data, Layout.length_flatMap_block (Layout.isVariable_eq_false hlen) h.pack, h.size]

theorem le_length_data : l.len.toNat * a.size ≤ a.data.length := by
  rw [h.length_data hlen, Nat.mul_comm]
  exact Nat.mul_le_mul_left _ (l.align.le_pad _)

/-- Nothing is cut off when the bare widths are the padded ones. -/
theorem cutToWidths_eq_iff : a.cutToWidths l = a ↔ l.align.width ∣ l.len.toNat ∨ a.size = 0 := by
  rw [← Align.mul_pad_le_iff, ← h.length_data hlen]
  constructor
  · intro heq
    have hdata := congrArg (fun b : NdArray => b.data.length) heq
    simp only [cutToWidths, List.length_take] at hdata
    omega
  · intro hle
    rw [cutToWidths, List.take_of_length_le hle]

/-- A single item is left whole. -/
theorem entries_cutToWidths (hsize : a.size = 1) : (a.cutToWidths l).entries l = a.entries l := by
  obtain ⟨x, rfl⟩ := List.length_eq_one_iff.mp (h.size.symm.trans hsize)
  obtain ⟨bs, hp⟩ := h.pack x List.mem_cons_self
  have hwidth : bs.length = l.len.toNat := by
    rw [((Layout.pack_eq_ok_iff (Layout.isVariable_eq_false hlen)).mp hp).2.2, Scalar.length_lead]
  have hdata := h.data
  rw [List.flatMap_singleton, Layout.block_eq_of_pack hp] at hdata
  have hcut : (a.cutToWidths l).data = bs := by
    rw [cutToWidths, hsize, hdata, Nat.mul_one, List.take_left' hwidth]
  have hwhole : l.unpack a.data = .ok (l.canonical x, bs.length) := by
    rw [hdata]
    exact Layout.unpack_append hp _
  have hfront : l.unpack (a.cutToWidths l).data = .ok (l.canonical x, bs.length) := by
    have hread := Layout.unpack_append hp []
    rw [List.append_nil] at hread
    rwa [hcut]
  rw [entries_of_size_one hsize (h.isNullAt_eq 0) hwhole,
    entries_of_size_one (a := a.cutToWidths l) hsize (h.isNullAt_eq 0) hfront]

/-- Of several items the last is cut off with as much as their paddings take. -/
theorem overrun_mem_entries_cutToWidths (hpad : ¬l.align.width ∣ l.len.toNat) (hlt : 1 < a.size) :
    .error (.malformed .elementOverrun) ∈ (a.cutToWidths l).entries l := by
  obtain ⟨n, hn⟩ := Nat.exists_eq_add_of_lt hlt
  obtain ⟨x, hx⟩ := List.exists_mem_of_length_pos (h.size ▸ Nat.zero_lt_of_lt hlt)
  obtain ⟨bs, hp⟩ := h.pack x hx
  obtain ⟨-, hwidth, -⟩ := (Layout.pack_eq_ok_iff (Layout.isVariable_eq_false hlen)).mp hp
  have hless : l.len.toNat < l.align.pad l.len.toNat :=
    Nat.lt_of_le_of_ne (l.align.le_pad _) fun heq => hpad (Align.pad_eq_self_iff.mp heq.symm)
  have hrest : ((a.cutToWidths l).walk l).rest.length = l.len.toNat * a.size :=
    List.length_take_of_le (h.le_length_data hlen)
  rw [entries, Walk.run, show ((a.cutToWidths l).walk l).remaining = 1 + n + 1 from hn]
  refine Walk.overrun_mem_steps hlen (hwidth.imp_left And.right) _ rfl (Nat.dvd_zero _) ?_
    h.isNullAt_eq ?_
  · exact (Nat.zero_add _).trans hn.symm
  · rw [hrest, hn, Nat.mul_comm, Nat.succ_mul]
    exact Nat.add_lt_add_right (Nat.mul_lt_mul_of_pos_left hless (by omega)) _

end HasBlocks

/-- The data of an array of elements without nulls is long enough to be taken. -/
theorem ofPacked_data (hlen : 0 < l.len) (h : ofElements elems nulls dims lbounds tag l = .ok a)
    (hnulls : a.nulls = none) :
    ofPacked a.data dims lbounds tag l = .ok (a.cutToWidths l) := by
  obtain ⟨_, hblocks⟩ := exists_hasBlocks_of_ofElements h hnulls
  have hle := hblocks.le_length_data hlen
  rw [ofPacked_eq_ok_iff]
  refine (exists_blocks_of_ofElements h hnulls).imp ?_ ?_
  · rintro ⟨rfl, rfl, rfl⟩
    exact ⟨rfl, rfl, by simp [cutToWidths, empty]⟩
  · rintro ⟨hne, hcheck, xs, hn, -, hmax, rfl⟩
    have hsize : (assemble tag dims lbounds (List.replicate xs.length false)
        (xs.flatMap l.block)).size = xs.length :=
      (dimensioned_assemble hcheck).size_of_itemCount hn
    rw [hsize] at hle
    refine ⟨hne, hcheck, xs.length, hn, hlen, hle, Nat.le_trans hle hmax, ?_⟩
    rw [cutToWidths, hsize, assemble_replicate, assemble_replicate]

/-- **Taking packed data over**: the data of an array of elements without nulls can be taken
for another array under the same layout, which keeps as many bytes as the bare widths of the
items take.  That is the same array exactly when the width is a multiple of its boundary or
there are no items.  Otherwise the paddings are missing at the end, and if there is more than
one item reading runs over it. -/
theorem ofPacked_of_ofElements (hlen : 0 < l.len)
    (h : ofElements elems nulls dims lbounds tag l = .ok a) (hnulls : a.nulls = none) :
    ∃ read, ofPacked a.data dims lbounds tag l = .ok (a.cutToWidths l) ∧
      a.toElements tag l = .ok read ∧
      (a.cutToWidths l = a ↔ l.align.width ∣ l.len.toNat ∨ a.size = 0) ∧
      (a.cutToWidths l).toElements tag l =
        if l.align.width ∣ l.len.toNat ∨ a.size ≤ 1 then .ok read
        else .error (.malformed .elementOverrun) := by
  obtain ⟨xs, hblocks⟩ := exists_hasBlocks_of_ofElements h hnulls
  obtain ⟨_, _, _, _, _, _, rfl, _, hholds⟩ := holds_of_ofElements h
  refine ⟨_, ofPacked_data hlen h hnulls, toElements_of_holds hholds,
    hblocks.cutToWidths_eq_iff hlen, ?_⟩
  split
  · next hwhole =>
      rw [← toElements_of_holds hholds]
      by_cases hsize : a.size = 1
      · rw [toElements, toElements, hblocks.entries_cutToWidths hlen hsize]
        rfl
      · rw [(hblocks.cutToWidths_eq_iff hlen).mpr (hwhole.imp_right fun hle => by omega)]
  · next hcut =>
      obtain ⟨hpad, hlt⟩ := not_or.mp hcut
      exact toElements_eq_error_iff.mpr
        (hblocks.overrun_mem_entries_cutToWidths hlen hpad (Nat.lt_of_not_le hlt))

/-- Blocks of six bytes on boundaries of two lie without padding. -/
theorem ofPacked_of_ofElements_unpadded :
    let l : Layout := ⟨6, false, .short⟩
    let elems := [.ref [1, 2, 3, 4, 5, 6], .ref [7, 8, 9]]
    let a := assemble Tag.bool [2] [1] [false, false] [1, 2, 3, 4, 5, 6, 7, 8, 9, 0, 0, 0]
    ofElements elems none [2] [1] Tag.bool l = .ok a ∧ a.nulls = none ∧ 0 < l.len ∧
      ∃ read, ofPacked a.data [2] [1] Tag.bool l = .ok (a.cutToWidths l) ∧
        a.toElements Tag.bool l = .ok read ∧
        (a.cutToWidths l = a ↔ l.align.width ∣ l.len.toNat ∨ a.size = 0) ∧
        (a.cutToWidths l).toElements Tag.bool l =
          if l.align.width ∣ l.len.toNat ∨ a.size ≤ 1 then .ok read
          else .error (.malformed .elementOverrun) := by
  intro l elems a
  have h : ofElements elems none [2] [1] Tag.bool l = .ok a := by
    simp only [elems, l, a]
    rfl
  have hlen : 0 < l.len := by decide
  exact ⟨h, rfl, hlen, ofPacked_of_ofElements hlen h rfl⟩

/-- Two bytes on boundaries of four: the array that takes their data over is another one, and
cannot be read. -/
theorem ofPacked_padded_ne :
    let l : Layout := ⟨1, true, .int⟩
    let a := assemble Tag.bool [2] [1] [false, false] [1, 0, 0, 0, 2, 0, 0, 0]
    let b := assemble Tag.bool [2] [1] [false, false] [1, 0]
    ofElements [.word 1, .word 2] none [2] [1] Tag.bool l = .ok a ∧
      ofPacked a.data [2] [1] Tag.bool l = .ok b ∧ b ≠ a ∧
      a.toElements Tag.bool l = .ok ⟨[.word 1, .word 2], [false, false]⟩ ∧
      b.toElements Tag.bool l = .error (.malformed .elementOverrun) := by
  intro l a b
  simp only [a, b, l]
  exact ⟨rfl, rfl, by decide, rfl, rfl⟩

end NdArray

end PackedArray
