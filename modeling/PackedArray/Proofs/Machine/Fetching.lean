import PackedArray.Proofs.Bits
import PackedArray.Proofs.Machine.Reading

/-!
# PackedArray.Proofs.Machine.Fetching

Fetching one element after the other, at an offset that is kept in between.

A fetch moves the offset last, when nothing can fail any more.  So it makes progress or
changes nothing, and what it read is settled by `Layout.Reads`.

* `Layout.Reads.bitAt_eq` — an element tells the bytes that it is read off;
* `Layout.exists_reads_iff` — when there is an element to read;
* `Machine.fetchNext_progress` — what a fetch does, over any bytes at any offset.
-/

namespace PackedArray

/-! ## one element and its bytes -/

namespace Layout

variable {l : Layout} {data image image' : List UInt8} {x : Scalar} {start : Nat}

theorem bitAt_eq_of_div_four {xs ys : List UInt8} (h : leNat xs / 4 = leNat ys / 4) {i : Nat}
    (hi : 2 ≤ i) : bitAt xs i = bitAt ys i := by
  have hbit := congrArg (Nat.testBit · (i - 2)) h
  rw [show (4 : Nat) = 2 ^ 2 from rfl] at hbit
  simp only [Nat.testBit_div_two_pow, Nat.sub_add_cancel hi] at hbit
  rw [bitAt_eq_testBit, bitAt_eq_testBit, hbit]

/-- An element of a fixed width tells its bytes. -/
theorem ofImage_inj (hwidth : l.byValue = false ∨ l.len.toNat ∈ Scalar.wordWidths)
    (hlen : image.length = l.len.toNat) (hlen' : image'.length = l.len.toNat)
    (h : l.ofImage image = l.ofImage image') : image = image' := by
  obtain href | hword := hwidth
  · simpa [ofImage, href] using h
  · have hle : l.len.toNat ≤ 8 := by
      simp only [Scalar.wordWidths, List.mem_cons, List.not_mem_nil, or_false] at hword
      omega
    have hlead : (l.ofImage image).lead image.length = image := lead_ofImage (hlen ▸ hle)
    rwa [h, hlen, ← hlen', lead_ofImage (hlen' ▸ hle), eq_comm] at hlead

/-- Bytes that one element is read off are as many, and the same but for the two low
bits of a length word. -/
theorem Reads.bitAt_eq (h : l.Reads image x) (h' : l.Reads image' x) :
    image'.length = image.length ∧
      ∀ i, (l.isVariable = true → 2 ≤ i) → bitAt image' i = bitAt image i := by
  unfold Reads at h h'
  cases hv : l.isVariable with
  | true =>
      rw [if_pos hv] at h h'
      obtain ⟨header, payload, rfl, hheader, htotal, rfl⟩ := h
      obtain ⟨header', _, rfl, hheader', htotal', hx⟩ := h'
      cases hx
      have hlen : (header' ++ payload).length = (header ++ payload).length := by
        rw [List.length_append, List.length_append, hheader, hheader']
      refine ⟨hlen, fun i hi => ?_⟩
      -- both words tell one length, which is a fourth of either
      by_cases hin : i < 8 * variableHeaderSize
      · rw [bitAt_append_left _ _ (hheader'.symm ▸ hin), bitAt_append_left _ _ (hheader.symm ▸ hin)]
        exact bitAt_eq_of_div_four (by rw [htotal, htotal', hlen]) (hi rfl)
      · obtain ⟨j, rfl⟩ := Nat.exists_eq_add_of_le (Nat.le_of_not_lt hin)
        have hout := bitAt_append_right header payload j
        have hout' := bitAt_append_right header' payload j
        rw [hheader] at hout
        rw [hheader'] at hout'
        rw [hout, hout']
  | false =>
      rw [if_neg (by simp [hv])] at h h'
      obtain ⟨-, hwidth, himage, rfl⟩ := h
      obtain ⟨-, -, himage', hx⟩ := h'
      obtain rfl := ofImage_inj hwidth himage himage' hx
      exact ⟨rfl, fun _ _ => rfl⟩

/-- An element can be fetched: it has the width of a value or a block, or carries its
own length, and its bytes are there. -/
def FetchableAt (l : Layout) (data : List UInt8) (start : Nat) : Prop :=
  if l.isVariable then
    start + 4 ≤ data.length ∧ 4 ≤ (wordAt data start).toNat / 4 ∧
      start + (wordAt data start).toNat / 4 ≤ data.length
  else
    0 < l.len ∧ (l.byValue = true → l.len ∈ [1, 2, 4, 8]) ∧ start + l.len.toNat ≤ data.length

instance : Decidable (l.FetchableAt data start) := by
  delta FetchableAt
  infer_instance

theorem exists_reads_iff :
    (∃ image rest x, data.drop start = image ++ rest ∧ l.Reads image x) ↔
      l.FetchableAt data start := by
  have hfour : variableHeaderSize = 4 := rfl
  unfold Reads FetchableAt
  cases hv : l.isVariable with
  | true =>
      simp only [if_true, toNat_wordAt]
      constructor
      · rintro ⟨_, rest, x, hdata, header, payload, rfl, hheader, htotal, rfl⟩
        have hlen := congrArg List.length hdata
        have hword : (data.drop start).take 4 = header := by
          rw [hdata, List.append_assoc, List.take_left' (hheader.trans hfour)]
        rw [List.length_drop, List.length_append] at hlen
        rw [List.length_append] at htotal hlen
        rw [hword]
        omega
      · rintro ⟨hheader, hmin, hfit⟩
        have hsplit := List.take_append_drop 4 (data.drop start)
        have hlen : ((data.drop start).take 4).length = 4 := by
          rw [List.length_take, List.length_drop]
          omega
        have htail : ((data.drop start).drop 4).length = data.length - start - 4 := by
          rw [List.length_drop, List.length_drop]
        generalize (data.drop start).take 4 = header at *
        generalize (data.drop start).drop 4 = tail at *
        refine ⟨header ++ tail.take (leNat header / 4 - 4), tail.drop (leNat header / 4 - 4), _,
          ?_, header, _, rfl, hlen, ?_, rfl⟩
        · rw [List.append_assoc, List.take_append_drop, hsplit]
        · rw [List.length_append, List.length_take]
          omega
  | false =>
      simp only [Bool.false_eq_true, if_false]
      constructor
      · rintro ⟨image, rest, x, hdata, hpos, hwidth, himage, -⟩
        have hlen := congrArg List.length hdata
        rw [List.length_drop, List.length_append] at hlen
        refine ⟨hpos, fun hval => ?_, by omega⟩
        have hword : l.len.toNat ∈ Scalar.wordWidths := by simpa [hval] using hwidth
        simp only [Scalar.wordWidths, List.mem_cons, List.not_mem_nil, or_false] at hword ⊢
        omega
      · rintro ⟨hpos, hwidth, hfit⟩
        refine ⟨(data.drop start).take l.len.toNat, (data.drop start).drop l.len.toNat, _,
          (List.take_append_drop _ _).symm, hpos, ?_, ?_, rfl⟩
        · cases hval : l.byValue with
          | false => exact .inl rfl
          | true =>
              have hword := hwidth hval
              simp only [Scalar.wordWidths, List.mem_cons, List.not_mem_nil, or_false] at hword ⊢
              omega
        · rw [List.length_take, List.length_drop]
          omega

/-- What fetching an element from `start` on reads, and where it gets to. -/
structure Fetched (l : Layout) (data : List UInt8) (start : Nat) (image : List UInt8) (x : Scalar)
    (next : Nat) : Prop where
  /-- The bytes that are read lie inside the data. -/
  stop_le_length : start + image.length ≤ data.length
  take_drop_eq : (data.drop start).take image.length = image
  /-- No bytes behind those count. -/
  unpack_append : ∀ rest, l.unpack (image ++ rest) = .ok (x, image.length)
  /-- The element tells the bytes, but for the two low bits of a length word. -/
  bitAt_eq : ∀ image' rest, l.unpack (image' ++ rest) = .ok (x, image'.length) →
    image'.length = image.length ∧
      ∀ i, (l.isVariable = true → 2 ≤ i) → bitAt image' i = bitAt image i
  lt_next : start < next
  /-- The offset comes to the first boundary behind the bytes. -/
  stop_le_next : start + image.length ≤ next
  dvd_next : l.align.width ∣ next
  next_le : ∀ m, start + image.length ≤ m → l.align.width ∣ m → next ≤ m

theorem fetched_of_reads {rest : List UInt8} (h : l.Reads image x)
    (hdata : data.drop start = image ++ rest) :
    l.Fetched data start image x (l.align.pad (start + image.length)) := by
  have hlen := congrArg List.length hdata
  have hpos := h.length_pos
  have hle := l.align.le_pad (start + image.length)
  rw [List.length_drop, List.length_append] at hlen
  refine ⟨by omega, by rw [hdata, List.take_left], h.unpack_append, fun image' rest' hread => ?_,
    by omega, hle, l.align.dvd_pad _, fun _ => Align.pad_le⟩
  obtain ⟨front, back, happ, hfront, hreads⟩ := exists_reads_of_unpack hread
  obtain ⟨rfl, -⟩ := List.append_inj happ hfront.symm
  exact h.bitAt_eq hreads

end Layout

namespace Machine

/-! ## fetching in a row -/

section

variable {ε σ α β : Type} {s : σ}

theorem run_get_bind (f : σ → ExceptT ε (StateM σ) α) :
    (get >>= f : ExceptT ε (StateM σ) α).run.run s = (f s).run.run s := rfl

theorem run_liftM_bind (x : Except ε β) (f : β → ExceptT ε (StateM σ) α) :
    (liftM x >>= f : ExceptT ε (StateM σ) α).run.run s =
      match x with
      | .ok b => (f b).run.run s
      | .error e => (.error e, s) := by
  cases x <;> rfl

end

/-- Fetch the element at the offset and move the offset past its padding. -/
def fetchNext (l : Layout) (data : List UInt8) :
    ExceptT (Stop ArrayError) (StateM Nat) Scalar := do
  let start ← get
  let (x, taken) ← unpackAt l data start
  let stop ← (word (start + taken) : Run ArrayError Nat)
  let next ← (pad l.align stop : Run ArrayError Nat)
  set next
  return x

variable {l : Layout} {data : List UInt8} {start : Nat}

/-- The offset is moved last. -/
theorem fetchNext_run (l : Layout) (data : List UInt8) (start : Nat) :
    (fetchNext l data).run.run start =
      match fetch l data start with
      | .ok (x, next) => (.ok x, next)
      | .error e => (.error e, start) := by
  rw [fetchNext, run_get_bind, run_liftM_bind, fetch]
  cases unpackAt l data start with
  | error e => rfl
  | ok element =>
      simp only [run_liftM_bind, ok_bind]
      cases word (start + element.2) with
      | error e => rfl
      | ok stop =>
          simp only [ok_bind]
          cases pad l.align stop <;> rfl

/-- **A fetch makes progress or changes nothing**: where an element can be fetched it is,
and the offset gets past it; where none can, an error is reported and the offset stays. -/
theorem fetchNext_progress (hlen : l.len ≤ 0x7fff) (hdata : data.length ≤ 0x40000000)
    (hstart : start ≤ 0x100000000) :
    (l.FetchableAt data start ∧ ∃ image x next, l.fetch data start = .ok (x, next) ∧
        (fetchNext l data).run.run start = (.ok x, next) ∧ l.Fetched data start image x next) ∨
      (¬l.FetchableAt data start ∧ ∃ e, l.fetch data start = .error e ∧
        (fetchNext l data).run.run start = (.error (.reported e), start)) := by
  rw [fetchNext_run, fetch_eq hlen (by omega) (by omega), ← Layout.exists_reads_iff, Layout.fetch]
  cases hunpack : l.unpack (data.drop start) with
  | ok element =>
      obtain ⟨x, taken⟩ := element
      obtain ⟨image, rest, hfront, rfl, hreads⟩ := Layout.exists_reads_of_unpack hunpack
      exact .inl ⟨⟨image, rest, x, hfront, hreads⟩, image, x, _, rfl, rfl,
        Layout.fetched_of_reads hreads hfront⟩
  | error e =>
      refine .inr ⟨?_, e, rfl, rfl⟩
      rintro ⟨image, rest, x, hfront, hreads⟩
      rw [hfront, hreads.unpack_append rest] at hunpack
      contradiction

/-- The word's two low bits are set, it stands off its boundary, and a byte follows the
element. -/
theorem fetchNext_progress_misaligned :
    let l : Layout := ⟨-1, true, .int⟩
    let data : List UInt8 := [9, 27, 0, 0, 0, 104, 105, 7]
    l.len ≤ 0x7fff ∧ data.length ≤ 0x40000000 ∧ 1 ≤ 0x100000000 ∧ l.FetchableAt data 1 ∧
      (fetchNext l data).run.run 1 = (.ok (.ref [104, 105]), 8) ∧
      ∃ image, l.Fetched data 1 image (.ref [104, 105]) 8 := by
  intro l data
  have hlen : l.len ≤ 0x7fff := by decide
  have hdata : data.length ≤ 0x40000000 := by decide
  have hfetchable : l.FetchableAt data 1 := by decide
  have hfetch : (fetchNext l data).run.run 1 = (.ok (.ref [104, 105]), 8) := by
    simp only [l, data]
    rfl
  refine ⟨hlen, hdata, by decide, hfetchable, hfetch, ?_⟩
  obtain ⟨-, image, x, next, -, hrun, hfetched⟩ | ⟨hnot, -⟩ :=
    fetchNext_progress hlen hdata (by decide : 1 ≤ 0x100000000)
  · rw [hfetch] at hrun
    cases hrun
    exact ⟨image, hfetched⟩
  · exact absurd hfetchable hnot

end Machine

end PackedArray
