import PackedArray.NdArray.Read
import PackedArray.Proofs.Machine.Shape
import PackedArray.Proofs.Walk

/-!
# PackedArray.Proofs.Machine.Reading

Fetching elements and walking over an array in machine words.

A fetch takes slices of the data that it first checks, so all it could break off
over is the arithmetic of its positions; and a position never gets further than one
boundary past the data.

* `fetch_eq` — fetching one element;
* `Ready` — what holds of a walk between its steps;
* `entries_eq` — a whole walk.
-/

namespace PackedArray

/-- An element takes some bytes, and no more than there are. -/
theorem Layout.taken_of_unpack {l : Layout} {bs : List UInt8} {x : Scalar} {taken : Nat}
    (h : l.unpack bs = .ok (x, taken)) : 0 < taken ∧ taken ≤ bs.length := by
  obtain ⟨image, rest, rfl, rfl, hreads⟩ := exists_reads_of_unpack h
  exact ⟨hreads.length_pos, by simp⟩

namespace Machine

open NdArray (Entry)

variable {ε : Type}

/-! ## fetching -/

/-- The variable-length element at `start`: its length word is read byte by byte. -/
def fetchVariable (data : List UInt8) (start : Nat) : Run ArrayError (Scalar × Nat) := do
  let payloadStart ← word (start + variableHeaderSize)
  match slice? data start payloadStart with
  | none => .error (.reported (.malformed .elementOverrun))
  | some slice => do
    let header ← (List.range variableHeaderSize).mapM (index slice)
    let total := leNat header / 4
    if total < variableHeaderSize then .error (.reported (.malformed .lengthBelowHeader))
    else do
      let stop ← word (start + total)
      match slice? data payloadStart stop with
      | none => .error (.reported (.malformed .elementOverrun))
      | some payload => .ok (.ref payload, total)

/-- The fixed-width element at `start`: a word is read byte by byte. -/
def fetchFixed (l : Layout) (data : List UInt8) (start : Nat) :
    Run ArrayError (Scalar × Nat) :=
  if l.len ≤ 0 then .error (.reported (.invalidTypeLength l.len))
  else do
    let stop ← word (start + l.len.toNat)
    match slice? data start stop with
    | none => .error (.reported (.malformed .elementOverrun))
    | some image =>
      if !l.byValue then .ok (.ref image, l.len.toNat)
      else if l.len.toNat ∈ Scalar.wordWidths then do
        demand (image.length = l.len.toNat)
        let bytes ← (List.range l.len.toNat).mapM (index image)
        .ok (.word (UInt64.ofNat (leNat bytes)), l.len.toNat)
      else .error (.reported (.invalidTypeLength l.len))

def unpackAt (l : Layout) (data : List UInt8) (start : Nat) : Run ArrayError (Scalar × Nat) :=
  if l.isVariable then fetchVariable data start else fetchFixed l data start

def fetch (l : Layout) (data : List UInt8) (start : Nat) : Run ArrayError (Scalar × Nat) := do
  let (x, taken) ← unpackAt l data start
  let stop ← word (start + taken)
  let next ← pad l.align stop
  return (x, next)

theorem slice?_eq_front? {data : List UInt8} {start n : Nat} (h : 0 < n ∨ start ≤ data.length) :
    slice? data start (start + n) = front? n (data.drop start) := by
  unfold slice?
  by_cases hle : start + n ≤ data.length
  · rw [if_pos ⟨Nat.le_add_right _ _, hle⟩, Nat.add_sub_cancel_left, eq_comm,
      front?_eq_some_iff]
    refine ⟨?_, rfl⟩
    rw [List.length_drop]
    omega
  · rw [if_neg fun hb => hle hb.2, eq_comm, front?_eq_none_iff, List.length_drop]
    omega

theorem mapM_index {α : Type} (xs : List α) :
    (List.range xs.length).mapM (index xs) = (.ok xs : Run ε (List α)) := by
  rw [mapM_eq_ok_iff]
  refine List.ext_getElem (by simp) fun i hi _ => ?_
  rw [List.length_map, List.length_range] at hi
  rw [List.getElem_map, List.getElem_range, List.getElem_map, index_of_lt hi]

variable {l : Layout} {data : List UInt8} {start : Nat}

theorem fetchVariable_eq (hstart : start < 0x4000000000000000) :
    fetchVariable data start = lift (Layout.unpackVariable (data.drop start)) := by
  unfold fetchVariable Layout.unpackVariable variableHeaderSize
  rw [word_of_lt (by omega), ok_bind, slice?_eq_front? (.inl (by decide))]
  cases hheader : front? 4 (data.drop start) with
  | none => rfl
  | some header =>
      obtain ⟨hfour, htake⟩ := front?_eq_some_iff.mp hheader
      have hlen : header.length = 4 := by rw [← htake, List.length_take_of_le hfour]
      have hindex := mapM_index (ε := ArrayError) header
      rw [hlen] at hindex
      simp only [hindex, ok_bind]
      have htotal : leNat header < 0x100000000 := by
        have := leNat_lt header
        rw [hlen] at this
        exact this
      split
      · rfl
      · next hge =>
          rw [List.length_drop] at hfour
          rw [word_of_lt (by omega), ok_bind,
            show start + leNat header / 4 = start + 4 + (leNat header / 4 - 4) by omega,
            slice?_eq_front? (.inr (by omega)), ← List.drop_drop]
          cases front? (leNat header / 4 - 4) ((data.drop start).drop 4) <;> rfl

theorem fetchFixed_eq (hlen : l.len ≤ 0x7fff) (hstart : start < 0x4000000000000000) :
    fetchFixed l data start = lift (l.unpackFixed (data.drop start)) := by
  unfold fetchFixed Layout.unpackFixed
  split
  · rfl
  · next hpos =>
      rw [word_of_lt (by omega), ok_bind, slice?_eq_front? (.inl (by omega))]
      simp only
      cases himage : front? l.len.toNat (data.drop start) with
      | none => rfl
      | some image =>
          obtain ⟨hle, htake⟩ := front?_eq_some_iff.mp himage
          have hlength : image.length = l.len.toNat := by
            rw [← htake, List.length_take_of_le hle]
          have hindex := mapM_index (ε := ArrayError) image
          rw [hlength] at hindex
          simp only [demand_of hlength, hindex, ok_bind]
          split
          · rfl
          · split <;> rfl

/-- **Fetching** never breaks off while sums of positions fit a word. -/
theorem fetch_eq (hlen : l.len ≤ 0x7fff) (hdata : data.length < 0x4000000000000000)
    (hstart : start < 0x4000000000000000) : fetch l data start = lift (l.fetch data start) := by
  have hunpack : unpackAt l data start = lift (l.unpack (data.drop start)) := by
    unfold unpackAt Layout.unpack
    split
    · exact fetchVariable_eq hstart
    · exact fetchFixed_eq hlen hstart
  rw [fetch, hunpack, Layout.fetch]
  cases htaken : l.unpack (data.drop start) with
  | error e => rfl
  | ok element =>
      obtain ⟨x, taken⟩ := element
      obtain ⟨-, hle⟩ := Layout.taken_of_unpack htaken
      rw [List.length_drop] at hle
      simp only [lift_ok, ok_bind]
      rw [word_of_lt (by omega), ok_bind, pad_eq _ (by omega)]
      rfl

/-! ## walks -/

/-- Whether an item is null, if there is a bitmap to ask. -/
def isNullAt (a : NdArray) (i : Nat) : Run ε Bool :=
  match a.nulls with
  | some b => isNull b i
  | none => .ok false

/-- The entry of the next of `n` items, and the position after it.  How many items
remain can be asked at any time. -/
def next? (n : Nat) (w : Walk) : Run ε (Option (Entry × Walk)) := do
  let _ ← sub n w.index
  if w.index < n then
    let index ← word (w.index + 1)
    if ← isNullAt w.array w.index then return some (.ok none, { w with index })
    else
      match ← attempt (fetch w.layout w.array.data w.offset) with
      | .ok (x, offset) =>
        return some (.ok (some x), { w with index, offset, rest := w.array.data.drop offset })
      | .error e => return some (.error e, { w with index := n })
  else return none

def steps (n : Nat) : Nat → Walk → Run ε (List Entry × Walk)
  | 0, w => .ok ([], w)
  | k + 1, w => do
    match ← next? n w with
    | none => .ok ([], w)
    | some (entry, next) =>
      let (entries, last) ← steps n k next
      return (entry :: entries, last)

/-- The entries of all items; how many there are is found once, at the start. -/
def entries (a : NdArray) (l : Layout) : Run ε (List Entry) := do
  let n ← size a
  let (entries, _) ← steps n n (a.walk l)
  return entries

/-- What holds of a walk between its steps. -/
structure Ready (w : Walk) : Prop where
  wellFormed : w.array.WellFormed
  len_le : w.layout.len ≤ 0x7fff
  consistent : w.Consistent
  index_le : w.index ≤ w.array.size
  offset_le : w.offset ≤ w.array.data.length + 7

theorem isNullAt_eq {a : NdArray} (h : a.WellFormed) (i : Nat) :
    (isNullAt a i : Run ε Bool) = .ok (a.isNullAt i) := by
  unfold isNullAt NdArray.isNullAt
  cases hn : a.nulls with
  | none => rfl
  | some b => exact isNull_eq (h.exact hn) i

variable {w : Walk}

/-- One step of a walk never breaks off. -/
theorem next?_eq (h : Ready w) : (next? w.array.size w : Run ε _) = .ok w.next? := by
  unfold next? Walk.next?
  rw [sub_of_le h.index_le, ok_bind]
  split
  · next hlt =>
      have hsize := itemCount_le h.wellFormed.itemCount_dims
      have hmax : maxItems = 134217727 := by decide
      have hdata : maxDataSize = 0x3fffffff := rfl
      have hoffset := h.offset_le
      have hlen := h.wellFormed.length_data
      rw [word_of_lt (by omega), ok_bind, isNullAt_eq h.wellFormed, ok_bind]
      split
      · rfl
      · rw [fetch_eq h.len_le (by omega) (by omega), attempt_lift, ok_bind, Layout.fetch,
          ← h.consistent]
        cases hunpack : w.layout.unpack w.rest with
        | error e => rfl
        | ok element =>
            obtain ⟨x, taken⟩ := element
            have hrest : w.array.data.drop (w.layout.align.pad (w.offset + taken)) =
                (w.advance taken).rest := (h.consistent.advance taken).symm
            simp only [Except.map, hrest]
            rfl
  · rfl

/-- What holds of a walk holds after a step. -/
theorem Ready.of_next? (h : Ready w) {entry : Entry} {next : Walk}
    (hnext : w.next? = some (entry, next)) : Ready next ∧ next.array = w.array := by
  obtain ⟨hlt, hstep⟩ := Walk.next?_eq_some_iff.mp hnext
  cases hstep with
  | null => exact ⟨⟨h.wellFormed, h.len_le, h.consistent, hlt, h.offset_le⟩, rfl⟩
  | @present x taken _ hunpack =>
      obtain ⟨hpos, hle⟩ := Layout.taken_of_unpack hunpack
      have hpad := w.layout.align.pad_lt (w.offset + taken)
      have hwidth : w.layout.align.width ≤ 8 := by cases w.layout.align <;> decide
      rw [h.consistent, List.length_drop] at hle
      refine ⟨⟨h.wellFormed, h.len_le, h.consistent.advance taken, hlt, ?_⟩, rfl⟩
      -- what was taken lay in the data, so only its padding can lie past the end
      simp only [Walk.advance]
      omega
  | failed => exact ⟨⟨h.wellFormed, h.len_le, h.consistent, Nat.le_refl _, h.offset_le⟩, rfl⟩

theorem steps_eq (h : Ready w) (k : Nat) :
    (steps w.array.size k w : Run ε _) = .ok (w.steps k) := by
  induction k generalizing w with
  | zero => rfl
  | succ k ih =>
      rw [steps, next?_eq h, ok_bind, Walk.steps]
      cases hnext : w.next? with
      | none => rfl
      | some step =>
          obtain ⟨entry, next⟩ := step
          obtain ⟨hready, harray⟩ := h.of_next? hnext
          simp only
          rw [← harray, ih hready]
          rfl

/-- **Walks** never break off. -/
theorem entries_eq {a : NdArray} {l : Layout} (h : a.WellFormed) (hlen : l.len ≤ 0x7fff) :
    (entries a l : Run ε (List Entry)) = .ok (a.entries l) := by
  have hready : Ready (a.walk l) := ⟨h, hlen, rfl, Nat.zero_le _, Nat.zero_le _⟩
  rw [entries, size_eq h, ok_bind, show a.size = (a.walk l).array.size from rfl,
    steps_eq hready]
  rfl

/-- Every item, where a null is an error. -/
def toScalars (a : NdArray) (tag : Tag) (l : Layout) : Run ArrayError (List Scalar) := do
  lift (a.checkTag tag)
  let found ← entries a l
  lift (found.mapM NdArray.requirePresent)

theorem toScalars_eq {a : NdArray} {l : Layout} (h : a.WellFormed) (hlen : l.len ≤ 0x7fff)
    (tag : Tag) : toScalars a tag l = lift (a.toScalars tag l) := by
  refine bind_eq_lift rfl fun _ _ => ?_
  rw [entries_eq h hlen, ok_bind]

end Machine

end PackedArray
