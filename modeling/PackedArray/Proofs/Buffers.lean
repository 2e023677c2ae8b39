import PackedArray.Registry.Buffer
import PackedArray.Proofs.Readable
import PackedArray.Proofs.Reading
import PackedArray.Proofs.Machine.Calls

/-!
# PackedArray.Proofs.Buffers

What a call leaves in the caller's buffer.

The checks come in one order, and only a call that has passed all of them writes.  Items
are widened straight into the slots, so one that could not be would leave a buffer half
filled.  There is none: what has been read from a numeric array can always be widened.

* `widenInto_eq` — the loop fills the slots from the first on and leaves those behind;
* `NdArray.readInto_eq`, `NdArray.encodeInto_eq` — what is written is what the reply to
  the call tells;
* `Delivery.Delivers` — the whole answer or an untouched buffer, which
  `NdArray.Obtained.readInto_delivers` and `NdArray.encodeInto_delivers` establish;
* `Registry.run_fills_buffers` — what becomes of buffers, for every array that foreign
  callers have.
-/

namespace PackedArray

open NdArray (Obtained)

variable {α : Type}

/-! ## filling slots -/

theorem Scalar.widen_of_kind {tag : Tag} {k : Kind} (hk : tag.kind? = some k) (x : Scalar) :
    x.widen tag = .ok (x.toDouble k) := by
  rw [widen, Tag.kind_eq_ok_iff.mpr hk]
  rfl

/-- Scalars of a numeric kind fill the slots from `i` on, one after the other, and nothing
else is touched. -/
theorem widenInto_eq {tag : Tag} {k : Kind} (hk : tag.kind? = some k) {xs : List Scalar} {i : Nat}
    {slots : List Double} (hroom : i + xs.length ≤ slots.length) :
    widenInto tag xs i slots =
      (.ok (), slots.take i ++ xs.map (·.toDouble k) ++ slots.drop (i + xs.length)) := by
  induction xs generalizing i slots with
  | nil => simp [widenInto]
  | cons x xs ih =>
      rw [List.length_cons] at hroom
      have hlt : i < (slots.set i (x.toDouble k)).length := by
        rw [List.length_set]
        omega
      have htake : (slots.set i (x.toDouble k)).take (i + 1) = slots.take i ++ [x.toDouble k] := by
        rw [List.take_succ_eq_append_getElem hlt, List.getElem_set_self,
          List.take_set_of_le (Nat.le_refl i)]
      rw [widenInto, Scalar.widen_of_kind hk]
      simp only
      rw [ih (by rw [List.length_set]; omega), htake, List.drop_set_of_lt (by omega)]
      simp [Nat.add_assoc, Nat.add_comm 1]

/-! ## buffers and replies -/

/-- The caller has at least `cap` slots at the address, if there is one. -/
def HasRoom (cap : Nat) (buffer : Option (List α)) : Prop :=
  ∀ slots, buffer = some slots → cap ≤ slots.length

theorem HasRoom.mono {cap n : Nat} {buffer : Option (List α)} (h : HasRoom cap buffer)
    (hle : n ≤ cap) : HasRoom n buffer :=
  fun slots hslots => Nat.le_trans hle (h slots hslots)

/-- What the caller finds when `n` items were announced and the call came to a status.
Only success writes: the items to the first slots, and nothing behind them. -/
structure Delivery.Delivers (d : Delivery α) (status : Status) (n : Nat)
    (buffer : Option (List α)) (item : Nat → α → Prop) : Prop where
  count_eq : d.count = some n
  status_eq : d.status = status
  /-- A call that fails leaves the buffer as it was. -/
  kept : status ≠ .ok → d.buffer = buffer
  /-- A null address is not written to. -/
  absent : buffer = none → d.buffer = none
  filled : status = .ok → ∀ slots, buffer = some slots → ∃ slots',
    d.buffer = some slots' ∧ slots'.length = slots.length ∧
    (∀ i < n, ∃ v, slots'[i]? = some v ∧ item i v) ∧ ∀ i, n ≤ i → slots'[i]? = slots[i]?

/-- A reply as it is found in the caller's memory: what was written lies over the first
slots. -/
def Reply.deliver (reply : Reply) (written buffer : Option (List α)) : Delivery α where
  status := reply.status
  count := reply.count
  buffer := match written with
    | some xs => buffer.map fun slots => xs ++ slots.drop xs.length
    | none => buffer

/-- A reply that writes its items on success, and nothing else, delivers them. -/
theorem Reply.delivers {reply : Reply} {written buffer : Option (List α)} {n : Nat}
    {item : Nat → α → Prop} (hcount : reply.count = some n)
    (hfailed : reply.status ≠ .ok → written = none)
    (hok : reply.status = .ok → HasRoom n buffer ∧
      ∃ xs, written = some xs ∧ xs.length = n ∧ ∀ i v, xs[i]? = some v → item i v) :
    (reply.deliver written buffer).Delivers reply.status n buffer item where
  count_eq := hcount
  status_eq := rfl
  kept hstatus := by
    rw [hfailed hstatus]
    rfl
  absent hnone := by
    subst hnone
    cases written <;> rfl
  filled hstatus slots hslots := by
    obtain ⟨hroom, xs, rfl, hlen, hitems⟩ := hok hstatus
    have hle := hroom slots hslots
    subst hslots
    refine ⟨xs ++ slots.drop xs.length, rfl, ?_, fun i hi => ?_, fun i hi => ?_⟩
    · rw [List.length_append, List.length_drop]
      omega
    · have hlt : i < xs.length := by omega
      have hget := List.getElem?_eq_getElem hlt
      exact ⟨xs[i], by rw [List.getElem?_append_left hlt, hget], hitems i _ hget⟩
    · rw [List.getElem?_append_right (by omega), List.getElem?_drop]
      congr 1
      omega

/-- A reply without success tells a count at most. -/
theorem Reply.delivers_refused {s : Status} {n : Nat} {item : Nat → α → Prop} (h : s ≠ .ok)
    (buffer : Option (List α)) :
    (({ status := s, count := some n } : Reply).deliver none buffer).Delivers s n buffer item :=
  Reply.delivers rfl (fun _ => rfl) fun hok => absurd hok h

namespace NdArray

variable {a : NdArray} {cap : Nat} {k : Kind} {bytes : List UInt8}

/-! ## reading -/

/-- Only numeric arrays are read. -/
theorem readValues_of_kind_none (hk : a.tag.kind? = none) :
    Registry.readValues a = .error .unsupportedType := by
  unfold Registry.readValues
  rw [Tag.layout_of_kind_none hk]
  rfl

theorem length_of_toScalars {l : Layout} {xs : List Scalar} (h : a.toScalars a.tag l = .ok xs) :
    xs.length = a.size := by
  have hentries := toScalars_eq_ok_iff.mp h
  have hlen := length_entries (a := a) (l := l) fun e he => by
    rw [hentries] at he
    simp at he
  rw [← hlen, hentries, List.length_map]

/-- The scalars of a numeric array can all be widened. -/
theorem readValues_of_ok {xs : List Scalar} (hk : a.tag.kind? = some k)
    (hread : a.toScalars a.tag k.layout = .ok xs) :
    Registry.readValues a = .ok (xs.map (·.toDouble k)) := by
  have hwiden : xs.mapM (Scalar.widen · a.tag) = .ok (xs.map (·.toDouble k)) := by
    rw [mapM_eq_ok_iff, List.map_map]
    exact List.map_congr_left fun x _ => Scalar.widen_of_kind hk x
  unfold Registry.readValues
  rw [mapError_eq_ok_iff.mpr (Tag.layout_of_kind hk), ok_bind, mapError_eq_ok_iff.mpr hread,
    ok_bind]
  exact mapError_eq_ok_iff.mpr hwiden

theorem readValues_of_error {e : ArrayError} (hk : a.tag.kind? = some k)
    (hread : a.toScalars a.tag k.layout = .error e) :
    Registry.readValues a = .error e.status := by
  unfold Registry.readValues
  rw [mapError_eq_ok_iff.mpr (Tag.layout_of_kind hk), ok_bind, hread]
  rfl

/-- What is read into a buffer is what the reply tells. -/
theorem readInto_eq (a : NdArray) {buffer : Option (List Double)} (hroom : HasRoom cap buffer) :
    a.readInto cap buffer =
      let reply := Registry.readReply cap buffer.isSome a
      reply.deliver reply.values buffer := by
  unfold readInto Registry.readReply
  by_cases hcap : cap < a.size
  · simp only [if_pos hcap]
    rfl
  simp only [if_neg hcap]
  cases hk : a.tag.kind? with
  | none =>
      rw [readValues_of_kind_none hk, Tag.layout_of_kind_none hk]
      rfl
  | some k =>
      rw [Tag.layout_of_kind hk]
      cases hread : a.toScalars a.tag k.layout with
      | error e =>
          rw [readValues_of_error hk hread]
          simp only [hread]
          rfl
      | ok elems =>
          have hlen := length_of_toScalars hread
          rw [readValues_of_ok hk hread]
          simp only [hread]
          by_cases hsize : a.size = 0
          · -- nothing lies over the buffer
            rw [hsize] at hlen
            rw [List.eq_nil_of_length_eq_zero hlen]
            cases buffer <;> simp [hsize, Reply.deliver]
          cases buffer with
          | none => simp [hsize, Reply.deliver]
          | some slots =>
              have hle := hroom slots rfl
              have hfill : widenInto a.tag (elems.take a.size) 0 slots =
                  (.ok (), elems.map (·.toDouble k) ++ slots.drop elems.length) := by
                rw [List.take_of_length_le (Nat.le_of_eq hlen), widenInto_eq hk (by omega)]
                simp
              simp [hfill, hsize, Reply.deliver]

/-- The checks of a read into a buffer of `cap` places, in order. -/
def readStatus (a : NdArray) (cap : Nat) (buf : Bool) : Status :=
  if cap < a.size then .bufferTooSmall
  else if a.tag.isNumeric = false then .unsupportedType
  else if ∃ i < a.size, a.isNullAt i = true then .nullNotAllowed
  else if 0 < a.size ∧ buf = false then .invalidArgument
  else .ok

/-- Item `i` is present and widens to `v`. -/
def Widens (a : NdArray) (i : Nat) (v : Double) : Prop :=
  ∃ l x, a.tag.layout = .ok l ∧ (a.entries l)[i]? = some (.ok (some x)) ∧ x.widen a.tag = .ok v

/-- What was read without nulls is the items, widened. -/
theorem widens_of_toScalars {xs : List Scalar} (hk : a.tag.kind? = some k)
    (hread : a.toScalars a.tag k.layout = .ok xs) {i : Nat} {v : Double}
    (hi : (xs.map (·.toDouble k))[i]? = some v) : a.Widens i v := by
  rw [List.getElem?_map, Option.map_eq_some_iff] at hi
  obtain ⟨x, hx, rfl⟩ := hi
  refine ⟨k.layout, x, Tag.layout_of_kind hk, ?_, Scalar.widen_of_kind hk x⟩
  rw [toScalars_eq_ok_iff.mp hread, List.getElem?_map, hx]
  rfl

/-- **Reading into a buffer**: the checks come in order, and only when all have passed are
the items there, each widened. -/
theorem Obtained.readInto_delivers (h : Obtained Tag.Admits a) {buffer : Option (List Double)}
    (hroom : HasRoom cap buffer) :
    (a.readInto cap buffer).Delivers (a.readStatus cap buffer.isSome) a.size buffer a.Widens := by
  rw [readInto_eq a hroom, Registry.readReply, readStatus]
  by_cases hcap : cap < a.size
  · simp only [if_pos hcap]
    exact Reply.delivers_refused (by decide) _
  simp only [if_neg hcap]
  cases hk : a.tag.kind? with
  | none =>
      rw [readValues_of_kind_none hk, if_pos (by simp [Tag.isNumeric, hk])]
      exact Reply.delivers_refused (by decide) _
  | some k =>
      have herror := (h.readable hk).2.2
      rw [if_neg (by simp [Tag.isNumeric, hk])]
      cases hread : a.toScalars a.tag k.layout with
      | error e =>
          obtain ⟨rfl, hnull⟩ := (herror e).mp hread
          rw [readValues_of_error hk hread, if_pos hnull]
          exact Reply.delivers_refused (by decide) _
      | ok xs =>
          have hpresent : ¬∃ i < a.size, a.isNullAt i = true := fun hnull => by
            have hrefused := (herror _).mpr ⟨rfl, hnull⟩
            rw [hread] at hrefused
            contradiction
          rw [readValues_of_ok hk hread, if_neg hpresent]
          have hmissing : (a.size ≠ 0 && !buffer.isSome) = true ↔
              0 < a.size ∧ buffer.isSome = false := by simp [Nat.pos_iff_ne_zero]
          by_cases hbuf : 0 < a.size ∧ buffer.isSome = false
          · simp only [if_pos hbuf, if_pos (hmissing.mpr hbuf)]
            exact Reply.delivers_refused (by decide) _
          · simp only [if_neg hbuf, if_neg (mt hmissing.mp hbuf)]
            have hlen := length_of_toScalars hread
            exact Reply.delivers rfl (fun hfailed => absurd rfl hfailed) fun _ =>
              ⟨hroom.mono (Nat.le_of_not_lt hcap), _, rfl, by rw [List.length_map, hlen],
                fun i v => widens_of_toScalars hk hread⟩

/-! ## encoding -/

/-- What is encoded into a buffer is what the reply tells. -/
theorem encodeInto_eq (a : NdArray) (cap : Nat) (buffer : Option (List UInt8)) :
    a.encodeInto cap buffer =
      let reply := Registry.encodeReply cap buffer.isSome a
      reply.deliver reply.bytes buffer := by
  unfold encodeInto Registry.encodeReply
  cases a.encode with
  | error e => rfl
  | ok bytes =>
      simp only
      split
      · rfl
      · cases buffer with
        | none => rfl
        | some slots => simp [Reply.deliver, overwrite]

/-- The checks of an encoding of `n` bytes into a buffer of `cap` bytes, in order. -/
def encodeStatus (n cap : Nat) (buf : Bool) : Status :=
  if cap < n then .bufferTooSmall
  else if buf = false then .invalidArgument
  else .ok

theorem encodeInto_of_error {e : ArrayError} (h : a.encode = .error e) (cap : Nat)
    (buffer : Option (List UInt8)) : a.encodeInto cap buffer = .of e.status buffer := by
  rw [encodeInto, h]

/-- **Encoding into a buffer**: the length is told first, and the flat form is there when
it fits. -/
theorem encodeInto_delivers (h : a.encode = .ok bytes) {buffer : Option (List UInt8)}
    (hroom : HasRoom cap buffer) :
    (a.encodeInto cap buffer).Delivers (encodeStatus bytes.length cap buffer.isSome)
      bytes.length buffer (bytes[·]? = some ·) := by
  rw [encodeInto_eq, Registry.encodeReply, h, encodeStatus]
  by_cases hcap : cap < bytes.length
  · simp only [if_pos hcap]
    exact Reply.delivers_refused (by decide) _
  simp only [if_neg hcap]
  cases buffer with
  | none => exact Reply.delivers_refused (by decide) _
  | some slots =>
      exact Reply.delivers rfl (fun hfailed => absurd rfl hfailed) fun _ =>
        ⟨hroom.mono (Nat.le_of_not_lt hcap), bytes, rfl, rfl, fun i v hi => hi⟩

/-- A buffer of the length that was told takes the flat form and nothing else. -/
theorem encodeInto_of_told {buffer : Option (List UInt8)} {slots : List UInt8}
    (htold : (a.encodeInto 0 buffer).count = some slots.length) :
    ∃ bytes, a.encode = .ok bytes ∧ a.encodeInto slots.length (some slots) =
      { status := .ok, count := some slots.length, buffer := some bytes } := by
  cases hbytes : a.encode with
  | error e =>
      rw [encodeInto_of_error hbytes] at htold
      contradiction
  | ok bytes =>
      have hroom : HasRoom 0 buffer := fun _ _ => Nat.zero_le _
      rw [(encodeInto_delivers hbytes hroom).count_eq, Option.some.injEq] at htold
      refine ⟨bytes, rfl, ?_⟩
      simp [encodeInto, hbytes, htold, overwrite]

end NdArray

/-! ## calls -/

namespace Registry

open NdArray (encodeStatus)

variable {r : Registry} {handle : UInt64} {cap : Nat} {out : Bool}

/-- An array that writes what its reply tells still does so behind a handle. -/
theorem lend_eq {buffer : Option (List α)} {write : NdArray → Delivery α}
    {answer : NdArray → Reply} {written : Reply → Option (List α)}
    (hof : ∀ s, written (.of s) = none)
    (h : ∀ a, write a = (answer a).deliver (written (answer a)) buffer) :
    r.lend handle buffer out write =
      let reply := r.inquire handle out answer
      reply.deliver (written reply) buffer := by
  have hrefused (s : Status) :
      Delivery.of s buffer = (Reply.of s).deliver (written (.of s)) buffer := by
    rw [hof]
    rfl
  unfold lend inquire
  split
  · exact hrefused _
  · cases r.resolve handle with
    | error s => exact hrefused s
    | ok a => exact h a

/-- A read leaves the registry alone, and in the buffer the values that its reply tells. -/
theorem readInto_eq_call {buffer : Option (List Double)} (hroom : HasRoom cap buffer) :
    (r.call (.read handle cap buffer.isSome out)).1 = r ∧
      r.readInto handle cap buffer out =
        let reply := (r.call (.read handle cap buffer.isSome out)).2
        reply.deliver reply.values buffer :=
  ⟨rfl, lend_eq (fun _ => rfl) fun a => a.readInto_eq hroom⟩

/-- An encoding leaves the registry alone, and in the buffer the bytes that its reply tells. -/
theorem encodeInto_eq_call {buffer : Option (List UInt8)} :
    (r.call (.encode handle cap buffer.isSome out)).1 = r ∧
      r.encodeInto handle cap buffer out =
        let reply := (r.call (.encode handle cap buffer.isSome out)).2
        reply.deliver reply.bytes buffer :=
  ⟨rfl, lend_eq (fun _ => rfl) fun a => a.encodeInto_eq cap buffer⟩

/-- What comes of reading and encoding an array by its handle. -/
structure FillsBuffers (r : Registry) (handle : UInt64) (a : NdArray) : Prop where
  read : ∀ (cap : Nat) (buffer : Option (List Double)), HasRoom cap buffer →
    (r.readInto handle cap buffer true).Delivers (a.readStatus cap buffer.isSome) a.size buffer
      a.Widens
  encode : ∀ bytes, a.encode = .ok bytes →
    ∀ (cap : Nat) (buffer : Option (List UInt8)), HasRoom cap buffer →
      (r.encodeInto handle cap buffer true).Delivers
        (encodeStatus bytes.length cap buffer.isSome) bytes.length buffer (bytes[·]? = some ·)
  /-- No length is told of an array that has no flat form. -/
  refused : ∀ e, a.encode = .error e → ∀ (cap : Nat) (buffer : Option (List UInt8)),
    r.encodeInto handle cap buffer true = .of e.status buffer
  /-- A buffer of the length that a query told takes the flat form. -/
  queried : ∀ (buffer : Option (List UInt8)) (slots : List UInt8),
    (r.encodeInto handle 0 buffer true).count = some slots.length →
    ∃ bytes, a.encode = .ok bytes ∧ r.encodeInto handle slots.length (some slots) true =
      { status := .ok, count := some slots.length, buffer := some bytes }

/-- **Foreign buffers**: after any calls, every array that is behind a handle is read and
encoded into the caller's buffer as a whole or not at all.  The count is told first; the
checks come in order, and what is behind the count is left as it was. -/
theorem run_fills_buffers (calls : List Call) {handle : UInt64} {a : NdArray}
    (hlive : (empty.run calls).1.table.get? handle = some a) :
    (empty.run calls).1.FillsBuffers handle a := by
  have hsafe := safe_empty.run calls
  have hresolve : (empty.run calls).1.resolve handle = .ok a := by
    rw [resolve_eq hsafe.isOpen, hlive]
    rfl
  have hobtained := hsafe.obtained_of_resolve hresolve
  have hread (cap : Nat) (buffer : Option (List Double)) :
      (empty.run calls).1.readInto handle cap buffer true = a.readInto cap buffer := by
    simp [readInto, lend, hresolve]
  have hencode (cap : Nat) (buffer : Option (List UInt8)) :
      (empty.run calls).1.encodeInto handle cap buffer true = a.encodeInto cap buffer := by
    simp [encodeInto, lend, hresolve]
  constructor
  case read =>
    intro cap buffer hroom
    rw [hread]
    exact hobtained.readInto_delivers hroom
  case encode =>
    intro bytes hbytes cap buffer hroom
    rw [hencode]
    exact NdArray.encodeInto_delivers hbytes hroom
  case refused =>
    intro e he cap buffer
    rw [hencode]
    exact NdArray.encodeInto_of_error he cap buffer
  case queried =>
    intro buffer slots htold
    rw [hencode] at htold ⊢
    exact NdArray.encodeInto_of_told htold

/-- Two numbers in a buffer with a third slot, and the query before their flat form. -/
theorem run_fills_buffers_pair :
    let one : Double := ⟨0x3ff0000000000000⟩
    let two : Double := ⟨0x4000000000000000⟩
    let calls : List Call := [.create ⟨some [one, two], 2⟩ true]
    let a := NdArray.assemble Tag.float8 [2] [1] [false, false]
      [0, 0, 0, 0, 0, 0, 0xf0, 0x3f, 0, 0, 0, 0, 0, 0, 0, 0x40]
    let r := (empty.run calls).1
    r.table.get? 0 = some a ∧ r.FillsBuffers 0 a ∧
      r.readInto 0 3 (some [two, two, two]) true =
        { status := .ok, count := some 2, buffer := some [one, two, two] } ∧
      r.encodeInto 0 0 none true =
        { status := .bufferTooSmall, count := some 40, buffer := none } := by
  intro one two calls a r
  have hlive : r.table.get? 0 = some a := by decide +kernel
  exact ⟨hlive, run_fills_buffers calls hlive, by decide +kernel, by decide +kernel⟩

end Registry

end PackedArray
