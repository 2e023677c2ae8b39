import PackedArray.Proofs.Calls

/-!
# PackedArray.Proofs.CallRuns

Whatever foreign callers do, each of their calls keeps to its contract.

A transcript pairs calls with the replies to them; it says which handles were
issued and which were destroyed.  `Registry.Tracks` relates a registry to its
transcript; every call keeps the two in step (`Tracks.step`), and so does every
run (`Tracks.run`).

* `Registry.contract_run` — after any calls the registry is a map from the handles
  in use to arrays, and the next call changes it as its kind allows.
-/

namespace PackedArray

namespace Registry

variable {r next : Registry} {c : Call} {reply : Reply} {h : UInt64}
  {log : List (Call × Reply)}

/-! ## transcripts -/

/-- Calls, the earliest first, with the replies to them. -/
def transcript (r : Registry) (calls : List Call) : List (Call × Reply) :=
  calls.zip (r.run calls).2

/-- By the transcript a call answered with this handle. -/
def Issued (log : List (Call × Reply)) (h : UInt64) : Prop :=
  ∃ entry ∈ log, entry.2.handle = some h

/-- By the transcript what was behind the handle was destroyed. -/
def Destroyed (log : List (Call × Reply)) (h : UInt64) : Prop :=
  ∃ entry ∈ log, entry.1 = .destroy h ∧ entry.2.status = .ok

/-- By the transcript there is an array behind the handle. -/
def InUse (log : List (Call × Reply)) (h : UInt64) : Prop := Issued log h ∧ ¬Destroyed log h

theorem issued_append_singleton :
    Issued (log ++ [(c, reply)]) h ↔ Issued log h ∨ reply.handle = some h := by
  simp [Issued, or_and_right, exists_or]

theorem destroyed_append_singleton :
    Destroyed (log ++ [(c, reply)]) h ↔
      Destroyed log h ∨ c = .destroy h ∧ reply.status = .ok := by
  simp [Destroyed, or_and_right, exists_or]

theorem destroyed_cons :
    Destroyed ((c, reply) :: log) h ↔
      c = .destroy h ∧ reply.status = .ok ∨ Destroyed log h := by
  simp [Destroyed]

/-! ## registries and their transcripts -/

theorem isSealed_run (hopen : r.isSealed = false) (calls : List Call) :
    (r.run calls).1.isSealed = false := by
  induction calls generalizing r with
  | nil => exact hopen
  | cons c calls ih => exact ih ((effect_call hopen c).isSealed_eq.trans hopen)

theorem ok_or_isRefusal_of_mem_run (hopen : r.isSealed = false) {calls : List Call}
    (hmem : reply ∈ (r.run calls).2) : reply.status = .ok ∨ reply.status.isRefusal = true := by
  induction calls generalizing r with
  | nil => contradiction
  | cons c calls ih =>
      have heffect := effect_call hopen c
      obtain rfl | hmem := List.mem_cons.mp hmem
      · exact heffect.ok_or_isRefusal
      · exact ih (heffect.isSealed_eq.trans hopen) hmem

theorem size_le_run (hopen : r.isSealed = false) (calls : List Call) :
    r.table.slots.size ≤ (r.run calls).1.table.slots.size := by
  induction calls generalizing r with
  | nil => exact Nat.le_refl _
  | cons c calls ih =>
      have heffect := effect_call hopen c
      exact Nat.le_trans heffect.size_le (ih (heffect.isSealed_eq.trans hopen))

/-- The transcript tells which handles were issued and which are in use. -/
structure Tracks (r : Registry) (log : List (Call × Reply)) : Prop where
  isOpen : r.isSealed = false
  spent_iff : ∀ h, r.table.Spent (Handle.ofRaw h) ↔ Issued log h
  issued_of_destroyed : ∀ h, Destroyed log h → Issued log h
  isSome_get?_iff : ∀ h, (r.table.get? h).isSome ↔ InUse log h

theorem tracks_empty : empty.Tracks [] where
  isOpen := rfl
  spent_iff := fun h => by simp [HandleTable.Spent, HandleTable.opened, empty, Issued]
  issued_of_destroyed := fun h => by simp [Destroyed]
  isSome_get?_iff := fun h => by simp [HandleTable.get?, empty, InUse, Issued]

/-- A call that issues and destroys nothing keeps registry and transcript in step. -/
theorem Tracks.keep (ht : r.Tracks log) (hnone : reply.handle = none)
    (hkeep : ∀ h, ¬(c = .destroy h ∧ reply.status = .ok)) : r.Tracks (log ++ [(c, reply)]) := by
  refine ⟨ht.isOpen, fun h => ?_, fun h hd => ?_, fun h => ?_⟩
  · simpa [issued_append_singleton, hnone] using ht.spent_iff h
  · simp only [destroyed_append_singleton, hkeep, or_false] at hd
    exact issued_append_singleton.mpr (.inl (ht.issued_of_destroyed h hd))
  · simpa [InUse, issued_append_singleton, destroyed_append_singleton, hnone, hkeep] using
      ht.isSome_get?_iff h

/-- Publishing an array keeps registry and transcript in step. -/
theorem Tracks.publish (ht : r.Tracks log) (hroom : r.table.slots.size < UInt32.size)
    (hc : c.makes = true) (a : NdArray) :
    { r with table := (r.table.insert a).2 : Registry }.Tracks
      (log ++ [(c, { status := .ok, handle := some (r.table.insert a).1 })]) := by
  have hkeep (h : UInt64) : c ≠ .destroy h := by
    rintro rfl
    contradiction
  have hfresh : ¬Issued log (r.table.insert a).1 := by
    rw [← ht.spent_iff]
    exact HandleTable.not_spent_insert a hroom
  refine ⟨ht.isOpen, fun h => ?_, fun h hd => ?_, fun h => ?_⟩
  · rw [HandleTable.spent_insert_iff a hroom, ht.spent_iff, issued_append_singleton,
      Option.some.injEq, eq_comm]
  · simp only [destroyed_append_singleton, hkeep, false_and, or_false] at hd
    exact issued_append_singleton.mpr (.inl (ht.issued_of_destroyed h hd))
  · rw [HandleTable.get?_insert a hroom]
    simp only [InUse, issued_append_singleton, destroyed_append_singleton, hkeep, false_and,
      or_false, Option.some.injEq]
    split
    · next hh =>
        subst hh
        simpa using fun hd => hfresh (ht.issued_of_destroyed _ hd)
    · next hh => simpa [Ne.symm hh, InUse] using ht.isSome_get?_iff h

/-- Destroying an array keeps registry and transcript in step. -/
theorem Tracks.destroy {a : NdArray} {table : HandleTable NdArray} (ht : r.Tracks log)
    (hremove : r.table.remove? h = some (a, table)) :
    { r with table : Registry }.Tracks (log ++ [(.destroy h, .of .ok)]) := by
  have hhandle : (Reply.of .ok).handle = none := rfl
  have hstatus : (Reply.of .ok).status = .ok := rfl
  have hissued : ∀ h', Issued (log ++ [(.destroy h, .of .ok)]) h' ↔ Issued log h' := fun h' => by
    simp [issued_append_singleton, hhandle]
  have hdestroyed : ∀ h', Destroyed (log ++ [(.destroy h, .of .ok)]) h' ↔
      Destroyed log h' ∨ h = h' := fun h' => by
    rw [destroyed_append_singleton, Call.destroy.injEq, and_iff_left hstatus]
  refine ⟨ht.isOpen, fun h' => ?_, fun h' hd => ?_, fun h' => ?_⟩
  · rw [HandleTable.spent_of_remove?_iff hremove, ht.spent_iff, hissued]
  · rw [hissued]
    obtain hd | rfl := (hdestroyed h').mp hd
    · exact ht.issued_of_destroyed h' hd
    · -- what was destroyed was there, so its handle was issued
      have hget := (HandleTable.slots_of_remove? hremove).1
      exact ((ht.isSome_get?_iff h).mp (by rw [hget]; rfl)).1
  · rw [HandleTable.get?_of_remove? hremove, InUse, hissued, hdestroyed]
    split
    · next hh => simp [hh]
    · next hh => simpa [Ne.symm hh, InUse] using ht.isSome_get?_iff h'

/-- **One step**: whatever a call does, registry and transcript stay in step
while there are slots to be made. -/
theorem Tracks.step (ht : r.Tracks log) (he : Effect r c next reply)
    (hroom : next.table.slots.size < UInt32.size) : next.Tracks (log ++ [(c, reply)]) := by
  have hbefore := Nat.lt_of_le_of_lt he.size_le hroom
  cases he with
  | refused hrefusal hnone =>
      exact ht.keep hnone fun h hok => Status.ne_ok_of_isRefusal hrefusal hok.2
  | answered hasks _ hnone =>
      refine ht.keep hnone fun h hok => ?_
      rw [hok.1] at hasks
      contradiction
  | made a hmakes => exact ht.publish hbefore hmakes a
  | destroyed hc hremove =>
      subst hc
      exact ht.destroy hremove

theorem Tracks.run (ht : r.Tracks log) (calls : List Call)
    (hroom : (r.run calls).1.table.slots.size < UInt32.size) :
    (r.run calls).1.Tracks (log ++ r.transcript calls) := by
  induction calls generalizing r log with
  | nil => simpa [run, transcript] using ht
  | cons c calls ih =>
      have heffect := effect_call ht.isOpen c
      have hopen := heffect.isSealed_eq.trans ht.isOpen
      have hstep := ht.step heffect (Nat.lt_of_le_of_lt (size_le_run hopen calls) hroom)
      have hrest := ih hstep hroom
      rwa [List.append_assoc] at hrest

/-! ## whatever is called -/

/-- An array stays behind its handle, unless the call destroys it. -/
theorem Tracks.get?_call {a : NdArray} (ht : r.Tracks log) (hget : r.table.get? h = some a)
    (c : Call) (hroom : (r.call c).1.table.slots.size < UInt32.size) :
    (r.call c).1.table.get? h = some a ∨ c = .destroy h ∧ (r.call c).2.status = .ok := by
  have hissued : Issued log h := ((ht.isSome_get?_iff h).mp (by rw [hget]; rfl)).1
  have heffect := effect_call ht.isOpen c
  generalize r.call c = outcome at *
  obtain ⟨next, reply⟩ := outcome
  have hbefore := Nat.lt_of_le_of_lt heffect.size_le hroom
  cases heffect with
  | refused | answered => exact .inl hget
  | made a' =>
      have hne : h ≠ (r.table.insert a').1 := by
        rintro rfl
        exact HandleTable.not_spent_insert a' hbefore ((ht.spent_iff _).mpr hissued)
      exact .inl ((HandleTable.get?_insert a' hbefore h).trans ((if_neg hne).trans hget))
  | @destroyed h' _ _ hc hremove =>
      by_cases hh : h = h'
      · exact .inr ⟨hh ▸ hc, rfl⟩
      · exact .inl ((HandleTable.get?_of_remove? hremove h).trans ((if_neg hh).trans hget))

/-- An array stays behind its handle until it is destroyed. -/
theorem Tracks.get?_run {a : NdArray} (ht : r.Tracks log) (hget : r.table.get? h = some a)
    (calls : List Call) (hroom : (r.run calls).1.table.slots.size < UInt32.size) :
    (r.run calls).1.table.get? h = some a ∨ Destroyed (r.transcript calls) h := by
  induction calls generalizing r log with
  | nil => exact .inl hget
  | cons c calls ih =>
      have heffect := effect_call ht.isOpen c
      have hopen := heffect.isSealed_eq.trans ht.isOpen
      have hsize := Nat.lt_of_le_of_lt (size_le_run hopen calls) hroom
      obtain hnext | hd := ht.get?_call hget c hsize
      · exact (ih (ht.step heffect hsize) hnext hroom).imp_right fun hd =>
          destroyed_cons.mpr (.inr hd)
      · exact .inr (destroyed_cons.mpr (.inl hd))

/-- What callers can count on when `c` is called after the calls of a
transcript. -/
structure Contract (r : Registry) (log : List (Call × Reply)) (c : Call) : Prop where
  /-- There is an array behind the handles in use, and behind no others. -/
  isSome_get?_iff : ∀ h, (r.table.get? h).isSome ↔ InUse log h
  /-- An array stays what it is until its handle is destroyed. -/
  stays : ∀ h a, r.table.get? h = some a → ∀ calls, let last := (r.run calls).1
    last.table.slots.size < UInt32.size →
      last.table.get? h = some a ∨ Destroyed (r.transcript calls) h
  /-- A call that fails changes nothing and issues no handle. -/
  failed : (r.call c).2.status ≠ .ok → (r.call c).1 = r ∧ (r.call c).2.handle = none
  /-- A call that makes an array puts it behind a new handle. -/
  made : c.makes = true → (r.call c).2.status = .ok →
    ∃ h a, (r.call c).2.handle = some h ∧ ¬Issued log h ∧
      ∀ h', (r.call c).1.table.get? h' = if h' = h then some a else r.table.get? h'
  /-- A handle in use, and no other, can be destroyed; that clears it and no
  other. -/
  destroyed : ∀ h, c = .destroy h → ((r.call c).2.status = .ok ↔ InUse log h) ∧
    ((r.call c).2.status = .ok →
      ∀ h', (r.call c).1.table.get? h' = if h' = h then none else r.table.get? h')
  /-- A question changes nothing. -/
  asked : c.asks = true → (r.call c).1 = r
  /-- A handle that is not in use is told so. -/
  dead : ∀ h ∈ c.handles, ¬InUse log h → c.hasOut = true →
    (r.call c).2.status = .invalidHandle

theorem Tracks.contract (ht : r.Tracks log) (c : Call)
    (hroom : (r.call c).1.table.slots.size < UInt32.size) : r.Contract log c := by
  have heffect := effect_call ht.isOpen c
  have hbefore := Nat.lt_of_le_of_lt heffect.size_le hroom
  refine ⟨ht.isSome_get?_iff, fun h a hget calls => ht.get?_run hget calls, fun hstatus => ?_,
    fun hmakes hok => ?_, fun h hc => ?_, fun hasks => ?_, fun h hmem hdead => ?_⟩
  · exact heffect.of_failed hstatus
  · obtain ⟨a, hhandle, hnext⟩ := heffect.of_makes hmakes hok
    refine ⟨_, a, hhandle, ?_, fun h' => ?_⟩
    · rw [← ht.spent_iff]
      exact HandleTable.not_spent_insert a hbefore
    · rw [hnext]
      exact HandleTable.get?_insert a hbefore h'
  · subst hc
    refine ⟨(status_destroy_eq_ok_iff ht.isOpen h).trans (ht.isSome_get?_iff h), fun hok => ?_⟩
    obtain ⟨a, hremove⟩ := heffect.of_destroy hok
    exact HandleTable.get?_of_remove? hremove
  · exact heffect.of_asks hasks
  · refine status_of_dead ht.isOpen hmem ?_
    rwa [← Option.not_isSome_iff_eq_none, ht.isSome_get?_iff]

/-- **Every call keeps to its contract**: a registry that starts empty is a map
from the handles in use to arrays, which a call changes as its kind allows, as
long as slots can be numbered. -/
theorem contract_run (calls : List Call) (c : Call)
    (hroom : ((empty.run calls).1.call c).1.table.slots.size < UInt32.size) :
    (empty.run calls).1.Contract (empty.transcript calls) c := by
  have heffect := effect_call (isSealed_run (r := empty) rfl calls) c
  exact (tracks_empty.run calls (Nat.lt_of_le_of_lt heffect.size_le hroom)).contract c hroom

/-- A product outlives the array that it was made from; the dead handle is told
so, although the live one comes first. -/
theorem contract_run_dead_second :
    let calls : List Call := [.create ⟨some [⟨0x3ff0000000000000⟩], 1⟩ true,
      .scalarMult 0 ⟨0x4000000000000000⟩ true, .destroy 0]
    let c : Call := .dot 0x100000000 0 true
    ((empty.run calls).1.call c).1.table.slots.size < UInt32.size ∧
      (empty.run calls).1.Contract (empty.transcript calls) c ∧
      (empty.run calls).2.map Reply.handle = [some 0, some 0x100000000, none] ∧
      ((empty.run calls).1.call c).2.status = .invalidHandle := by
  intro calls c
  have hroom : ((empty.run calls).1.call c).1.table.slots.size < UInt32.size := by decide +kernel
  exact ⟨hroom, contract_run calls c hroom, by decide +kernel, by decide +kernel⟩

end Registry

end PackedArray
