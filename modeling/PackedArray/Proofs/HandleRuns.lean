import PackedArray.Proofs.Handles

/-!
# PackedArray.Proofs.HandleRuns

Whatever is done to a handle table, its callers can count on their handles.

`HandleTable.run` does any number of things to a table and logs them.
`HandleTable.Tracks` relates a table to its log; every step keeps the two in
step (`Tracks.apply`), and so does every run (`Tracks.run`).

* `HandleTable.run_reliable` — what callers can count on after any run.
-/

namespace PackedArray

namespace HandleTable

variable {α : Type} {t : HandleTable α} {v : α} {raw : UInt64}

/-! ## runs -/

/-- What can be done to a table. -/
inductive Op (α : Type)
  | insert (value : α)
  | get (raw : UInt64)
  | remove (raw : UInt64)

/-- What was done to a table, and what came of it. -/
inductive Event (α : Type)
  | inserted (value : α) (raw : UInt64)
  | got (raw : UInt64) (found : Option α)
  | removed (raw : UInt64) (taken : Option α)
  deriving DecidableEq

def apply (t : HandleTable α) : Op α → HandleTable α × Event α
  | .insert v => ((t.insert v).2, .inserted v (t.insert v).1)
  | .get raw => (t, .got raw (t.get? raw))
  | .remove raw =>
    match t.remove? raw with
    | some (v, next) => (next, .removed raw (some v))
    | none => (t, .removed raw none)

/-- Do one thing after the other; the log has the earliest first. -/
def run (t : HandleTable α) : List (Op α) → HandleTable α × List (Event α)
  | [] => (t, [])
  | op :: ops =>
    let (next, event) := t.apply op
    let (last, log) := next.run ops
    (last, event :: log)

/-- Removing answers what resolving would. -/
theorem apply_remove_snd (t : HandleTable α) (raw : UInt64) :
    (t.apply (.remove raw)).2 = .removed raw (t.get? raw) := by
  rw [apply]
  split
  · next hremove => rw [(slots_of_remove? hremove).1]
  · next hremove => rw [remove?_eq_none_iff.mp hremove]

theorem spent_apply_remove (t : HandleTable α) (raw : UInt64) (h : Handle) :
    (t.apply (.remove raw)).1.Spent h ↔ t.Spent h := by
  rw [apply]
  split
  · next hremove => exact spent_of_remove?_iff hremove h
  · rfl

theorem get?_apply_remove (t : HandleTable α) (raw raw' : UInt64) :
    (t.apply (.remove raw)).1.get? raw' = if raw' = raw then none else t.get? raw' := by
  rw [apply]
  split
  · next hremove => exact get?_of_remove? hremove raw'
  · next hremove =>
      split
      · next hraw => rw [hraw, remove?_eq_none_iff.mp hremove]
      · rfl

/-- The handles that were issued, by a log. -/
def issued (log : List (Event α)) : List UInt64 :=
  log.filterMap fun
    | .inserted _ raw => some raw
    | _ => none

/-- By its log a table holds a value behind a handle: it was stored under the
handle, and the handle was not removed since. -/
def Stands (log : List (Event α)) (raw : UInt64) (v : α) : Prop :=
  ∃ before after, log = before ++ .inserted v raw :: after ∧ ∀ taken, .removed raw taken ∉ after

section Log

variable {log : List (Event α)} {e : Event α}

@[simp] theorem issued_append_inserted :
    issued (log ++ [.inserted v raw]) = issued log ++ [raw] :=
  List.filterMap_append

@[simp] theorem issued_append_got {found : Option α} :
    issued (log ++ [.got raw found]) = issued log := by
  simp [issued]

@[simp] theorem issued_append_removed {taken : Option α} :
    issued (log ++ [.removed raw taken]) = issued log := by
  simp [issued]

theorem Stands.mem_issued (h : Stands log raw v) : raw ∈ issued log := by
  obtain ⟨before, after, rfl, -⟩ := h
  simp [issued]

theorem stands_append_singleton :
    Stands (log ++ [e]) raw v ↔
      e = .inserted v raw ∨ Stands log raw v ∧ ∀ taken, e ≠ .removed raw taken := by
  constructor
  · rintro ⟨before, after, hlog, hafter⟩
    obtain rfl | ⟨after, last, rfl⟩ := List.eq_nil_or_concat after
    · obtain ⟨-, he⟩ := List.append_inj' hlog rfl
      exact .inl (List.singleton_inj.mp he)
    · rw [List.concat_eq_append] at hlog hafter
      rw [← List.cons_append, ← List.append_assoc] at hlog
      obtain ⟨rfl, he⟩ := List.append_inj' hlog rfl
      obtain rfl := List.singleton_inj.mp he
      refine .inr ⟨⟨before, after, rfl, fun taken hmem => ?_⟩, fun taken he => ?_⟩
      · exact hafter taken (List.mem_append_left _ hmem)
      · exact hafter taken (by simp [he])
  · rintro (rfl | ⟨⟨before, after, rfl, hafter⟩, he⟩)
    · exact ⟨log, [], rfl, by simp⟩
    · refine ⟨before, after ++ [e], by simp, fun taken hmem => ?_⟩
      obtain hmem | hmem := List.mem_append.mp hmem
      · exact hafter taken hmem
      · exact he taken (List.mem_singleton.mp hmem).symm

end Log

/-! ## tables and their logs -/

/-- Slots are made and never given up. -/
theorem size_le_apply (t : HandleTable α) (op : Op α) :
    t.slots.size ≤ (t.apply op).1.slots.size := by
  cases op with
  | insert v => exact size_le_insert t v
  | get raw => exact Nat.le_refl _
  | remove raw =>
      rw [apply]
      split
      · next hremove => exact Nat.le_of_eq (size_of_remove? hremove).symm
      · exact Nat.le_refl _

theorem size_le_run (t : HandleTable α) (ops : List (Op α)) :
    t.slots.size ≤ (t.run ops).1.slots.size := by
  induction ops generalizing t with
  | nil => exact Nat.le_refl _
  | cons op ops ih => exact Nat.le_trans (size_le_apply t op) (ih _)

/-- The log tells which handles were issued and what is behind each. -/
structure Tracks (t : HandleTable α) (log : List (Event α)) : Prop where
  nodup_issued : (issued log).Nodup
  spent_iff : ∀ raw, t.Spent (Handle.ofRaw raw) ↔ raw ∈ issued log
  get?_eq_some_iff : ∀ raw v, t.get? raw = some v ↔ Stands log raw v

theorem tracks_empty : (empty : HandleTable α).Tracks [] where
  nodup_issued := List.nodup_nil
  spent_iff := fun raw => by simp [Spent, opened, empty, issued]
  get?_eq_some_iff := fun raw v => by simp [get?, empty, Stands]

section Log

variable {log : List (Event α)}

/-- Storing a value keeps table and log in step. -/
theorem Tracks.insert (h : t.Tracks log) (hroom : t.slots.size < UInt32.size) (v : α) :
    (t.insert v).2.Tracks (log ++ [.inserted v (t.insert v).1]) := by
  have hfresh : (t.insert v).1 ∉ issued log := by
    rw [← h.spent_iff]
    exact not_spent_insert v hroom
  refine ⟨?_, fun raw => ?_, fun raw w => ?_⟩
  · rw [issued_append_inserted, List.nodup_append]
    refine ⟨h.nodup_issued, by simp, fun raw hraw raw' hraw' heq => ?_⟩
    rw [heq, List.mem_singleton.mp hraw'] at hraw
    exact hfresh hraw
  · rw [spent_insert_iff v hroom, h.spent_iff, issued_append_inserted, List.mem_append,
      List.mem_singleton]
  · rw [get?_insert v hroom, stands_append_singleton]
    by_cases hraw : raw = (t.insert v).1
    · subst hraw
      have hnot : ¬Stands log (t.insert v).1 w := fun hs => hfresh hs.mem_issued
      simp [hnot]
    · simp [hraw, h.get?_eq_some_iff, eq_comm (b := raw)]

/-- Removing a value, or trying to, keeps table and log in step. -/
theorem Tracks.remove (h : t.Tracks log) (raw : UInt64) :
    (t.apply (.remove raw)).1.Tracks (log ++ [.removed raw (t.get? raw)]) := by
  refine ⟨?_, fun raw' => ?_, fun raw' w => ?_⟩
  · rw [issued_append_removed]
    exact h.nodup_issued
  · rw [spent_apply_remove, h.spent_iff, issued_append_removed]
  · rw [get?_apply_remove, stands_append_singleton]
    by_cases hraw : raw' = raw
    · simp [hraw]
    · simp [hraw, h.get?_eq_some_iff, eq_comm (b := raw')]

/-- **One step**: whatever is done, table and log stay in step while there are
slots to be made. -/
theorem Tracks.apply (h : t.Tracks log) (hroom : t.slots.size < UInt32.size) (op : Op α) :
    (t.apply op).1.Tracks (log ++ [(t.apply op).2]) := by
  cases op with
  | insert v => exact h.insert hroom v
  | get raw =>
      refine ⟨?_, fun raw' => ?_, fun raw' w => ?_⟩
      · simpa [HandleTable.apply] using h.nodup_issued
      · simpa [HandleTable.apply] using h.spent_iff raw'
      · simpa [HandleTable.apply, stands_append_singleton] using h.get?_eq_some_iff raw' w
  | remove raw =>
      rw [apply_remove_snd]
      exact h.remove raw

theorem Tracks.run (h : t.Tracks log) (ops : List (Op α))
    (hroom : (t.run ops).1.slots.size < UInt32.size) :
    (t.run ops).1.Tracks (log ++ (t.run ops).2) := by
  induction ops generalizing t log with
  | nil => simpa [HandleTable.run] using h
  | cons op ops ih =>
      have hstep := h.apply (Nat.lt_of_le_of_lt (size_le_run t (op :: ops)) hroom) op
      have hrest := ih hstep hroom
      rwa [List.append_assoc] at hrest

end Log

/-! ## whatever is done -/

/-- The handle that an event is about. -/
def Event.handle : Event α → UInt64
  | .inserted _ raw | .got raw _ | .removed raw _ => raw

/-- Only the handle that it is about can resolve to something else after a
step. -/
theorem get?_apply_of_ne (hroom : t.slots.size < UInt32.size) {op : Op α}
    (hne : raw ≠ (t.apply op).2.handle) : (t.apply op).1.get? raw = t.get? raw := by
  cases op with
  | insert v => exact (get?_insert v hroom raw).trans (if_neg hne)
  | get raw' => rfl
  | remove raw' =>
      rw [apply_remove_snd] at hne
      exact (get?_apply_remove t raw' raw).trans (if_neg hne)

/-- A handle that was issued and resolves to nothing is not issued again. -/
theorem get?_run_of_spent (ops : List (Op α)) (hroom : (t.run ops).1.slots.size < UInt32.size)
    (hspent : t.Spent (Handle.ofRaw raw)) (hnone : t.get? raw = none) :
    (t.run ops).1.get? raw = none := by
  induction ops generalizing t with
  | nil => exact hnone
  | cons op ops ih =>
      have hsize := Nat.lt_of_le_of_lt (size_le_run t (op :: ops)) hroom
      refine ih hroom ?_ ?_
      · cases op with
        | insert v => exact (spent_insert_iff v hsize raw).mpr (.inl hspent)
        | get raw' => exact hspent
        | remove raw' => exact (spent_apply_remove t raw' _).mpr hspent
      · cases op with
        | insert v =>
            have hne : raw ≠ (t.insert v).1 := by
              rintro rfl
              exact not_spent_insert v hsize hspent
            exact (get?_insert v hsize raw).trans ((if_neg hne).trans hnone)
        | get raw' => exact hnone
        | remove raw' => exact (get?_apply_remove t raw' raw).trans (by rw [hnone, ite_self])

/-- What callers can count on once `log` has been done to a table. -/
structure Reliable (t : HandleTable α) (log : List (Event α)) : Prop where
  /-- No handle was issued twice. -/
  nodup_issued : (issued log).Nodup
  /-- A handle resolves to what was stored under it and not removed since, and
  to nothing else. -/
  get?_eq_some_iff : ∀ raw v, t.get? raw = some v ↔ Stands log raw v
  /-- Removing answers what resolving would. -/
  taken : ∀ raw, (t.apply (.remove raw)).2 = .removed raw (t.get? raw)
  /-- Whatever is done after a handle was issued and removed, it resolves to
  nothing. -/
  dead : ∀ raw ∈ issued log, ∀ ops, let last := ((t.apply (.remove raw)).1.run ops).1
    last.slots.size < UInt32.size → last.get? raw = none
  /-- A step changes nothing behind any handle but its own. -/
  frame : ∀ op raw, raw ≠ (t.apply op).2.handle → (t.apply op).1.get? raw = t.get? raw

/-- **Tables are maps whose keys are used once**: at the end of any run from the
empty table, while slots can be numbered, and so at any point of it. -/
theorem run_reliable (ops : List (Op α))
    (hroom : ((empty : HandleTable α).run ops).1.slots.size < UInt32.size) :
    ((empty : HandleTable α).run ops).1.Reliable ((empty : HandleTable α).run ops).2 := by
  have h := tracks_empty.run ops hroom
  rw [List.nil_append] at h
  refine ⟨h.nodup_issued, h.get?_eq_some_iff, apply_remove_snd _, fun raw hraw ops' hlast => ?_,
    fun op raw hne => get?_apply_of_ne hroom hne⟩
  refine get?_run_of_spent ops' hlast ?_ ?_
  · exact (spent_apply_remove _ raw _).mpr ((h.spent_iff raw).mpr hraw)
  · exact (get?_apply_remove _ raw raw).trans (if_pos rfl)

/-- The slot of a removed value is used again, by another handle. -/
theorem run_reliable_reused :
    let ops : List (Op Nat) := [.insert 10, .insert 20, .remove 0, .insert 30, .get 0]
    let r := (empty : HandleTable Nat).run ops
    r.1.slots.size < UInt32.size ∧ r.1.Reliable r.2 ∧
      r.2 = [.inserted 10 0, .inserted 20 0x100000000, .removed 0 (some 10), .inserted 30 1,
        .got 0 none] := by
  intro ops r
  have hroom : r.1.slots.size < UInt32.size := by decide
  exact ⟨hroom, run_reliable ops hroom, by decide⟩

end HandleTable

end PackedArray
