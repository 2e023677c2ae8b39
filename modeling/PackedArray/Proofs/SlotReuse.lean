import PackedArray.Proofs.HandleRuns

/-!
# PackedArray.Proofs.SlotReuse

A handle table makes no more slots than it has to hold values at once.

The list of free indices and the slots tell the same: `HandleTable.Tidy` is kept by
every step (`Tidy.apply`).  So a slot is made only when every other one holds a
value, and the number of slots follows the number of live values upwards
(`Tidy.size_run`).

* `HandleTable.run_reuses` — what this comes to after any run.
-/

namespace PackedArray

variable {α : Type}

/-- Whether the slot holds a value. -/
def Slot.isLive : Slot α → Bool
  | live _ _ => true
  | _ => false

namespace HandleTable

variable {t next : HandleTable α} {v : α} {raw : UInt64} {i : Nat}

/-- The number of live values. -/
def live (t : HandleTable α) : Nat := t.slots.countP Slot.isLive

/-- The most values that are live at once, before the first operation or after any
of them. -/
def peak (t : HandleTable α) : List (Op α) → Nat
  | [] => t.live
  | op :: ops => max t.live ((t.apply op).1.peak ops)

/-- How many indices storing takes off the list before it stops: up to and with the
first one that names a vacant slot. -/
def popped (slots : Array (Slot α)) : List UInt32 → Nat
  | [] => 0
  | index :: rest =>
    match slots[index.toNat]? with
    | some (.vacant _) => 1
    | _ => popped slots rest + 1

def LiveAt (t : HandleTable α) (i : Nat) : Prop :=
  ∃ generation value, t.slots[i]? = some (.live generation value)

def VacantAt (t : HandleTable α) (i : Nat) : Prop :=
  ∃ generation, t.slots[i]? = some (.vacant generation)

/-- The list of free indices names the slot. -/
def FreeAt (t : HandleTable α) (i : Nat) : Prop := ∃ index ∈ t.free, index.toNat = i

/-- Some slot is out of generations. -/
def Exhausted (t : HandleTable α) : Prop := ∃ i : Nat, t.slots[i]? = some .retired

/-! ## free indices and vacant slots -/

/-- The free indices are those of the vacant slots, each of them once. -/
structure Tidy (t : HandleTable α) : Prop where
  nodup_free : t.free.Nodup
  freeAt_iff : ∀ i, t.FreeAt i ↔ t.VacantAt i

theorem tidy_empty : (empty : HandleTable α).Tidy where
  nodup_free := List.nodup_nil
  freeAt_iff := fun i => by simp [empty, FreeAt, VacantAt]

theorem freeAt_toNat_iff {index : UInt32} : t.FreeAt index.toNat ↔ index ∈ t.free := by
  simp [FreeAt, UInt32.toNat_inj]

/-- **What storing does to a tidy table**: it makes a slot if none is free, else it
fills the vacant slot that the first free index names. -/
theorem Tidy.insert_cases (h : t.Tidy) (v : α) :
    (t.free = [] ∧ (t.insert v).2 = ⟨t.slots.push (.live 0 v), []⟩) ∨
      ∃ index generation rest, t.free = index :: rest ∧
        t.slots[index.toNat]? = some (.vacant generation) ∧
        (t.insert v).2 = ⟨t.slots.setIfInBounds index.toNat (.live generation v), rest⟩ := by
  cases hfree : t.free with
  | nil =>
      refine .inl ⟨rfl, ?_⟩
      rw [HandleTable.insert, hfree]
      rfl
  | cons index rest =>
      have hmem : index ∈ t.free := hfree ▸ List.mem_cons_self
      obtain ⟨generation, hslot⟩ := (h.freeAt_iff _).mp (freeAt_toNat_iff.mpr hmem)
      refine .inr ⟨index, generation, rest, rfl, hslot, ?_⟩
      rw [HandleTable.insert, hfree, popVacant, hslot]

theorem Tidy.insert (h : t.Tidy) (v : α) : (t.insert v).2.Tidy := by
  obtain ⟨hfree, hnext⟩ | ⟨index, generation, rest, hfree, hslot, hnext⟩ := h.insert_cases v
  · refine hnext ▸ ⟨List.nodup_nil, fun i => ?_⟩
    have hbefore := h.freeAt_iff i
    simp only [FreeAt, VacantAt, hfree] at hbefore
    simp only [FreeAt, VacantAt, Array.getElem?_push, hbefore]
    split
    · next hi => simp [hi]
    · rfl
  · obtain ⟨hfilled, hrest⟩ := List.nodup_cons.mp (hfree ▸ h.nodup_free)
    refine hnext ▸ ⟨hrest, fun i => ?_⟩
    have hbefore := h.freeAt_iff i
    simp only [FreeAt, VacantAt, hfree, List.mem_cons, exists_eq_or_imp] at hbefore
    simp only [FreeAt, VacantAt, Array.getElem?_setIfInBounds]
    by_cases hi : index.toNat = i
    · -- the slot was filled, and its index stood on the list once
      have hlt : i < t.slots.size := hi ▸ (Array.getElem?_eq_some_iff.mp hslot).1
      have hgone : ¬∃ other ∈ rest, other.toNat = i := by
        rintro ⟨other, hother, hsame⟩
        exact hfilled (UInt32.toNat_inj.mp (hi.trans hsame.symm) ▸ hother)
      simp [hi, hlt, hgone]
    · simpa [hi] using hbefore

theorem Tidy.remove (h : t.Tidy) (hremove : t.remove? raw = some (v, next)) : next.Tidy := by
  obtain ⟨hget, hslots⟩ := slots_of_remove? hremove
  have hfree := free_of_remove? hremove
  have hlive := get?_eq_some_iff_slots.mp hget
  generalize Handle.ofRaw raw = handle at *
  have hfresh : handle.index ∉ t.free := by
    rw [← freeAt_toNat_iff, h.freeAt_iff, VacantAt, hlive]
    simp
  refine ⟨?_, fun i => ?_⟩
  · rw [hfree]
    split
    · exact h.nodup_free
    · exact List.nodup_cons.mpr ⟨hfresh, h.nodup_free⟩
  · have hbefore := h.freeAt_iff i
    simp only [FreeAt, VacantAt] at hbefore
    simp only [FreeAt, VacantAt, hfree, hslots, Slot.closed]
    by_cases hi : i = handle.index.toNat
    · subst hi
      have hother : ¬∃ index ∈ t.free, index.toNat = handle.index.toNat :=
        fun hmem => hfresh (freeAt_toNat_iff.mp hmem)
      split <;> simp [hother]
    · split <;> simp [Ne.symm hi, hbefore]

/-- **One step** keeps the list and the slots in step. -/
theorem Tidy.apply (h : t.Tidy) (op : Op α) : (t.apply op).1.Tidy := by
  cases op with
  | insert v => exact h.insert v
  | get raw => exact h
  | remove raw =>
      rw [HandleTable.apply]
      split
      · next hremove => exact h.remove hremove
      · exact h

theorem Tidy.run (h : t.Tidy) (ops : List (Op α)) : (t.run ops).1.Tidy := by
  induction ops generalizing t with
  | nil => exact h
  | cons op ops ih => exact ih (h.apply op)

/-! ## slots and live values -/

/-- A slot that is out of generations stays so. -/
theorem Tidy.exhausted_apply (h : t.Tidy) (op : Op α) (hex : t.Exhausted) :
    (t.apply op).1.Exhausted := by
  obtain ⟨i, hi⟩ := hex
  refine ⟨i, ?_⟩
  cases op with
  | insert v =>
      obtain ⟨-, hnext⟩ | ⟨index, generation, rest, -, hslot, hnext⟩ := h.insert_cases v
      · have hne : i ≠ t.slots.size := by
          rintro rfl
          simp at hi
        rw [HandleTable.apply, hnext, Array.getElem?_push, if_neg hne, hi]
      · have hne : index.toNat ≠ i := by
          rintro rfl
          simp [hi] at hslot
        rw [HandleTable.apply, hnext, Array.getElem?_setIfInBounds, if_neg hne, hi]
  | get raw => exact hi
  | remove raw =>
      rw [HandleTable.apply]
      split
      · next hremove =>
          obtain ⟨hget, hslots⟩ := slots_of_remove? hremove
          have hne : i ≠ (Handle.ofRaw raw).index.toNat := by
            rintro rfl
            simp [get?_eq_some_iff_slots.mp hget] at hi
          rw [hslots, if_neg hne, hi]
      · exact hi

theorem Tidy.exhausted_run (h : t.Tidy) (ops : List (Op α)) (hex : t.Exhausted) :
    (t.run ops).1.Exhausted := by
  induction ops generalizing t with
  | nil => exact hex
  | cons op ops ih => exact ih (h.apply op) (h.exhausted_apply op hex)

/-- Without exhausted slots, each one holds a value or is free. -/
theorem Tidy.liveAt_or_freeAt (h : t.Tidy) (hex : ¬t.Exhausted) (hi : i < t.slots.size) :
    t.LiveAt i ∨ t.FreeAt i := by
  rw [h.freeAt_iff, LiveAt, VacantAt, Array.getElem?_eq_getElem hi]
  cases hslot : t.slots[i] with
  | live generation value => simp
  | vacant generation => simp
  | retired => exact absurd ⟨i, by rw [Array.getElem?_eq_getElem hi, hslot]⟩ hex

theorem live_le_size (t : HandleTable α) : t.live ≤ t.slots.size := Array.countP_le_size

/-- Where no slot is free, each one holds a value. -/
theorem Tidy.live_eq_size (h : t.Tidy) (hex : ¬t.Exhausted) (hfree : t.free = []) :
    t.live = t.slots.size := by
  refine Array.countP_eq_size.mpr fun slot hmem => ?_
  obtain ⟨i, hi, rfl⟩ := Array.mem_iff_getElem.mp hmem
  obtain ⟨generation, value, hslot⟩ | hnone := h.liveAt_or_freeAt hex hi
  · rw [Array.getElem?_eq_getElem hi, Option.some.injEq] at hslot
    rw [hslot]
    rfl
  · simp [FreeAt, hfree] at hnone

/-- A step makes no slot, or it makes one and every slot holds a value after it. -/
theorem Tidy.size_apply (h : t.Tidy) (op : Op α) (hex : ¬(t.apply op).1.Exhausted) :
    (t.apply op).1.slots.size = t.slots.size ∨
      (t.apply op).1.live = (t.apply op).1.slots.size := by
  cases op with
  | insert v =>
      obtain ⟨-, hnext⟩ | ⟨index, generation, rest, -, -, hnext⟩ := h.insert_cases v
      · exact .inr ((h.insert v).live_eq_size hex (by rw [hnext]))
      · exact .inl (by simp [HandleTable.apply, hnext])
  | get raw => exact .inl rfl
  | remove raw =>
      rw [HandleTable.apply]
      split
      · next hremove => exact .inl (size_of_remove? hremove)
      · exact .inl rfl

theorem live_le_peak (t : HandleTable α) (ops : List (Op α)) : t.live ≤ t.peak ops := by
  cases ops with
  | nil => exact Nat.le_refl _
  | cons op ops => exact Nat.le_max_left _ _

/-- **Slots follow live values upwards**: a run makes slots only to hold more values at
once than ever before. -/
theorem Tidy.size_run (h : t.Tidy) (ops : List (Op α)) (hex : ¬(t.run ops).1.Exhausted) :
    (t.run ops).1.slots.size = max t.slots.size (t.peak ops) := by
  induction ops generalizing t with
  | nil => exact (Nat.max_eq_left (live_le_size t)).symm
  | cons op ops ih =>
      have hrest := ih (h.apply op) hex
      have hstep := h.size_apply op fun hnow => hex ((h.apply op).exhausted_run ops hnow)
      have hle := size_le_apply t op
      have hlive := live_le_size t
      have hpeak := live_le_peak (t.apply op).1 ops
      rw [HandleTable.run, peak]
      simp only
      omega

/-! ## indices that storing takes -/

/-- The indices that are looked at are taken off the list. -/
theorem length_popVacant (slots : Array (Slot α)) (free : List UInt32) :
    (popVacant slots free).elim 0 (fun found => found.2.2.length) + popped slots free =
      free.length := by
  induction free with
  | nil => rfl
  | cons index rest ih =>
      rw [popVacant, popped]
      cases hslot : slots[index.toNat]? with
      | none => exact congrArg (· + 1) ih
      | some slot =>
          cases slot with
          | vacant generation => rfl
          | live generation value => exact congrArg (· + 1) ih
          | retired => exact congrArg (· + 1) ih

theorem length_free_insert (t : HandleTable α) (v : α) :
    (t.insert v).2.free.length + popped t.slots t.free = t.free.length := by
  rw [← length_popVacant t.slots t.free, HandleTable.insert]
  cases popVacant t.slots t.free <;> rfl

/-- The first free index of a tidy table names a vacant slot, so that is all that
storing takes. -/
theorem Tidy.popped_le (h : t.Tidy) : popped t.slots t.free ≤ 1 := by
  cases hfree : t.free with
  | nil => exact Nat.zero_le _
  | cons index rest =>
      have hmem : index ∈ t.free := hfree ▸ List.mem_cons_self
      obtain ⟨generation, hslot⟩ := (h.freeAt_iff _).mp (freeAt_toNat_iff.mpr hmem)
      simp [popped, hslot]

/-! ## whatever is done -/

/-- No slot of the table is lost. -/
structure Lossless (t : HandleTable α) : Prop extends Tidy t where
  /-- Every slot holds a value or is free. -/
  liveAt_or_freeAt : ∀ i < t.slots.size, t.LiveAt i ∨ t.FreeAt i
  /-- Storing looks at one free index at most. -/
  popped_le : popped t.slots t.free ≤ 1
  /-- Storing takes the free index that it looks at off the list. -/
  length_free_insert : ∀ v, (t.insert v).2.free.length + popped t.slots t.free = t.free.length

/-- **Tables reuse their slots**: after any run from the empty table in which no slot
ran out of generations, no slot is lost, and as many were made as values were live at
once at most.  A slot that runs out stays so, hence the last table tells. -/
theorem run_reuses (ops : List (Op α))
    (hex : ¬((empty : HandleTable α).run ops).1.Exhausted) :
    ((empty : HandleTable α).run ops).1.Lossless ∧
      ((empty : HandleTable α).run ops).1.slots.size = (empty : HandleTable α).peak ops := by
  have h := tidy_empty.run ops
  refine ⟨⟨h, fun i => h.liveAt_or_freeAt hex, h.popped_le, length_free_insert _⟩, ?_⟩
  rw [tidy_empty.size_run ops hex]
  exact Nat.max_eq_right (Nat.zero_le _)

/-- Three values at most, though five were stored; a handle was removed twice, and one
by guess. -/
theorem run_reuses_thrice :
    let ops : List (Op Nat) := [.insert 10, .insert 20, .remove 0, .remove 0, .get 0,
      .remove 0x700000000, .insert 30, .insert 40, .remove 0x100000000, .remove 1, .insert 50]
    let t := ((empty : HandleTable Nat).run ops).1
    ¬t.Exhausted ∧ t.Lossless ∧ t.slots.size = (empty : HandleTable Nat).peak ops ∧
      t.slots.size = 3 ∧ t.free = [1] := by
  intro ops t
  have hex : ¬t.Exhausted := by
    rintro ⟨i, hi⟩
    have hretired : t.slots.toList.any (· matches .retired) = true :=
      List.any_eq_true.mpr ⟨_, Array.mem_toList_iff.mpr (Array.mem_of_getElem? hi), rfl⟩
    exact absurd hretired (by decide)
  obtain ⟨hlossless, hsize⟩ := run_reuses ops hex
  exact ⟨hex, hlossless, hsize, by decide, by decide⟩

end HandleTable

end PackedArray
