import PackedArray.Registry.HandleTable

/-!
# PackedArray.Proofs.Handles

A handle table is a map whose keys are used once.

The slots say which handles have been issued: of each slot the generations
below `HandleTable.opened`, and no others.  Storing a value issues the next
generation of some slot, removing one issues nothing, and neither touches
another slot (`slots_insert`, `slots_of_remove?`).

* `not_spent_insert` — the handle of a stored value was not issued before;
* `get?_insert`, `get?_of_remove?` — tables have the equations of a map.
-/

namespace PackedArray

namespace Handle

/-- A number is that of the handle it stands for. -/
@[simp] theorem toRaw_ofRaw (raw : UInt64) : (ofRaw raw).toRaw = raw := by
  have hlt := raw.toNat_lt
  have hindex : raw.toNat / 0x100000000 < UInt32.size := by
    unfold UInt32.size
    omega
  have hgeneration : raw.toNat % 0x100000000 < UInt32.size :=
    Nat.mod_lt _ (by decide)
  simp only [ofRaw, toRaw, UInt32.toNat_ofNat_of_lt' hindex, UInt32.toNat_ofNat_of_lt' hgeneration,
    Nat.div_add_mod', UInt64.ofNat_toNat]

/-- Handles of one slot and one generation are one handle. -/
theorem eq_iff {h h' : Handle} :
    h = h' ↔ h.index.toNat = h'.index.toNat ∧ h.generation.toNat = h'.generation.toNat := by
  rw [UInt32.toNat_inj, UInt32.toNat_inj]
  cases h
  cases h'
  simp

/-- Numbers that stand for one handle are one number. -/
theorem ofRaw_inj {raw raw' : UInt64} : ofRaw raw = ofRaw raw' ↔ raw = raw' := by
  constructor
  · intro h
    rw [← toRaw_ofRaw raw, h, toRaw_ofRaw]
  · rintro rfl
    rfl

end Handle

variable {α : Type}

namespace Slot

/-- The first generation of a slot that was not issued yet. -/
def opened : Slot α → Nat
  | live generation _ => generation.toNat + 1
  | vacant next => next.toNat
  | retired => UInt32.size

/-- What is left of a slot whose value of this generation was removed. -/
def closed (generation : UInt32) : Slot α :=
  if generation.toNat + 1 = UInt32.size then retired else vacant (generation + 1)

@[simp] theorem opened_closed (generation : UInt32) :
    (closed generation : Slot α).opened = generation.toNat + 1 := by
  have hlt := generation.toNat_lt
  unfold closed
  split
  · next hlast => exact hlast.symm
  · next hlast =>
      unfold UInt32.size at hlast
      rw [opened, UInt32.toNat_add, UInt32.toNat_one]
      omega

theorem closed_ne_live (generation : UInt32) (generation' : UInt32) (v : α) :
    closed generation ≠ live generation' v := by
  unfold closed
  split <;> simp

end Slot

namespace HandleTable

variable {t next : HandleTable α} {v : α} {raw raw' : UInt64}

/-! ## slots -/

/-- How many generations of the slot at an index were issued. -/
def opened (t : HandleTable α) (i : Nat) : Nat := t.slots[i]?.elim 0 Slot.opened

/-- The handle was issued at some time. -/
def Spent (t : HandleTable α) (h : Handle) : Prop := h.generation.toNat < t.opened h.index.toNat

theorem get?_eq_some_iff_slots :
    t.get? raw = some v ↔
      t.slots[(Handle.ofRaw raw).index.toNat]? = some (.live (Handle.ofRaw raw).generation v) := by
  unfold get?
  simp only
  split
  · next generation value hslot => rw [hslot]; grind
  · next hslot => grind

theorem get?_eq_none_iff_slots :
    t.get? raw = none ↔ ∀ v, t.slots[(Handle.ofRaw raw).index.toNat]? ≠
      some (.live (Handle.ofRaw raw).generation v) := by
  simp only [Option.eq_none_iff_forall_ne_some, ne_eq, get?_eq_some_iff_slots]

/-- A handle looks at its own slot only. -/
theorem get?_congr (h : next.slots[(Handle.ofRaw raw).index.toNat]? =
    t.slots[(Handle.ofRaw raw).index.toNat]?) : next.get? raw = t.get? raw := by
  unfold get?
  simp only [h]

theorem slots_of_popVacant {slots : Array (Slot α)} {free rest : List UInt32}
    {index generation : UInt32} (h : popVacant slots free = some (index, generation, rest)) :
    slots[index.toNat]? = some (.vacant generation) := by
  induction free with
  | nil => contradiction
  | cons i free ih =>
      rw [popVacant] at h
      split at h
      · next hslot =>
          cases h
          exact hslot
      · exact ih h

/-- **What storing does**: the next generation of a slot that holds nothing is
issued, and the slot holds the value. -/
theorem slots_insert (v : α) (hroom : t.slots.size < UInt32.size) :
    let h := Handle.ofRaw (t.insert v).1
    h.generation.toNat = t.opened h.index.toNat ∧
      (∀ generation value, t.slots[h.index.toNat]? ≠ some (.live generation value)) ∧
      ∀ i, (t.insert v).2.slots[i]? =
        if i = h.index.toNat then some (.live h.generation v) else t.slots[i]? := by
  unfold insert
  split
  · next index generation rest hpop =>
      have hslot := slots_of_popVacant hpop
      have hlt := (Array.getElem?_eq_some_iff.mp hslot).1
      simp only [Handle.ofRaw_toRaw, opened, hslot, Array.getElem?_setIfInBounds]
      refine ⟨rfl, by simp, fun i => ?_⟩
      simp [hlt, eq_comm]
  · have hsize : (UInt32.ofNat t.slots.size).toNat = t.slots.size :=
      UInt32.toNat_ofNat_of_lt' hroom
    simp only [Handle.ofRaw_toRaw, opened, hsize, Array.getElem?_push]
    simp

/-- **What removing does**: the slot of the handle holds nothing any more. -/
theorem slots_of_remove? (h : t.remove? raw = some (v, next)) :
    t.get? raw = some v ∧ ∀ i, next.slots[i]? =
      if i = (Handle.ofRaw raw).index.toNat then some (.closed (Handle.ofRaw raw).generation)
      else t.slots[i]? := by
  unfold remove? at h
  cases hget : t.get? raw with
  | none => simp [hget] at h
  | some value =>
      have hlt := (Array.getElem?_eq_some_iff.mp (get?_eq_some_iff_slots.mp hget)).1
      simp only [hget, Option.some.injEq, Prod.mk.injEq] at h
      obtain ⟨rfl, rfl⟩ := h
      refine ⟨rfl, fun i => ?_⟩
      rw [Array.getElem?_setIfInBounds]
      simp [hlt, eq_comm, Slot.closed]

/-- The slot of a removed value is open for reuse, unless it is out of generations. -/
theorem free_of_remove? (h : t.remove? raw = some (v, next)) :
    next.free = if (Handle.ofRaw raw).generation.toNat + 1 = UInt32.size then t.free
      else (Handle.ofRaw raw).index :: t.free := by
  unfold remove? at h
  cases hget : t.get? raw with
  | none => simp [hget] at h
  | some value =>
      simp only [hget, Option.some.injEq, Prod.mk.injEq] at h
      obtain ⟨-, rfl⟩ := h
      rfl

theorem opened_insert (v : α) (hroom : t.slots.size < UInt32.size) (i : Nat) :
    (t.insert v).2.opened i =
      if i = (Handle.ofRaw (t.insert v).1).index.toNat then t.opened i + 1 else t.opened i := by
  obtain ⟨hgeneration, -, hslots⟩ := slots_insert v hroom
  rw [opened, hslots]
  split
  · next hi => rw [hi, ← hgeneration]; rfl
  · rfl

theorem opened_of_remove? (h : t.remove? raw = some (v, next)) : next.opened = t.opened := by
  obtain ⟨hget, hslots⟩ := slots_of_remove? h
  funext i
  rw [opened, hslots]
  split
  · next hi =>
      rw [hi, opened, get?_eq_some_iff_slots.mp hget]
      exact Slot.opened_closed _
  · rfl

/-! ## equations of a map -/

/-- The handle of a stored value was not issued before. -/
theorem not_spent_insert (v : α) (hroom : t.slots.size < UInt32.size) :
    ¬t.Spent (Handle.ofRaw (t.insert v).1) := by
  obtain ⟨hgeneration, -⟩ := slots_insert v hroom
  exact Nat.not_lt.mpr (Nat.le_of_eq hgeneration.symm)

/-- Storing a value issues its handle and no other. -/
theorem spent_insert_iff (v : α) (hroom : t.slots.size < UInt32.size) (raw : UInt64) :
    (t.insert v).2.Spent (Handle.ofRaw raw) ↔
      t.Spent (Handle.ofRaw raw) ∨ raw = (t.insert v).1 := by
  obtain ⟨hgeneration, -⟩ := slots_insert v hroom
  have hraw : raw = (t.insert v).1 ↔ Handle.ofRaw raw = Handle.ofRaw (t.insert v).1 :=
    Handle.ofRaw_inj.symm
  rw [hraw, Spent, Spent, opened_insert v hroom]
  clear hraw
  generalize Handle.ofRaw (t.insert v).1 = made at *
  generalize Handle.ofRaw raw = h
  rw [Handle.eq_iff]
  split
  · next hindex =>
      rw [hgeneration, ← hindex]
      omega
  · next hindex => simp [hindex]

/-- A stored value is behind its own handle, and no other handle changes. -/
theorem get?_insert (v : α) (hroom : t.slots.size < UInt32.size) (raw : UInt64) :
    (t.insert v).2.get? raw = if raw = (t.insert v).1 then some v else t.get? raw := by
  obtain ⟨-, hfree, hslots⟩ := slots_insert v hroom
  split
  · next hraw =>
      rw [get?_eq_some_iff_slots, hslots, hraw, if_pos rfl]
  · next hraw =>
      by_cases hindex : (Handle.ofRaw raw).index.toNat = (Handle.ofRaw (t.insert v).1).index.toNat
      · -- the slot held nothing before, and holds another generation now
        have hbefore : t.get? raw = none := by
          rw [get?_eq_none_iff_slots, hindex]
          exact hfree _
        rw [hbefore, get?_eq_none_iff_slots, hslots, if_pos hindex]
        intro w hlive
        rw [Option.some.injEq, Slot.live.injEq] at hlive
        exact hraw (Handle.ofRaw_inj.mp (Handle.eq_iff.mpr ⟨hindex, by rw [hlive.1]⟩))
      · exact get?_congr (by rw [hslots, if_neg hindex])

/-- Removing issues nothing. -/
theorem spent_of_remove?_iff (h : t.remove? raw = some (v, next)) (handle : Handle) :
    next.Spent handle ↔ t.Spent handle := by
  rw [Spent, Spent, opened_of_remove? h]

/-- A removed handle resolves to nothing, and no other handle changes. -/
theorem get?_of_remove? (h : t.remove? raw = some (v, next)) (raw' : UInt64) :
    next.get? raw' = if raw' = raw then none else t.get? raw' := by
  obtain ⟨hget, hslots⟩ := slots_of_remove? h
  by_cases hindex : (Handle.ofRaw raw').index.toNat = (Handle.ofRaw raw).index.toNat
  · have hafter : next.get? raw' = none := by
      rw [get?_eq_none_iff_slots, hslots, if_pos hindex]
      intro w hlive
      exact Slot.closed_ne_live _ _ _ (Option.some.inj hlive)
    rw [hafter]
    split
    · rfl
    · next hraw =>
        -- the slot was live in the removed generation, so in no other
        symm
        rw [get?_eq_none_iff_slots, hindex, get?_eq_some_iff_slots.mp hget]
        intro w hlive
        rw [Option.some.injEq, Slot.live.injEq] at hlive
        exact hraw (Handle.ofRaw_inj.mp (Handle.eq_iff.mpr ⟨hindex, by rw [hlive.1]⟩))
  · have hraw : raw' ≠ raw := by
      rintro rfl
      exact hindex rfl
    rw [if_neg hraw]
    exact get?_congr (by rw [hslots, if_neg hindex])

theorem remove?_eq_none_iff : t.remove? raw = none ↔ t.get? raw = none := by
  rw [← get?_remove?, Option.map_eq_none_iff]

/-! ## slots are never given up -/

theorem size_le_insert (t : HandleTable α) (v : α) :
    t.slots.size ≤ (t.insert v).2.slots.size := by
  unfold insert
  split <;> simp

theorem size_of_remove? (h : t.remove? raw = some (v, next)) :
    next.slots.size = t.slots.size := by
  unfold remove? at h
  cases hget : t.get? raw with
  | none => simp [hget] at h
  | some value =>
      simp only [hget, Option.some.injEq, Prod.mk.injEq] at h
      obtain ⟨-, rfl⟩ := h
      simp

end HandleTable

end PackedArray
