import PackedArray.Proofs.Handles
import PackedArray.Proofs.Machine.Basic

/-!
# PackedArray.Proofs.Machine.Table

Handle tables in machine words.

Storing looks up the slots that the indices of vacant ones name, so these have to be
indices of slots.  Whatever is done to a table, they are.

* `HandleTable.InBounds.insert`, `HandleTable.InBounds.remove` — the invariant;
* `HandleTable.Each.insert`, `HandleTable.Each.remove` — what holds of every value
  in a table;
* `Machine.insert_eq` — storing.
-/

namespace PackedArray

variable {α : Type}

namespace HandleTable

variable {t next : HandleTable α} {v : α} {raw : UInt64}

/-! ## indices of vacant slots -/

/-- The indices of vacant slots are indices of slots. -/
def InBounds (t : HandleTable α) : Prop := ∀ i ∈ t.free, i.toNat < t.slots.size

theorem subset_of_popVacant {slots : Array (Slot α)} {free rest : List UInt32}
    {index generation : UInt32} (h : popVacant slots free = some (index, generation, rest)) :
    rest ⊆ free := by
  induction free with
  | nil => contradiction
  | cons i free ih =>
      rw [popVacant] at h
      split at h
      · cases h
        exact List.subset_cons_self _ _
      · exact List.subset_cons_of_subset _ (ih h)

theorem InBounds.insert (h : t.InBounds) (v : α) : (t.insert v).2.InBounds := by
  unfold HandleTable.insert
  split
  · next hpop =>
      intro i hi
      rw [Array.size_setIfInBounds]
      exact h i (subset_of_popVacant hpop hi)
  · intro i hi
    contradiction

/-- Only the index of the handle can be new. -/
theorem free_subset_of_remove? (hremove : t.remove? raw = some (v, next)) :
    next.free ⊆ (Handle.ofRaw raw).index :: t.free := by
  rw [free_of_remove? hremove]
  split
  · exact List.subset_cons_self _ _
  · exact List.Subset.refl _

theorem InBounds.remove (h : t.InBounds) (hremove : t.remove? raw = some (v, next)) :
    next.InBounds := by
  have hslot := get?_eq_some_iff_slots.mp (slots_of_remove? hremove).1
  intro i hi
  rw [size_of_remove? hremove]
  obtain rfl | hfree := List.mem_cons.mp (free_subset_of_remove? hremove hi)
  · exact (Array.getElem?_eq_some_iff.mp hslot).1
  · exact h i hfree

/-! ## values -/

/-- Every value in the table has the property, whether a handle names its slot or not. -/
def Each (P : α → Prop) (t : HandleTable α) : Prop :=
  ∀ (i : Nat) (generation : UInt32) (value : α),
    t.slots[i]? = some (.live generation value) → P value

variable {P : α → Prop}

theorem Each.of_get? (h : t.Each P) (hget : t.get? raw = some v) : P v :=
  h _ _ v (get?_eq_some_iff_slots.mp hget)

theorem Each.insert (h : t.Each P) (hv : P v) : (t.insert v).2.Each P := by
  intro i generation value hslot
  unfold HandleTable.insert at hslot
  split at hslot
  · rw [Array.getElem?_setIfInBounds] at hslot
    split at hslot
    · split at hslot
      · cases hslot
        exact hv
      · contradiction
    · exact h i generation value hslot
  · rw [Array.getElem?_push] at hslot
    split at hslot
    · cases hslot
      exact hv
    · exact h i generation value hslot

theorem Each.remove (h : t.Each P) (hremove : t.remove? raw = some (v, next)) : next.Each P := by
  intro i generation value hslot
  rw [(slots_of_remove? hremove).2] at hslot
  split at hslot
  · exact absurd (Option.some.inj hslot) (Slot.closed_ne_live _ _ _)
  · exact h i generation value hslot

end HandleTable

namespace Machine

variable {ε : Type}

/-! ## storing -/

/-- The first index that names a vacant slot; each one is looked up. -/
def popVacant (slots : Array (Slot α)) :
    List UInt32 → Run ε (Option (UInt32 × UInt32 × List UInt32))
  | [] => .ok none
  | i :: rest => do
    match ← index slots.toList i.toNat with
    | .vacant generation => .ok (some (i, generation, rest))
    | _ => popVacant slots rest

def insert (t : HandleTable α) (value : α) : Run ε (UInt64 × HandleTable α) := do
  match ← popVacant t.slots t.free with
  | some (index, generation, rest) =>
    return (Handle.toRaw ⟨index, generation⟩,
      { slots := t.slots.setIfInBounds index.toNat (.live generation value), free := rest })
  | none =>
    return (Handle.toRaw ⟨UInt32.ofNat t.slots.size, 0⟩,
      { slots := t.slots.push (.live 0 value), free := [] })

theorem popVacant_eq {slots : Array (Slot α)} {free : List UInt32}
    (h : ∀ i ∈ free, i.toNat < slots.size) :
    (popVacant slots free : Run ε _) = .ok (HandleTable.popVacant slots free) := by
  induction free with
  | nil => rfl
  | cons i free ih =>
      obtain ⟨hi, hfree⟩ := List.forall_mem_cons.mp h
      rw [popVacant, HandleTable.popVacant, index_of_lt (by simpa using hi), ok_bind,
        Array.getElem?_eq_getElem hi, Array.getElem_toList]
      cases slots[i.toNat] with
      | vacant generation => rfl
      | live generation value => exact ih hfree
      | retired => exact ih hfree

/-- **Storing** never breaks off. -/
theorem insert_eq {t : HandleTable α} (h : t.InBounds) (v : α) :
    (insert t v : Run ε _) = .ok (t.insert v) := by
  rw [insert, popVacant_eq h, ok_bind, HandleTable.insert]
  cases HandleTable.popVacant t.slots t.free <;> rfl

end Machine

end PackedArray
