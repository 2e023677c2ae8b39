/-!
# PackedArray.Registry.HandleTable

Values owned on behalf of foreign callers, who hold numbers for them.  A
handle names a slot and the generation in which it was issued.  Removing a
value moves its slot to the next generation, so a handle that was removed or
never issued resolves to nothing rather than to someone else's value.

* `Handle.ofRaw_toRaw` — a handle survives the trip through its number;
* `HandleTable.get?_remove?` — removing answers what resolving would.
-/

namespace PackedArray

/-! ## handles -/

/-- A slot and the generation in which it was issued. -/
structure Handle where
  index : UInt32
  generation : UInt32
  deriving DecidableEq, Repr

namespace Handle

/-- The number of a handle: slot above, generation below. -/
def toRaw (h : Handle) : UInt64 :=
  UInt64.ofNat (h.index.toNat * 0x100000000 + h.generation.toNat)

/-- The handle that a number stands for. -/
def ofRaw (raw : UInt64) : Handle :=
  ⟨UInt32.ofNat (raw.toNat / 0x100000000), UInt32.ofNat (raw.toNat % 0x100000000)⟩

@[simp] theorem ofRaw_toRaw (h : Handle) : ofRaw h.toRaw = h := by
  have hi := h.index.toNat_lt
  have hg := h.generation.toNat_lt
  have hraw : h.toRaw.toNat = h.index.toNat * 0x100000000 + h.generation.toNat := by
    simp only [toRaw, UInt64.toNat_ofNat']
    omega
  have hdiv : (h.index.toNat * 0x100000000 + h.generation.toNat) / 0x100000000 =
      h.index.toNat := by omega
  have hmod : (h.index.toNat * 0x100000000 + h.generation.toNat) % 0x100000000 =
      h.generation.toNat := by omega
  simp only [ofRaw, hraw, hdiv, hmod, UInt32.ofNat_toNat]

end Handle

/-! ## tables -/

/-- One slot of a table. -/
inductive Slot (α : Type)
  | live (generation : UInt32) (value : α)
  /-- Open for reuse in this generation. -/
  | vacant (next : UInt32)
  /-- Out of generations; never reused. -/
  | retired
  deriving Repr

/-- Slots, and the indices of vacant ones, the latest first. -/
structure HandleTable (α : Type) where
  slots : Array (Slot α) := #[]
  free : List UInt32 := []
  deriving Repr

namespace HandleTable

variable {α : Type}

def empty : HandleTable α := {}

/-- The first index that names a vacant slot, with its generation and the
indices after it. -/
def popVacant (slots : Array (Slot α)) : List UInt32 → Option (UInt32 × UInt32 × List UInt32)
  | [] => none
  | index :: rest =>
    match slots[index.toNat]? with
    | some (.vacant generation) => some (index, generation, rest)
    | _ => popVacant slots rest

/-- Store a value, in a vacant slot if there is one; the number of its handle
comes with the new table. -/
def insert (t : HandleTable α) (value : α) : UInt64 × HandleTable α :=
  match popVacant t.slots t.free with
  | some (index, generation, rest) =>
    (Handle.toRaw ⟨index, generation⟩,
      { slots := t.slots.setIfInBounds index.toNat (.live generation value), free := rest })
  | none =>
    (Handle.toRaw ⟨UInt32.ofNat t.slots.size, 0⟩,
      { slots := t.slots.push (.live 0 value), free := [] })

/-- The value behind a number, if there is one. -/
def get? (t : HandleTable α) (raw : UInt64) : Option α :=
  let h := Handle.ofRaw raw
  match t.slots[h.index.toNat]? with
  | some (.live generation value) => if generation = h.generation then some value else none
  | _ => none

/-- Take the value behind a number out of the table.  The slot is opened in
the next generation, or retired if there is none. -/
def remove? (t : HandleTable α) (raw : UInt64) : Option (α × HandleTable α) :=
  let h := Handle.ofRaw raw
  match t.get? raw with
  | none => none
  | some value =>
    let last := h.generation.toNat + 1 = UInt32.size
    let slot : Slot α := if last then .retired else .vacant (h.generation + 1)
    let free := if last then t.free else h.index :: t.free
    some (value, { slots := t.slots.setIfInBounds h.index.toNat slot, free })

/-- Removing answers what resolving would. -/
theorem get?_remove? (t : HandleTable α) (raw : UInt64) :
    (t.remove? raw).map Prod.fst = t.get? raw := by
  simp only [remove?]
  cases t.get? raw <;> rfl

end HandleTable

end PackedArray
