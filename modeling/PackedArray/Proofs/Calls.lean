import PackedArray.Proofs.Handles
import PackedArray.Proofs.Refusals
import PackedArray.Registry.Basic

/-!
# PackedArray.Proofs.Calls

What one foreign call does to a registry.

`Registry.Effect` lists it: nothing, publishing one array, or destroying one.

* `Registry.effect_call` — a call of a registry that is not sealed does one of
  these, so nothing ever seals it;
* `Registry.status_of_dead` — a handle that resolves to nothing is told so.
-/

namespace PackedArray

/-! ## kinds of calls -/

namespace Call

/-- The call makes an array. -/
def makes : Call → Bool
  | create .. | createShaped .. | decode .. | scalarMult .. | scalarDiv .. => true
  | _ => false

/-- The call asks about arrays. -/
def asks : Call → Bool
  | ndim .. | itemCount .. | read .. | dot .. | encode .. => true
  | _ => false

/-- The handles that are passed. -/
def handles : Call → List UInt64
  | create .. | createShaped .. | decode .. => []
  | dot left right _ => [left, right]
  | destroy h | ndim h _ | itemCount h _ | read h _ _ _ | scalarMult h _ _ | scalarDiv h _ _
  | encode h _ _ _ => [h]

/-- The place for the answer is there, if the call has an answer to write. -/
def hasOut : Call → Bool
  | destroy _ => true
  | create _ out | createShaped _ _ _ _ out | decode _ out | dot _ _ out | ndim _ out
  | itemCount _ out | read _ _ _ out | scalarMult _ _ out | scalarDiv _ _ out
  | encode _ _ _ out => out

end Call

/-- A reply that issues no handle, and answers or refuses. -/
def Reply.Plain (reply : Reply) : Prop :=
  reply.handle = none ∧ (reply.status = .ok ∨ reply.status.isRefusal = true)

theorem Reply.plain_of {s : Status} (h : s.isRefusal = true) : (Reply.of s).Plain :=
  ⟨rfl, .inr h⟩

namespace Registry

variable {r : Registry} {c : Call}

/-! ## one call -/

/-- What a call can do. -/
inductive Effect (r : Registry) (c : Call) : Registry → Reply → Prop
  /-- Nothing comes of it. -/
  | refused {reply : Reply} :
      reply.status.isRefusal = true → reply.handle = none → Effect r c r reply
  /-- A question is answered. -/
  | answered {reply : Reply} :
      c.asks = true → reply.status = .ok → reply.handle = none → Effect r c r reply
  /-- An array is made and published. -/
  | made (a : NdArray) : c.makes = true →
      Effect r c { r with table := (r.table.insert a).2 }
        { status := .ok, handle := some (r.table.insert a).1 }
  /-- An array is destroyed. -/
  | destroyed {h : UInt64} {a : NdArray} {table : HandleTable NdArray} :
      c = .destroy h → r.table.remove? h = some (a, table) →
      Effect r c { r with table } (.of .ok)

theorem Effect.of_refusal {s : Status} (h : s.isRefusal = true) : Effect r c r (.of s) :=
  .refused h rfl

theorem Effect.of_plain (hc : c.asks = true) {reply : Reply} (h : reply.Plain) :
    Effect r c r reply := by
  obtain ⟨hhandle, hok | hrefusal⟩ := h
  · exact .answered hc hok hhandle
  · exact .refused hrefusal hhandle

section Effect

variable {next : Registry} {reply : Reply} (he : Effect r c next reply)

include he

theorem Effect.isSealed_eq : next.isSealed = r.isSealed := by
  cases he <;> rfl

/-- Each reply answers or refuses. -/
theorem Effect.ok_or_isRefusal : reply.status = .ok ∨ reply.status.isRefusal = true := by
  cases he with
  | refused hrefusal => exact .inr hrefusal
  | answered _ hok => exact .inl hok
  | made | destroyed => exact .inl rfl

/-- Slots are made and never given up. -/
theorem Effect.size_le : r.table.slots.size ≤ next.table.slots.size := by
  cases he with
  | refused | answered => exact Nat.le_refl _
  | made a => exact HandleTable.size_le_insert r.table a
  | destroyed _ hremove => exact Nat.le_of_eq (HandleTable.size_of_remove? hremove).symm

theorem Effect.of_failed (hstatus : reply.status ≠ .ok) : next = r ∧ reply.handle = none := by
  cases he with
  | refused _ hhandle => exact ⟨rfl, hhandle⟩
  | answered _ hok | made _ _ | destroyed _ _ => contradiction

theorem Effect.of_asks (hc : c.asks = true) : next = r := by
  cases he with
  | refused | answered => rfl
  | made _ hmakes => cases c <;> contradiction
  | destroyed hdestroy _ =>
      subst hdestroy
      contradiction

theorem Effect.of_makes (hc : c.makes = true) (hok : reply.status = .ok) :
    ∃ a, reply.handle = some (r.table.insert a).1 ∧
      next = { r with table := (r.table.insert a).2 } := by
  cases he with
  | refused hrefusal => exact absurd hok (Status.ne_ok_of_isRefusal hrefusal)
  | answered hasks => cases c <;> contradiction
  | made a => exact ⟨a, rfl, rfl⟩
  | destroyed hdestroy _ =>
      subst hdestroy
      contradiction

end Effect

theorem Effect.of_destroy {h : UInt64} {next : Registry} {reply : Reply}
    (he : Effect r (.destroy h) next reply) (hok : reply.status = .ok) :
    ∃ a, r.table.remove? h = some (a, next.table) := by
  cases he with
  | refused hrefusal => exact absurd hok (Status.ne_ok_of_isRefusal hrefusal)
  | answered hasks => contradiction
  | made a hmakes => contradiction
  | destroyed hdestroy hremove =>
      obtain rfl := Call.destroy.inj hdestroy
      exact ⟨_, hremove⟩

section Open

variable (hopen : r.isSealed = false)

include hopen

theorem resolve_eq (h : UInt64) :
    r.resolve h = (r.table.get? h).elim (.error .invalidHandle) .ok := by
  unfold resolve
  rw [hopen]
  cases r.table.get? h <;> rfl

theorem resolve_refuses (h : UInt64) : FailsOnly (·.isRefusal = true) (r.resolve h) := by
  rw [resolve_eq hopen]
  cases r.table.get? h with
  | none => exact .error rfl
  | some a => exact .ok a

theorem effect_publish (hc : c.makes = true) (a : NdArray) :
    Effect r c (r.publish a).1 (r.publish a).2 := by
  unfold publish
  rw [if_neg (by simp [hopen])]
  exact .made a hc

theorem effect_publishBuilt (hc : c.makes = true) (built : Except ArrayError NdArray) :
    Effect r c (r.publishBuilt built).1 (r.publishBuilt built).2 := by
  cases built with
  | ok a => exact effect_publish hopen hc a
  | error e => exact .of_refusal e.isRefusal_status

theorem inquire_plain {answer : NdArray → Reply} (h : ∀ a, (answer a).Plain) (handle : UInt64)
    (out : Bool) : (r.inquire handle out answer).Plain := by
  unfold inquire
  split
  · exact Reply.plain_of rfl
  · split
    · next s hs => exact Reply.plain_of (resolve_refuses hopen handle s hs)
    · next a _ => exact h a

theorem dot_plain (left right : UInt64) (out : Bool) : (r.dot left right out).Plain := by
  refine inquire_plain hopen (fun a => ?_) left out
  split
  · next s hs => exact Reply.plain_of (resolve_refuses hopen right s hs)
  · next b _ =>
      split
      · exact ⟨rfl, .inl rfl⟩
      · next e he => exact Reply.plain_of (dotProduct_refuses a b e he)

theorem effect_scale (hc : c.makes = true) (op : NumericOp) (handle : UInt64) (number : Double)
    (out : Bool) :
    let next := r.scale (fun a scalar => mapScalar a scalar op.combine) handle number out
    Effect r c next.1 next.2 := by
  unfold scale
  split
  · exact .of_refusal rfl
  · split
    · next s hs => exact .of_refusal (resolve_refuses hopen handle s hs)
    · next a _ =>
        split
        · next e _ => exact .of_refusal (OpError.refuses_ofScalar e)
        · next scalar hscalar =>
            split
            · next made _ => exact effect_publish hopen hc made
            · next e he =>
                have hrefusal : e.Refuses := mapScalar_refuses hscalar e he
                rw [if_neg (Status.ne_panicked_of_isRefusal hrefusal)]
                exact .of_refusal hrefusal

end Open

theorem readValues_refuses (a : NdArray) : FailsOnly (·.isRefusal = true) (readValues a) := by
  unfold readValues
  refine .bind (.mapError ScalarError.isRefusal_status) fun layout _ => ?_
  refine .bind (.mapError ArrayError.isRefusal_status) fun elems _ => ?_
  exact .mapError ScalarError.isRefusal_status

theorem readReply_plain (cap : Nat) (buf : Bool) (a : NdArray) : (readReply cap buf a).Plain := by
  unfold readReply
  simp only
  split
  · exact ⟨rfl, .inr rfl⟩
  · split
    · next s hs => exact ⟨rfl, .inr (readValues_refuses a s hs)⟩
    · split
      · exact ⟨rfl, .inr rfl⟩
      · exact ⟨rfl, .inl rfl⟩

theorem encodeReply_plain (cap : Nat) (buf : Bool) (a : NdArray) :
    (encodeReply cap buf a).Plain := by
  unfold encodeReply
  split
  · next e _ => exact Reply.plain_of e.isRefusal_status
  · split
    · exact ⟨rfl, .inr rfl⟩
    · split
      · exact ⟨rfl, .inr rfl⟩
      · exact ⟨rfl, .inl rfl⟩

/-- **One call** of a registry that is not sealed does nothing, publishes one
array or destroys one. -/
theorem effect_call (hopen : r.isSealed = false) (c : Call) :
    Effect r c (r.call c).1 (r.call c).2 := by
  cases c with
  | create values out =>
      rw [call, create]
      split
      · exact .of_refusal rfl
      · split
        · exact .of_refusal rfl
        · split
          · exact .of_refusal rfl
          · exact effect_publishBuilt hopen rfl _
  | createShaped values nulls dims lbounds out =>
      unfold call createShaped
      simp only
      split
      · exact .of_refusal rfl
      · split
        · exact effect_publishBuilt hopen rfl _
        · exact .of_refusal rfl
  | decode bytes out =>
      rw [call, decode]
      split
      · exact .of_refusal rfl
      · split
        · exact .of_refusal rfl
        · exact effect_publishBuilt hopen rfl _
  | destroy h =>
      rw [call, destroy, if_neg (by simp [hopen])]
      cases hremove : r.table.remove? h with
      | none => exact .of_refusal rfl
      | some taken => exact .destroyed rfl hremove
  | ndim h out => exact .of_plain rfl (inquire_plain hopen (fun a => ⟨rfl, .inl rfl⟩) h out)
  | itemCount h out => exact .of_plain rfl (inquire_plain hopen (fun a => ⟨rfl, .inl rfl⟩) h out)
  | read h cap buf out => exact .of_plain rfl (inquire_plain hopen (readReply_plain cap buf) h out)
  | encode h cap buf out =>
      exact .of_plain rfl (inquire_plain hopen (encodeReply_plain cap buf) h out)
  | dot left right out => exact .of_plain rfl (dot_plain hopen left right out)
  | scalarMult h factor out => exact effect_scale hopen rfl .mult h factor out
  | scalarDiv h divisor out => exact effect_scale hopen rfl .div h divisor out

/-- A call that is passed a handle behind which there is nothing tells so,
unless it has no place for its answer. -/
theorem status_of_dead (hopen : r.isSealed = false) {h : UInt64} (hmem : h ∈ c.handles)
    (hdead : r.table.get? h = none) (hout : c.hasOut = true) :
    (r.call c).2.status = .invalidHandle := by
  have hresolve : r.resolve h = .error .invalidHandle := by
    rw [resolve_eq hopen, hdead]
    rfl
  have hinquire (answer : NdArray → Reply) :
      (r.inquire h true answer).status = .invalidHandle := by
    rw [inquire, hresolve]
    rfl
  have hscale (op : NdArray → Scalar → Noted NdArray) (number : Double) :
      (r.scale op h number true).2.status = .invalidHandle := by
    rw [scale, hresolve]
    rfl
  cases c with
  | create | createShaped | decode => contradiction
  | destroy handle =>
      obtain rfl := List.mem_singleton.mp hmem
      rw [call, destroy, if_neg (by simp [hopen]), HandleTable.remove?_eq_none_iff.mpr hdead]
      rfl
  | ndim handle out | itemCount handle out | read handle cap buf out | encode handle cap buf out =>
      obtain rfl := List.mem_singleton.mp hmem
      obtain rfl : out = true := hout
      exact hinquire _
  | scalarMult handle number out | scalarDiv handle number out =>
      obtain rfl := List.mem_singleton.mp hmem
      obtain rfl : out = true := hout
      exact hscale _ number
  | dot left right out =>
      obtain rfl : out = true := hout
      obtain rfl | hright := List.mem_cons.mp hmem
      · exact hinquire _
      · obtain rfl := List.mem_singleton.mp hright
        rw [call, dot, inquire, hresolve, resolve_eq hopen]
        cases r.table.get? left <;> rfl

/-- Destroying succeeds exactly where there is an array. -/
theorem status_destroy_eq_ok_iff (hopen : r.isSealed = false) (h : UInt64) :
    (r.destroy h).2.status = .ok ↔ (r.table.get? h).isSome := by
  rw [destroy, if_neg (by simp [hopen]), ← HandleTable.get?_remove?, Option.isSome_map]
  cases r.table.remove? h <;> simp [Reply.of]

end Registry

end PackedArray
