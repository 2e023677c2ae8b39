import PackedArray.Proofs.Outcome

/-!
# PackedArray.Proofs.Machine.Basic

Computations that can break off.

The library computes with numbers and lists, where nothing goes wrong unnoticed.
What runs in its place computes with machine words and slices, and breaks off where
a word cannot hold a result, where an index is not in its slice, or where an
assertion fails.  `Machine.Run` is the outcome of such a computation.

The modules beside this one go through the library once more with every one of
these checks in its place.  Each computation there is shown to be `Machine.lift` of
the library's own: it never breaks off, and comes to the same.

* `Machine.word`, `Machine.sub`, `Machine.index`, `Machine.slice`, `Machine.demand` —
  the checks, each with the condition under which it passes;
* `Machine.bind_eq_lift` — computations in parts.
-/

namespace PackedArray.Machine

/-- Why a computation stops. -/
inductive Stop (ε : Type)
  /-- It breaks off. -/
  | broken
  /-- It reports an error. -/
  | reported (e : ε)

/-- The outcome of a computation that can break off. -/
abbrev Run (ε α : Type) := Except (Stop ε) α

variable {ε ε' α β : Type}

/-- An outcome of a computation that never breaks off. -/
def lift (x : Except ε α) : Run ε α := x.mapError .reported

/-! ## checks -/

/-- Breaks off unless the condition holds. -/
def demand (p : Prop) [Decidable p] : Run ε Unit := if p then .ok () else .error .broken

/-- A result in an unsigned word. -/
def word (n : Nat) : Run ε Nat := if n < 0x10000000000000000 then .ok n else .error .broken

/-- A result in an unsigned half word. -/
def halfWord (n : Nat) : Run ε Nat := if n < 0x100000000 then .ok n else .error .broken

/-- A result that is not negative in a signed word. -/
def signedWord (n : Nat) : Run ε Nat := if n < 0x8000000000000000 then .ok n else .error .broken

/-- A difference of unsigned words. -/
def sub (a b : Nat) : Run ε Nat := if b ≤ a then .ok (a - b) else .error .broken

/-- A signed number as an unsigned word; a negative one becomes a great one. -/
def unsigned (x : Int32) : Nat := (UInt64.ofInt x.toInt).toNat

/-- The item at an index. -/
def index (xs : List α) (i : Nat) : Run ε α :=
  match xs[i]? with
  | some x => .ok x
  | none => .error .broken

/-- The items from `start` on and before `stop`. -/
def slice (xs : List α) (start stop : Nat) : Run ε (List α) :=
  if start ≤ stop ∧ stop ≤ xs.length then .ok ((xs.drop start).take (stop - start))
  else .error .broken

/-- The items from `start` on and before `stop`, if there are that many. -/
def slice? (xs : List α) (start stop : Nat) : Option (List α) :=
  if start ≤ stop ∧ stop ≤ xs.length then some ((xs.drop start).take (stop - start)) else none

/-! ## checks that pass -/

theorem demand_of {p : Prop} [Decidable p] (h : p) : (demand p : Run ε Unit) = .ok () := if_pos h

theorem word_of_lt {n : Nat} (h : n < 0x10000000000000000) : (word n : Run ε Nat) = .ok n :=
  if_pos h

theorem halfWord_of_lt {n : Nat} (h : n < 0x100000000) : (halfWord n : Run ε Nat) = .ok n :=
  if_pos h

theorem signedWord_of_lt {n : Nat} (h : n < 0x8000000000000000) :
    (signedWord n : Run ε Nat) = .ok n :=
  if_pos h

theorem sub_of_le {a b : Nat} (h : b ≤ a) : (sub a b : Run ε Nat) = .ok (a - b) := if_pos h

theorem unsigned_eq_iff {x : Int32} {n : Nat} (h : n < 0x80000000) :
    unsigned x = n ↔ x.toInt = n := by
  have hlt := x.toInt_lt
  have hle := x.le_toInt
  simp only [unsigned, UInt64.ofInt, UInt64.toNat_ofNat']
  omega

theorem index_of_lt {xs : List α} {i : Nat} (h : i < xs.length) :
    (index xs i : Run ε α) = .ok xs[i] := by
  rw [index, List.getElem?_eq_getElem h]

theorem slice_of_le {xs : List α} {start stop : Nat} (hstart : start ≤ stop)
    (hstop : stop ≤ xs.length) :
    (slice xs start stop : Run ε (List α)) = .ok ((xs.drop start).take (stop - start)) :=
  if_pos ⟨hstart, hstop⟩

/-! ## lifting -/

@[simp] theorem lift_ok (a : α) : lift (.ok a : Except ε α) = .ok a := rfl

@[simp] theorem lift_error (e : ε) : lift (.error e : Except ε α) = .error (.reported e) := rfl

/-- Two parts that are the library's own make a whole that is. -/
theorem bind_eq_lift {x : Run ε α} {y : Except ε α} {f : α → Run ε β} {g : α → Except ε β}
    (hx : x = lift y) (hf : ∀ a, y = .ok a → f a = lift (g a)) : (x >>= f) = lift (y >>= g) := by
  subst hx
  cases y with
  | error e => rfl
  | ok a => exact hf a rfl

/-- The first part may put its outcome in another form. -/
theorem bind_map_eq_lift {γ : Type} {y : Except ε α} {h : α → γ} {f : γ → Run ε β}
    {g : α → Except ε β} (hf : ∀ a, y = .ok a → f (h a) = lift (g a)) :
    (lift (y.map h) >>= f) = lift (y >>= g) := by
  cases y with
  | error e => rfl
  | ok a => exact hf a rfl

/-- An error may be reported in the same case. -/
theorem refuse_eq_lift {c : Prop} [Decidable c] {e : ε} {f : Unit → Run ε β}
    {g : Unit → Except ε β} (hf : ¬c → f () = lift (g ())) :
    (if c then throw (.reported e) >>= f else f ()) = lift (if c then throw e >>= g else g ()) := by
  by_cases hc : c
  · rw [if_pos hc, if_pos hc]
    rfl
  · rw [if_neg hc, if_neg hc, hf hc]

/-- A check may be made in another form. -/
theorem check_eq_lift {c : Prop} [Decidable c] {e : ε} {x : Run ε Unit} {f : Unit → Run ε β}
    {g : Unit → Except ε β} (hx : x = if c then .error (.reported e) else .ok ())
    (hf : ¬c → f () = lift (g ())) : (x >>= f) = lift (if c then throw e >>= g else g ()) := by
  subst hx
  by_cases hc : c
  · rw [if_pos hc, if_pos hc]
    rfl
  · rw [if_neg hc, if_neg hc, ok_bind, hf hc]

/-- The outcome of a computation that does not break off, errors included. -/
def attempt (x : Run ε α) : Run ε' (Except ε α) :=
  match x with
  | .ok a => .ok (.ok a)
  | .error .broken => .error .broken
  | .error (.reported e) => .ok (.error e)

@[simp] theorem attempt_lift (x : Except ε α) : (attempt (lift x) : Run ε' _) = .ok x := by
  cases x <;> rfl

theorem mapM_eq_lift {f : α → Run ε β} {g : α → Except ε β} {xs : List α}
    (h : ∀ x, f x = lift (g x)) : xs.mapM f = lift (xs.mapM g) := by
  induction xs with
  | nil => rfl
  | cons x xs ih =>
      rw [List.mapM_cons, List.mapM_cons]
      exact bind_eq_lift (h x) fun _ _ => bind_eq_lift ih fun _ _ => rfl

/-- A computation whose errors are reported as those of another layer. -/
def rethrow (f : ε → ε') (x : Run ε α) : Run ε' α :=
  x.mapError fun
    | .broken => .broken
    | .reported e => .reported (f e)

@[simp] theorem rethrow_lift (f : ε → ε') (x : Except ε α) :
    rethrow f (lift x) = lift (x.mapError f) := by
  cases x <;> rfl

end PackedArray.Machine
