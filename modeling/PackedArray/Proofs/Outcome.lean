/-!
# PackedArray.Proofs.Outcome

Outcomes of computations that can fail, read backwards: what has to have
succeeded for the whole to succeed, and with what a whole can fail.  Outcomes in
order collect to a success or to the first failure, and nothing past that is
looked at; a fold gets to its end or stops at the first step that fails.
-/

namespace PackedArray

variable {ε α β : Type}

@[simp] theorem ok_bind (a : α) (f : α → Except ε β) : (Except.ok a >>= f) = f a := rfl

/-- A computation in two parts succeeds when both do. -/
theorem bind_eq_ok_iff {x : Except ε α} {f : α → Except ε β} {b : β} :
    (x >>= f) = .ok b ↔ ∃ a, x = .ok a ∧ f a = .ok b := by
  cases x with
  | error e => simp [bind, Except.bind]
  | ok a => simp

theorem map_eq_ok_iff {x : Except ε α} {f : α → β} {b : β} :
    x.map f = .ok b ↔ ∃ a, x = .ok a ∧ f a = b := by
  cases x <;> simp [Except.map]

/-- Outcomes can be compared where errors cannot. -/
theorem mapError_eq_ok_iff {ε' : Type} {x : Except ε α} {f : ε → ε'} {a : α} :
    x.mapError f = .ok a ↔ x = .ok a := by
  cases x with
  | error e => exact ⟨fun h => by contradiction, fun h => by contradiction⟩
  | ok b =>
      have hmap : (Except.ok b : Except ε α).mapError f = .ok b := rfl
      rw [hmap, Except.ok.injEq, Except.ok.injEq]

theorem eq_ok_of_toOption {x : Except ε α} {a : α} (h : x.toOption = some a) : x = .ok a := by
  cases x with
  | error e => contradiction
  | ok b => rw [Option.some.inj h]

/-- A check followed by more succeeds when there is nothing to refuse. -/
theorem refuse_eq_ok_iff {c : Prop} [Decidable c] {e : ε} {f : Unit → Except ε β} {b : β} :
    (if c then throw e >>= f else f ()) = .ok b ↔ ¬c ∧ f () = .ok b := by
  by_cases h : c <;> simp [h, throw, throwThe, MonadExceptOf.throw, bind, Except.bind]

/-! ## failures -/

/-- The computation fails with errors of this kind only. -/
def FailsOnly (P : ε → Prop) (x : Except ε α) : Prop := ∀ e, x = .error e → P e

namespace FailsOnly

variable {P : ε → Prop} {x : Except ε α}

theorem ok (a : α) : FailsOnly P (.ok a) := fun _ h => by contradiction

theorem error {e : ε} (h : P e) : FailsOnly P (.error e : Except ε α) := by
  rintro _ ⟨⟩
  exact h

theorem bind {f : α → Except ε β} (hx : FailsOnly P x)
    (hf : ∀ a, x = .ok a → FailsOnly P (f a)) : FailsOnly P (x >>= f) := by
  cases x with
  | error e => exact error (hx e rfl)
  | ok a => exact hf a rfl

theorem map {f : α → β} (hx : FailsOnly P x) : FailsOnly P (x.map f) := by
  cases x with
  | error e => exact error (hx e rfl)
  | ok a => exact ok (f a)

theorem mapError {ε' : Type} {y : Except ε' α} {f : ε' → ε} (h : ∀ e, P (f e)) :
    FailsOnly P (y.mapError f) := by
  cases y with
  | error e => exact error (h e)
  | ok a => exact ok a

/-- A check followed by more fails as the check does or as the rest does. -/
theorem refuse {c : Prop} [Decidable c] {e : ε} {f : Unit → Except ε α} (he : P e)
    (hf : ¬c → FailsOnly P (f ())) : FailsOnly P (if c then throw e >>= f else f ()) := by
  by_cases hc : c
  · rw [if_pos hc]
    exact error he
  · rw [if_neg hc]
    exact hf hc

end FailsOnly

/-- Outcomes that are all successes collect to a success. -/
theorem mapM_id_map_ok (xs : List α) :
    (xs.map Except.ok).mapM id = (.ok xs : Except ε (List α)) := by
  induction xs with
  | nil => rfl
  | cons x xs ih =>
      rw [List.map_cons, List.mapM_cons, ih]
      rfl

/-! ## outcomes in order -/

section InOrder

variable {f g : α → Except ε β} {xs : List α} {ys : List β}

/-- In order, everything before position `i` succeeds. -/
def Reached (f : α → Except ε β) (xs : List α) (i : Nat) : Prop :=
  ∀ j < i, ∀ x, xs[j]? = some x → ∃ y, f x = .ok y

theorem reached_zero (f : α → Except ε β) (xs : List α) : Reached f xs 0 := fun _ h => by
  contradiction

theorem reached_cons_succ_iff {x : α} {i : Nat} :
    Reached f (x :: xs) (i + 1) ↔ (∃ y, f x = .ok y) ∧ Reached f xs i := by
  constructor
  · intro h
    exact ⟨h 0 (Nat.succ_pos i) x rfl, fun j hj => h (j + 1) (Nat.succ_lt_succ hj)⟩
  · rintro ⟨hx, h⟩ j hj
    cases j with
    | zero =>
        rintro _ ⟨⟩
        exact hx
    | succ j => exact h j (Nat.lt_of_succ_lt_succ hj)

theorem mapM_cons_of_ok {x : α} {y : β} (h : f x = .ok y) :
    (x :: xs).mapM f = (xs.mapM f).map (y :: ·) := by
  rw [List.mapM_cons, h, ok_bind]
  cases xs.mapM f <;> rfl

theorem mapM_cons_of_error {x : α} {e : ε} (h : f x = .error e) : (x :: xs).mapM f = .error e := by
  rw [List.mapM_cons, h]
  rfl

/-- Outcomes collect to a success when each is one. -/
theorem mapM_eq_ok_iff : xs.mapM f = .ok ys ↔ xs.map f = ys.map .ok := by
  induction xs generalizing ys with
  | nil => cases ys <;> simp [pure, Except.pure]
  | cons x xs ih =>
      cases hx : f x with
      | error e => cases ys <;> simp [mapM_cons_of_error hx, hx]
      | ok y =>
          rw [mapM_cons_of_ok hx, map_eq_ok_iff, List.map_cons, hx]
          cases ys with
          | nil => simp
          | cons y' ys =>
              simp only [List.cons.injEq, List.map_cons, Except.ok.injEq, ih]
              constructor
              · rintro ⟨_, hxs, rfl, rfl⟩
                exact ⟨rfl, hxs⟩
              · rintro ⟨rfl, hxs⟩
                exact ⟨ys, hxs, rfl, rfl⟩

/-- Outcomes collect to a failure when it is the first one. -/
theorem mapM_eq_error_iff {e : ε} :
    xs.mapM f = .error e ↔ ∃ i x, xs[i]? = some x ∧ Reached f xs i ∧ f x = .error e := by
  induction xs with
  | nil => simp [pure, Except.pure]
  | cons x xs ih =>
      cases hx : f x with
      | error e' =>
          rw [mapM_cons_of_error hx]
          constructor
          · rintro ⟨⟩
            exact ⟨0, x, rfl, reached_zero _ _, hx⟩
          · rintro ⟨i, x', hi, hreached, he⟩
            cases i with
            | zero =>
                cases hi
                rw [Except.error.inj (hx.symm.trans he)]
            | succ i =>
                obtain ⟨⟨y, hy⟩, -⟩ := reached_cons_succ_iff.mp hreached
                rw [hx] at hy
                contradiction
      | ok y =>
          have hmap : (xs.mapM f).map (y :: ·) = .error e ↔ xs.mapM f = .error e := by
            cases xs.mapM f <;> simp [Except.map]
          rw [mapM_cons_of_ok hx, hmap, ih]
          constructor
          · rintro ⟨i, x', hi, hreached, he⟩
            exact ⟨i + 1, x', hi, reached_cons_succ_iff.mpr ⟨⟨y, hx⟩, hreached⟩, he⟩
          · rintro ⟨i, x', hi, hreached, he⟩
            cases i with
            | zero =>
                cases hi
                rw [hx] at he
                contradiction
            | succ i => exact ⟨i, x', hi, (reached_cons_succ_iff.mp hreached).2, he⟩

/-- Where failures are all alike, any one decides. -/
theorem mapM_eq_error_of_mem {x : α} {e : ε} (halike : ∀ y ∈ xs, ∀ e', f y = .error e' → e' = e)
    (hx : x ∈ xs) (he : f x = .error e) : xs.mapM f = .error e := by
  cases hxs : xs.mapM f with
  | error e' =>
      obtain ⟨i, y, hy, -, he'⟩ := mapM_eq_error_iff.mp hxs
      rw [halike y (List.mem_of_getElem? hy) e' he']
  | ok ys =>
      have hmem : f x ∈ ys.map Except.ok := mapM_eq_ok_iff.mp hxs ▸ List.mem_map_of_mem hx
      rw [he] at hmem
      obtain ⟨y, -, hy⟩ := List.mem_map.mp hmem
      contradiction

/-- Past the first failure nothing is looked at. -/
theorem mapM_congr_reached (h : ∀ i x, xs[i]? = some x → Reached f xs i → g x = f x) :
    xs.mapM g = xs.mapM f := by
  induction xs with
  | nil => rfl
  | cons x xs ih =>
      have hgx : g x = f x := h 0 x rfl (reached_zero _ _)
      cases hx : f x with
      | error e => rw [mapM_cons_of_error hx, mapM_cons_of_error (hgx.trans hx)]
      | ok y =>
          rw [mapM_cons_of_ok hx, mapM_cons_of_ok (hgx.trans hx), ih fun i x' hi hreached =>
            h (i + 1) x' hi (reached_cons_succ_iff.mpr ⟨⟨y, hx⟩, hreached⟩)]

end InOrder

/-! ## outcomes of a fold -/

section Folds

variable {step : β → α → Except ε β} {acc last : β} {x : α} {xs : List α} {i : Nat} {e : ε}

/-- Folding from `acc`, step `i` is the first to fail, with the error `e`. -/
def FailsAt (step : β → α → Except ε β) (acc : β) (xs : List α) (i : Nat) (e : ε) : Prop :=
  ∃ last x, (xs.take i).foldlM step acc = .ok last ∧ xs[i]? = some x ∧ step last x = .error e

theorem foldlM_cons_eq_ok_iff :
    (x :: xs).foldlM step acc = .ok last ↔
      ∃ next, step acc x = .ok next ∧ xs.foldlM step next = .ok last := by
  rw [List.foldlM_cons, bind_eq_ok_iff]

theorem failsAt_cons_zero_iff : FailsAt step acc (x :: xs) 0 e ↔ step acc x = .error e := by
  simp [FailsAt, pure, Except.pure]

theorem failsAt_cons_succ_iff :
    FailsAt step acc (x :: xs) (i + 1) e ↔
      ∃ next, step acc x = .ok next ∧ FailsAt step next xs i e := by
  simp only [FailsAt, List.take_succ_cons, foldlM_cons_eq_ok_iff, List.getElem?_cons_succ]
  constructor
  · rintro ⟨last, y, ⟨next, hx, hxs⟩, hy, he⟩
    exact ⟨next, hx, last, y, hxs, hy, he⟩
  · rintro ⟨next, hx, last, y, hxs, hy, he⟩
    exact ⟨last, y, ⟨next, hx, hxs⟩, hy, he⟩

/-- A fold gets to its end or stops at a step that fails. -/
theorem foldlM_ok_or_failsAt (step : β → α → Except ε β) (acc : β) (xs : List α) :
    (∃ last, xs.foldlM step acc = .ok last) ∨ ∃ i e, FailsAt step acc xs i e := by
  induction xs generalizing acc with
  | nil => exact .inl ⟨acc, rfl⟩
  | cons x xs ih =>
      cases hx : step acc x with
      | error e => exact .inr ⟨0, e, failsAt_cons_zero_iff.mpr hx⟩
      | ok next =>
          obtain ⟨last, hlast⟩ | ⟨i, e, hfails⟩ := ih next
          · exact .inl ⟨last, foldlM_cons_eq_ok_iff.mpr ⟨next, hx, hlast⟩⟩
          · exact .inr ⟨i + 1, e, failsAt_cons_succ_iff.mpr ⟨next, hx, hfails⟩⟩

theorem FailsAt.lt (h : FailsAt step acc xs i e) : i < xs.length := by
  obtain ⟨_, _, _, hi, _⟩ := h
  exact (List.getElem?_eq_some_iff.mp hi).1

end Folds

end PackedArray
