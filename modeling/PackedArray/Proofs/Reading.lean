import PackedArray.Proofs.Outcome
import PackedArray.Proofs.Walk

/-!
# PackedArray.Proofs.Reading

Reading an array with any layout, be it the one that the array was made with or
another.

Bytes that were not packed under a layout can stop a walk anywhere, and a walk that
goes on can make anything of them.  What is left is the order of the entries, and
`NdArray.Follows` says it of a list of entries: one for each item, nulls where the
bitmap has them, up to the first error.  All the rest is read off that.

* `Walk.steps_follows` — the entries of the steps of a walk;
* `Walk.remaining_of_steps` — what is left to come after them;
* `NdArray.toScalars_eq_ok_iff`, `NdArray.toScalars_eq_error_iff` — reading without nulls;
* `NdArray.orderly` — a walk over an array, and what both readers make of it.
-/

namespace PackedArray

open NdArray (Entry)

/-! ## entries in order -/

namespace NdArray

/-- Entries of items with these null flags, in order: one for each item, a null where
the flag is set, up to the first error. -/
inductive Follows : List Bool → List Entry → Prop
  | done : Follows [] []
  | item {flags : List Bool} {entries : List Entry} (item : Option Scalar) :
      Follows flags entries → Follows (item.isNone :: flags) (.ok item :: entries)
  | failed (flags : List Bool) (e : ArrayError) : Follows (false :: flags) [.error e]

namespace Follows

variable {flags : List Bool} {entries : List Entry} {i : Nat}

theorem length_le (h : Follows flags entries) : entries.length ≤ flags.length := by
  induction h with
  | done => exact Nat.le_refl 0
  | item _ _ ih => simpa using ih
  | failed => simp

/-- An error can only be the last entry. -/
theorem error_last (h : Follows flags entries) {e : ArrayError}
    (hi : entries[i]? = some (.error e)) : i + 1 = entries.length := by
  induction h generalizing i with
  | done => simp at hi
  | item _ _ ih =>
      cases i with
      | zero => simp at hi
      | succ i => simpa using ih hi
  | failed =>
      cases i with
      | zero => rfl
      | succ i => simp at hi

/-- Without an error every item has an entry. -/
theorem length_eq (h : Follows flags entries) (hok : ∀ e, .error e ∉ entries) :
    entries.length = flags.length := by
  induction h with
  | done => rfl
  | item _ _ ih => simpa using ih fun e he => hok e (List.mem_cons_of_mem _ he)
  | failed flags e => exact absurd List.mem_cons_self (hok e)

/-- An entry that is no error is a null where the flag is set. -/
theorem flag_eq (h : Follows flags entries) {item : Option Scalar}
    (hi : entries[i]? = some (.ok item)) : flags[i]? = some item.isNone := by
  induction h generalizing i with
  | done => simp at hi
  | item _ _ ih =>
      cases i with
      | zero =>
          obtain rfl : _ = item := by simpa using hi
          rfl
      | succ i => exact ih hi
  | failed =>
      cases i with
      | zero => simp at hi
      | succ i => simp at hi

/-- Where all entries are items, the flags are theirs. -/
theorem map_isNone_eq {items : List (Option Scalar)} (h : Follows flags (items.map .ok)) :
    items.map Option.isNone = flags := by
  induction items generalizing flags with
  | nil =>
      cases h
      rfl
  | cons item items ih =>
      cases h with
      | item _ hrest => rw [List.map_cons, ih hrest]

end Follows

end NdArray

open NdArray (Follows)

/-! ## steps -/

namespace Walk

variable {w : Walk}

/-- At the end no step is left to take. -/
theorem steps_of_le (h : w.array.size ≤ w.index) (n : Nat) : w.steps n = ([], w) := by
  cases n with
  | zero => rfl
  | succ n => rw [steps, next?_eq_none_iff.mpr h]

/-- The null flags of the items that are still to come. -/
def flags (w : Walk) : List Bool := w.array.nullMask.drop w.index

theorem flags_of_le (h : w.array.size ≤ w.index) : w.flags = [] := by
  rw [flags, List.drop_eq_nil_iff, NdArray.length_nullMask]
  exact h

theorem flags_of_lt (h : w.index < w.array.size) :
    w.flags = w.array.isNullAt w.index :: w.array.nullMask.drop (w.index + 1) := by
  have hlt : w.index < w.array.nullMask.length := by rwa [NdArray.length_nullMask]
  have hflag := NdArray.getElem?_nullMask h
  rw [List.getElem?_eq_getElem hlt, Option.some.injEq] at hflag
  rw [flags, List.drop_eq_getElem_cons hlt, hflag]

theorem length_flags (w : Walk) : w.flags.length = w.remaining := by
  rw [flags, List.length_drop, NdArray.length_nullMask, remaining]

/-- As many steps as items are left yield all that there is to come. -/
theorem steps_follows {n : Nat} (h : w.remaining ≤ n) : Follows w.flags (w.steps n).1 := by
  induction n generalizing w with
  | zero =>
      rw [flags_of_le (Nat.le_of_sub_eq_zero (Nat.le_zero.mp h))]
      exact .done
  | succ n ih =>
      cases hnext : w.next? with
      | none =>
          rw [flags_of_le (next?_eq_none_iff.mp hnext), steps, hnext]
          exact .done
      | some step =>
          obtain ⟨entry, next⟩ := step
          obtain ⟨hlt, hstep⟩ := next?_eq_some_iff.mp hnext
          rw [remaining] at h
          rw [steps_succ_of_next? n hnext, flags_of_lt hlt]
          cases hstep with
          | null hnull =>
              rw [hnull]
              have hrest := @ih { w with index := w.index + 1 } (by simp only [remaining]; omega)
              exact .item none hrest
          | @present x taken hnull _ =>
              rw [hnull]
              have hrest := @ih (w.advance taken) (by simp only [remaining, advance]; omega)
              exact .item (some x) hrest
          | @failed e hnull _ =>
              rw [hnull, steps_of_le (Nat.le_refl _)]
              exact .failed _ e

/-- Fewer steps yield the first of the entries. -/
theorem steps_take {k n : Nat} (h : k ≤ n) (w : Walk) : (w.steps k).1 = (w.steps n).1.take k := by
  induction k generalizing n w with
  | zero => simp [steps]
  | succ k ih =>
      cases n with
      | zero => contradiction
      | succ n =>
          cases hnext : w.next? with
          | none => simp [steps, hnext]
          | some step =>
              obtain ⟨entry, next⟩ := step
              rw [steps_succ_of_next? k hnext, steps_succ_of_next? n hnext,
                ih (Nat.le_of_succ_le_succ h), List.take_succ_cons]

/-- Each entry is one item less to come, and behind an error there is none. -/
theorem remaining_of_steps (k : Nat) (w : Walk) :
    ((∀ e, .error e ∉ (w.steps k).1) →
      (w.steps k).2.remaining + (w.steps k).1.length = w.remaining) ∧
    ∀ e, .error e ∈ (w.steps k).1 → (w.steps k).2.remaining = 0 := by
  induction k generalizing w with
  | zero => simp [steps]
  | succ k ih =>
      cases hnext : w.next? with
      | none => simp [steps, hnext]
      | some step =>
          obtain ⟨entry, next⟩ := step
          obtain ⟨hlt, hstep⟩ := next?_eq_some_iff.mp hnext
          rw [steps_succ_of_next? k hnext]
          obtain ⟨hok, herror⟩ := ih next
          cases entry with
          | ok item =>
              have hremaining : next.remaining + 1 = w.remaining := by
                cases hstep with
                | null | present =>
                    simp only [remaining, advance]
                    omega
              simp only [List.mem_cons, reduceCtorEq, false_or, List.length_cons]
              exact ⟨fun hnone => by rw [← Nat.add_assoc, hok hnone, hremaining], herror⟩
          | error e =>
              cases hstep with
              | failed =>
                  rw [steps_of_le (Nat.le_refl _)]
                  simp [remaining]

end Walk

/-! ## reading an array -/

namespace NdArray

variable {a : NdArray} {l : Layout} {xs : List Scalar}

theorem entries_follows (a : NdArray) (l : Layout) : Follows a.nullMask (a.entries l) :=
  Walk.steps_follows (w := a.walk l) (Nat.le_refl _)

/-- Without an error every item has an entry. -/
theorem length_entries (h : ∀ e, .error e ∉ a.entries l) : (a.entries l).length = a.size := by
  rw [(a.entries_follows l).length_eq h, length_nullMask]

/-- Items that are all entries are null where the array says so. -/
theorem map_isNone_of_entries {items : List (Option Scalar)} (h : a.entries l = items.map .ok) :
    items.map Option.isNone = a.nullMask :=
  (h ▸ a.entries_follows l).map_isNone_eq

/-- However many steps are taken, they yield the first entries. -/
theorem steps_walk_eq (a : NdArray) (l : Layout) (k : Nat) :
    ((a.walk l).steps k).1 = (a.entries l).take k := by
  rw [entries, Walk.run]
  obtain hle | hle := Nat.le_total k (a.walk l).remaining
  · exact Walk.steps_take hle _
  · have hlen : ((a.walk l).steps k).1.length ≤ (a.walk l).remaining := by
      have hfollows := Walk.steps_follows hle
      rw [← Walk.length_flags]
      exact hfollows.length_le
    rw [Walk.steps_take hle, List.take_of_length_le hlen,
      List.take_of_length_le (Nat.le_trans hlen hle)]

theorem requirePresent_eq_ok_iff {entry : Entry} {x : Scalar} :
    requirePresent entry = .ok x ↔ entry = .ok (some x) := by
  match entry with
  | .ok (some y) => simp [requirePresent]
  | .ok none => simp [requirePresent]
  | .error e => simp [requirePresent]

theorem requirePresent_eq_error_iff {entry : Entry} {e : ArrayError} :
    requirePresent entry = .error e ↔
      entry = .ok none ∧ e = .nullNotAllowed ∨ entry = .error e := by
  match entry with
  | .ok (some y) => simp [requirePresent]
  | .ok none => simp [requirePresent, eq_comm]
  | .error e => simp [requirePresent]

/-- Reading succeeds when no entry is an error. -/
theorem toElements_eq_ok_iff {read : Elements} :
    a.toElements a.tag l = .ok read ↔
      ∃ items, a.entries l = items.map .ok ∧ read = Elements.ofItems items := by
  rw [toElements, checkTag, if_pos rfl, ok_bind, bind_eq_ok_iff]
  simp only [mapM_eq_ok_iff, List.map_id]
  exact exists_congr fun items => and_congr_right fun _ => ⟨fun h => (Except.ok.inj h).symm,
    fun h => congrArg _ h.symm⟩

/-- Reading without nulls succeeds when every entry is a scalar. -/
theorem toScalars_eq_ok_iff :
    a.toScalars a.tag l = .ok xs ↔ a.entries l = xs.map fun x => .ok (some x) := by
  rw [toScalars, checkTag, if_pos rfl, ok_bind, mapM_eq_ok_iff]
  generalize a.entries l = entries
  induction entries generalizing xs with
  | nil => cases xs <;> simp
  | cons entry entries ih =>
      cases xs with
      | nil => simp
      | cons x xs => simp only [List.map_cons, List.cons.injEq, requirePresent_eq_ok_iff, ih]

/-- Reading fails over the error among the entries. -/
theorem toElements_eq_error_iff {e : ArrayError} :
    a.toElements a.tag l = .error e ↔ .error e ∈ a.entries l := by
  have hbind : a.toElements a.tag l = ((a.entries l).mapM id).map Elements.ofItems := by
    rw [toElements, checkTag, if_pos rfl, ok_bind]
    cases (a.entries l).mapM id <;> rfl
  have hmap : ((a.entries l).mapM id).map Elements.ofItems = .error e ↔
      (a.entries l).mapM id = .error e := by
    cases (a.entries l).mapM id <;> simp [Except.map]
  rw [hbind, hmap, mapM_eq_error_iff]
  constructor
  · rintro ⟨i, entry, hi, -, rfl⟩
    exact List.mem_of_getElem? hi
  · intro hmem
    obtain ⟨i, hi⟩ := List.mem_iff_getElem?.mp hmem
    refine ⟨i, .error e, hi, fun j hj entry hentry => ?_, rfl⟩
    cases entry with
    | ok item => exact ⟨item, rfl⟩
    | error e' =>
        -- an error before the last entry
        have hlast := (a.entries_follows l).error_last hentry
        have hlt := (List.getElem?_eq_some_iff.mp hi).1
        omega

/-- Reading without nulls fails at the first entry that is no scalar, be it a null or the
error. -/
theorem toScalars_eq_error_iff {e : ArrayError} :
    a.toScalars a.tag l = .error e ↔ ∃ i : Nat,
      (∀ j < i, ∃ x, (a.entries l)[j]? = some (.ok (some x))) ∧
      ((a.entries l)[i]? = some (.ok none) ∧ e = .nullNotAllowed ∨
        (a.entries l)[i]? = some (.error e)) := by
  have hreached (i : Nat) (hi : i < (a.entries l).length) :
      Reached requirePresent (a.entries l) i ↔
        ∀ j < i, ∃ x, (a.entries l)[j]? = some (.ok (some x)) := by
    refine forall₂_congr fun j hj => ?_
    rw [List.getElem?_eq_getElem (Nat.lt_trans hj hi)]
    simp [requirePresent_eq_ok_iff]
  rw [toScalars, checkTag, if_pos rfl, ok_bind, mapM_eq_error_iff]
  refine exists_congr fun i => ?_
  constructor
  · rintro ⟨entry, hi, hbefore, he⟩
    refine ⟨(hreached i (List.getElem?_eq_some_iff.mp hi).1).mp hbefore, ?_⟩
    rw [hi, Option.some.injEq, Option.some.injEq]
    exact requirePresent_eq_error_iff.mp he
  · rintro ⟨hbefore, hi⟩
    obtain ⟨entry, hentry, he⟩ : ∃ entry, (a.entries l)[i]? = some entry ∧
        (entry = .ok none ∧ e = .nullNotAllowed ∨ entry = .error e) := by
      obtain ⟨hi, rfl⟩ | hi := hi
      · exact ⟨_, hi, .inl ⟨rfl, rfl⟩⟩
      · exact ⟨_, hi, .inr rfl⟩
    exact ⟨entry, hentry, (hreached i (List.getElem?_eq_some_iff.mp hentry).1).mpr hbefore,
      requirePresent_eq_error_iff.mpr he⟩

/-- Reading an array under a layout goes in order, whatever the layout makes of the bytes. -/
structure Orderly (a : NdArray) (l : Layout) : Prop where
  /-- The walk comes to an end. -/
  ends : (a.walk l).run.2.next? = none
  /-- There are no more entries than items. -/
  length_le : (a.entries l).length ≤ a.size
  /-- An error can only be the last entry. -/
  error_last : ∀ (i : Nat) (e : ArrayError),
    (a.entries l)[i]? = some (.error e) → i + 1 = (a.entries l).length
  /-- Without an error there is an entry for each item. -/
  length_eq : (∀ e, .error e ∉ a.entries l) → (a.entries l).length = a.size
  /-- An entry that is no error is a null where the array says so. -/
  null_iff : ∀ (i : Nat) (item : Option Scalar),
    (a.entries l)[i]? = some (.ok item) → (item = none ↔ a.isNullAt i = true)
  /-- However many steps are taken, they yield the first entries. -/
  steps : ∀ k, ((a.walk l).steps k).1 = (a.entries l).take k
  /-- What can still come is counted down by the entries. -/
  remaining : ∀ k, (∀ e, .error e ∉ ((a.walk l).steps k).1) →
    ((a.walk l).steps k).2.remaining = a.size - ((a.walk l).steps k).1.length
  /-- Behind an error nothing can come. -/
  remaining_error : ∀ k e, .error e ∈ ((a.walk l).steps k).1 →
    ((a.walk l).steps k).2.remaining = 0
  /-- Reading with null flags succeeds exactly when no entry is an error. -/
  toElements_iff : (∃ read, a.toElements a.tag l = .ok read) ↔ ∀ e, .error e ∉ a.entries l
  /-- Reading with null flags gives what the entries are. -/
  toElements_ok : ∀ read, a.toElements a.tag l = .ok read ↔
    ∃ items, a.entries l = items.map .ok ∧ read = Elements.ofItems items
  /-- Reading with null flags fails with the error among the entries. -/
  toElements_error : ∀ e, a.toElements a.tag l = .error e ↔ .error e ∈ a.entries l
  /-- Reading without nulls gives the same elements when no flag is set. -/
  toScalars_ok : ∀ xs, a.toScalars a.tag l = .ok xs ↔
    ∃ read, a.toElements a.tag l = .ok read ∧ true ∉ read.nulls ∧ read.elems = xs
  /-- Reading without nulls fails at the first entry that is no scalar. -/
  toScalars_error : ∀ e, a.toScalars a.tag l = .error e ↔ ∃ i : Nat,
    (∀ j < i, ∃ x, (a.entries l)[j]? = some (.ok (some x))) ∧
    ((a.entries l)[i]? = some (.ok none) ∧ e = .nullNotAllowed ∨
      (a.entries l)[i]? = some (.error e))

/-- Reading succeeds or finds an error. -/
theorem exists_toElements_iff :
    (∃ read, a.toElements a.tag l = .ok read) ↔ ∀ e, .error e ∉ a.entries l := by
  constructor
  · rintro ⟨read, hread⟩ e he
    rw [← toElements_eq_error_iff, hread] at he
    contradiction
  · intro hok
    cases hread : a.toElements a.tag l with
    | ok read => exact ⟨read, rfl⟩
    | error e => exact absurd (toElements_eq_error_iff.mp hread) (hok e)

/-- When the walk has ended nothing is left of it. -/
theorem remaining_run_walk (a : NdArray) (l : Layout) : (a.walk l).run.2.remaining = 0 := by
  obtain ⟨hok, herror⟩ := Walk.remaining_of_steps (a.walk l).remaining (a.walk l)
  by_cases hnone : ∀ e, .error e ∉ a.entries l
  · have hcount : (a.walk l).run.2.remaining + (a.entries l).length = a.size := hok hnone
    rw [length_entries hnone] at hcount
    exact Nat.add_eq_right.mp hcount
  · obtain ⟨e, he⟩ := Classical.not_forall_not.mp hnone
    exact herror e he

/-- Reading without nulls is reading with flags that are all clear. -/
theorem toScalars_eq_ok_iff_toElements :
    a.toScalars a.tag l = .ok xs ↔
      ∃ read, a.toElements a.tag l = .ok read ∧ true ∉ read.nulls ∧ read.elems = xs := by
  rw [toScalars_eq_ok_iff]
  constructor
  · intro h
    refine ⟨Elements.ofItems (xs.map some), toElements_eq_ok_iff.mpr ⟨_, ?_, rfl⟩, ?_, ?_⟩
    · rw [h, List.map_map]
      rfl
    · simp [Elements.ofItems]
    · simp [Elements.ofItems, Function.comp_def]
  · rintro ⟨read, hread, hnulls, rfl⟩
    obtain ⟨items, hitems, rfl⟩ := toElements_eq_ok_iff.mp hread
    simp only [Elements.ofItems, List.mem_map, not_exists, not_and, Bool.not_eq_true] at hnulls
    rw [hitems, Elements.ofItems, List.map_map]
    refine List.map_congr_left fun item hitem => ?_
    have hsome := Option.isNone_eq_false_iff.mp (hnulls item hitem)
    obtain ⟨x, rfl⟩ := Option.isSome_iff_exists.mp hsome
    rfl

/-- **Reading goes in order**: whatever bytes an array has and under whatever layout it is
read, the walk ends after at most as many entries as there are items, in their order and
null where they are.  Only the last entry can be an error, and both readers tell what
comes first. -/
theorem orderly (a : NdArray) (l : Layout) : a.Orderly l where
  ends := Walk.next?_eq_none_iff.mpr (Nat.le_of_sub_eq_zero (a.remaining_run_walk l))
  length_le := by
    rw [← length_nullMask]
    exact (a.entries_follows l).length_le
  error_last _ _ hi := (a.entries_follows l).error_last hi
  length_eq := length_entries
  null_iff i item hi := by
    have hflag := (a.entries_follows l).flag_eq hi
    have hlt := (List.getElem?_eq_some_iff.mp hflag).1
    rw [length_nullMask] at hlt
    rw [getElem?_nullMask hlt, Option.some.injEq] at hflag
    rw [hflag, Option.isNone_iff_eq_none]
  steps := a.steps_walk_eq l
  remaining k hok := by
    have hremaining := (Walk.remaining_of_steps k (a.walk l)).1 hok
    rw [show a.size = (a.walk l).remaining from rfl]
    omega
  remaining_error k e he := (Walk.remaining_of_steps k (a.walk l)).2 e he
  toElements_iff := exists_toElements_iff
  toElements_ok _ := toElements_eq_ok_iff
  toElements_error _ := toElements_eq_error_iff
  toScalars_ok _ := toScalars_eq_ok_iff_toElements
  toScalars_error _ := toScalars_eq_error_iff

end NdArray

end PackedArray
