import PackedArray.Operator.Reduction
import PackedArray.Operator.Scaling
import PackedArray.Proofs.Outcome
import PackedArray.Registry.Status

/-!
# PackedArray.Proofs.Refusals

Errors refuse a call and break nothing.

An operator breaks off only over a scalar that is not stored the way the
elements are.  All its other errors are refusals, and a number that was narrowed
to the tag of the array is always stored that way.

* `dotProduct_refuses` — the errors of a dot product are refusals;
* `mapScalar_refuses` — the errors of scaling by a narrowed number are refusals.
-/

namespace PackedArray

/-! ## statuses -/

/-- Whether a status refuses a call: nothing came of the call, and nothing is
broken. -/
def Status.isRefusal : Status → Bool
  | ok | internalError | panicked => false
  | _ => true

theorem Status.ne_ok_of_isRefusal {s : Status} (h : s.isRefusal = true) : s ≠ .ok := by
  rintro rfl
  contradiction

theorem Status.ne_panicked_of_isRefusal {s : Status} (h : s.isRefusal = true) :
    s ≠ .panicked := by
  rintro rfl
  contradiction

theorem Status.ne_internalError_of_isRefusal {s : Status} (h : s.isRefusal = true) :
    s ≠ .internalError := by
  rintro rfl
  contradiction

theorem ScalarError.isRefusal_status (e : ScalarError) : e.status.isRefusal = true := by
  cases e <;> rfl

theorem AllocError.isRefusal_status (e : AllocError) : e.status.isRefusal = true := by
  cases e <;> rfl

theorem ArrayError.isRefusal_status (e : ArrayError) : e.status.isRefusal = true := by
  cases e with
  | alloc cause => exact cause.isRefusal_status
  | _ => rfl

namespace OpError

/-- The error refuses the call. -/
def Refuses (e : OpError) : Prop := e.status.isRefusal = true

theorem refuses_ofScalar (e : ScalarError) : (ofScalar e).Refuses := by
  cases e <;> rfl

theorem refuses_ofArray (e : ArrayError) : (ofArray e).Refuses := by
  cases e with
  | alloc cause => exact cause.isRefusal_status
  | _ => rfl

end OpError

/-! ## kinds of tags -/

namespace Tag

variable {t : Tag}

theorem kind_eq_ok_iff {k : Kind} : t.kind = .ok k ↔ t.kind? = some k := by
  unfold kind
  cases t.kind? <;> simp

theorem layout_eq_ok_iff {l : Layout} :
    t.layout = .ok l ↔ ∃ k, t.kind? = some k ∧ k.layout = l := by
  rw [layout, map_eq_ok_iff]
  simp only [kind_eq_ok_iff]

theorem layout_of_kind {k : Kind} (hk : t.kind? = some k) : t.layout = .ok k.layout :=
  layout_eq_ok_iff.mpr ⟨k, hk, rfl⟩

theorem layout_of_kind_none (hk : t.kind? = none) : t.layout = .error (.unsupportedType t) := by
  rw [layout, kind, hk]
  rfl

end Tag

open NdArray (Entry)
open OpError (Refuses refuses_ofScalar refuses_ofArray)

/-! ## steps -/

section Steps

variable {P : OpError → Prop} (hscalar : ∀ e, P (.ofScalar e))

include hscalar

theorem liftScalar_failsOnly {α : Type} (x : Except ScalarError α) : FailsOnly P (liftScalar x) :=
  .mapError hscalar

variable (hzero : P .divisionByZero)

include hzero

theorem NumericOp.eval_failsOnly (op : NumericOp) (elt res opt : Double) :
    FailsOnly P (op.eval elt res opt) := by
  cases op with
  | dot => exact liftScalar_failsOnly hscalar _
  | mult => exact liftScalar_failsOnly hscalar _
  | div =>
      rw [eval]
      split
      · exact .error hzero
      · exact liftScalar_failsOnly hscalar _

theorem NumericOp.divideInt_failsOnly (num denom : Int) (tag : Tag) :
    FailsOnly P (divideInt num denom tag) := by
  unfold divideInt
  split
  · exact .error hzero
  · simp only
    split
    · exact liftScalar_failsOnly hscalar _
    · exact .error (hscalar (.outOfRange _))

/-- A step fails over a scalar or a zero denominator. -/
theorem NumericOp.combine_failsOnly (op : NumericOp) (elt : Scalar) (eltTag : Tag) (res : Scalar)
    (resTag : Tag) (opt : Scalar) (optTag : Tag) :
    FailsOnly P (op.combine elt eltTag res resTag opt optTag) := by
  have hlift {α : Type} (x : Except ScalarError α) : FailsOnly P (liftScalar x) :=
    liftScalar_failsOnly hscalar x
  unfold combine
  split
  · refine .bind (hlift _) fun num _ => ?_
    exact .bind (hlift _) fun denom _ => divideInt_failsOnly hscalar hzero num denom _
  · refine .bind (hlift _) fun x _ => ?_
    refine .bind (hlift _) fun acc _ => ?_
    refine .bind (hlift _) fun y _ => ?_
    exact .bind (eval_failsOnly hscalar hzero op x acc y) fun v _ => hlift _

end Steps

theorem NumericOp.combine_refuses (op : NumericOp) (elt : Scalar) (eltTag : Tag) (res : Scalar)
    (resTag : Tag) (opt : Scalar) (optTag : Tag) :
    FailsOnly Refuses (op.combine elt eltTag res resTag opt optTag) :=
  op.combine_failsOnly refuses_ofScalar rfl elt eltTag res resTag opt optTag

/-! ## reductions -/

theorem Entry.scalar_failsOnly {P : OpError → Prop} {entry : Entry} (hnull : P .nullElement)
    (herror : ∀ e, entry = .error e → P (.ofArray e)) : FailsOnly P (Entry.scalar entry) := by
  match entry with
  | .ok (some x) => exact .ok x
  | .ok none => exact .error hnull
  | .error e => exact .error (herror e rfl)

theorem foldPairs_failsOnly {P : OpError → Prop} {f : Combiner} {tag : Tag}
    {pairs : List (Entry × Entry)}
    (hpairs : ∀ p ∈ pairs, FailsOnly P (Entry.scalar p.1) ∧ FailsOnly P (Entry.scalar p.2))
    (hf : ∀ elt eltTag res resTag opt optTag, FailsOnly P (f elt eltTag res resTag opt optTag))
    (acc : Scalar) (calls : Nat) : FailsOnly P (foldPairs f tag pairs acc calls).1 := by
  induction pairs generalizing acc calls with
  | nil => exact .ok acc
  | cons pair pairs ih =>
      obtain ⟨x, y⟩ := pair
      obtain ⟨hx, hy⟩ := hpairs (x, y) List.mem_cons_self
      rw [foldPairs]
      split
      · next e he => exact .error (hx e he)
      · split
        · next e he => exact .error (hy e he)
        · split
          · next e he => exact .error (hf _ _ _ _ _ _ e he)
          · exact ih (fun p hp => hpairs p (List.mem_cons_of_mem _ hp)) _ _

theorem of_rangeConflict {P : OpError → Prop} (hrange : ∀ dim left right,
    P (.rangeMismatch dim left right)) {as bs : List (Int32 × Int32)} {dim : Nat} {e : OpError}
    (h : rangeConflict dim as bs = some e) : P e := by
  induction as generalizing dim bs with
  | nil => contradiction
  | cons a as ih =>
      cases bs with
      | nil => contradiction
      | cons b bs =>
          rw [rangeConflict] at h
          split at h
          · cases h
            exact hrange _ _ _
          · exact ih h

/-- Operands that pass the check carry no bitmaps, and have one tag, that of a numeric
kind. -/
theorem of_checkOperands {a b : NdArray} {n : Nat} {l : Layout}
    (h : checkOperands a b = .ok (n, l)) :
    a.hasNulls = false ∧ b.hasNulls = false ∧ a.tag = b.tag ∧
      ∃ k, a.tag.kind? = some k ∧ l = k.layout := by
  unfold checkOperands at h
  cases hranges : rangeConflict 0 a.ranges b.ranges with
  | some e =>
      rw [hranges] at h
      have h : (Except.error e : Except OpError (Nat × Layout)) = .ok (n, l) := h
      contradiction
  | none =>
      rw [hranges] at h
      obtain ⟨n', -, h⟩ := bind_eq_ok_iff.mp h
      obtain ⟨hflag, h⟩ := refuse_eq_ok_iff.mp h
      obtain ⟨htag, h⟩ := refuse_eq_ok_iff.mp h
      obtain ⟨l', hl, h⟩ := bind_eq_ok_iff.mp h
      obtain ⟨k, hk, rfl⟩ := Tag.layout_eq_ok_iff.mp (mapError_eq_ok_iff.mp hl)
      cases h
      rw [Bool.not_eq_true, Bool.or_eq_false_iff] at hflag
      exact ⟨hflag.1, hflag.2, Decidable.not_not.mp htag, k, hk, rfl⟩

/-- The check of the operands fails over their shapes, over their nulls if the
shapes are the same, and over their tags. -/
theorem checkOperands_failsOnly {P : OpError → Prop} {a b : NdArray}
    (hrange : ∀ dim left right, P (.rangeMismatch dim left right))
    (hsize : P (.ofArray (.sizeExceeded maxItems)))
    (hnull : rangeConflict 0 a.ranges b.ranges = none → (a.hasNulls || b.hasNulls) = true →
      P .nullElement)
    (htag : P (.elementTypeMismatch a.tag b.tag)) (hscalar : ∀ e, P (.ofScalar e)) :
    FailsOnly P (checkOperands a b) := by
  unfold checkOperands
  cases hranges : rangeConflict 0 a.ranges b.ranges with
  | some e => exact .error (of_rangeConflict hrange hranges)
  | none =>
      have hcount : FailsOnly P ((itemCount a.dims).mapError OpError.ofArray) := by
        unfold itemCount
        cases itemCount? a.dims with
        | none => exact .error hsize
        | some n => exact .ok n
      refine .bind hcount fun n _ => ?_
      by_cases hflag : (a.hasNulls || b.hasNulls) = true
      · rw [if_pos hflag]
        exact .error (hnull hranges hflag)
      · rw [if_neg hflag]
        refine .refuse htag fun _ => ?_
        exact .bind (liftScalar_failsOnly hscalar _) fun layout _ => .ok _

/-- A reduction fails as its parts do: the check of the operands, the entries
that are read, the steps and the end. -/
theorem reduce_failsOnly {P : OpError → Prop} {a b : NdArray} {f : Combiner} {fin : Finalizer}
    (hdim : P (.dimensionCountMismatch a.ndim.toInt b.ndim.toInt))
    (hcheck : FailsOnly P (checkOperands a b))
    (hentries : ∀ n l, checkOperands a b = .ok (n, l) → ∀ entry ∈ a.entries l ++ b.entries l,
      FailsOnly P (Entry.scalar entry))
    (hf : ∀ elt eltTag res resTag opt optTag, FailsOnly P (f elt eltTag res resTag opt optTag))
    (hfin : ∀ value n tag, FailsOnly P (fin value n tag).result) :
    FailsOnly P (reduce a b f fin).result := by
  unfold reduce
  split
  · exact .error hdim
  · split
    · exact .ok _
    · split
      · next e he => exact .error (hcheck e he)
      · next n l hok =>
          have hpairs : ∀ p ∈ (a.entries l).zip (b.entries l),
              FailsOnly P (Entry.scalar p.1) ∧ FailsOnly P (Entry.scalar p.2) := fun p hp =>
            ⟨hentries n l hok _ (List.mem_append_left _ (List.of_mem_zip hp).1),
              hentries n l hok _ (List.mem_append_right _ (List.of_mem_zip hp).2)⟩
          have hfold : FailsOnly P (foldPairs f a.tag ((a.entries l).zip (b.entries l))
              (Scalar.ofDouble Double.zero) 0).1 :=
            foldPairs_failsOnly hpairs hf _ _
          simp only
          split
          · next e calls he =>
              rw [he] at hfold
              exact hfold
          · exact hfin _ _ _

/-- **Errors of a dot product are refusals.** -/
theorem dotProduct_refuses (a b : NdArray) : FailsOnly Refuses (dotProduct a b).result :=
  .map (reduce_failsOnly rfl
    (checkOperands_failsOnly (fun _ _ _ => rfl) rfl (fun _ _ => rfl) rfl refuses_ofScalar)
    (fun _ _ _ _ _ => Entry.scalar_failsOnly rfl fun e _ => refuses_ofArray e)
    NumericOp.dot.combine_refuses fun value _ _ => .ok value)

/-! ## scaling -/

/-- A narrowed number is stored the way elements of its kind are. -/
theorem Kind.storesLike_of_narrow {k : Kind} {v : Double} {x : Scalar} (h : k.narrow v = .ok x) :
    k.layout.storesLike x = true := by
  cases k with
  | int w =>
      rw [narrow, IntWidth.narrowDouble] at h
      split at h
      · rw [IntWidth.narrow] at h
        split at h
        · cases h
          cases w <;> rfl
        · contradiction
      · contradiction
  | float4 =>
      obtain ⟨⟨⟩, -, h⟩ := bind_eq_ok_iff.mp h
      cases h
      rfl
  | float8 =>
      cases h
      rfl

/-- A number that was narrowed to a tag is stored the way the elements of that tag are. -/
theorem Tag.storesLike_of_narrow {t : Tag} {v : Double} {x : Scalar} {k : Kind}
    (h : v.narrow t = .ok x) (hk : t.kind? = some k) : k.layout.storesLike x = true := by
  obtain ⟨k', hk', hnarrow⟩ := bind_eq_ok_iff.mp h
  obtain rfl := Option.some.inj (hk.symm.trans (Tag.kind_eq_ok_iff.mp hk'))
  exact Kind.storesLike_of_narrow hnarrow

theorem mapEntries_failsOnly {P : OpError → Prop} {f : Combiner} {tag : Tag} {scalar : Scalar}
    {entries : List Entry} (hentries : ∀ e, .error e ∈ entries → P (.ofArray e))
    (hf : ∀ elt eltTag res resTag opt optTag, FailsOnly P (f elt eltTag res resTag opt optTag)) :
    FailsOnly P (mapEntries f tag scalar entries) := by
  induction entries with
  | nil => exact .ok []
  | cons entry entries ih =>
      have hrest := ih fun e he => hentries e (List.mem_cons_of_mem _ he)
      match entry with
      | .error e => exact .error (hentries e List.mem_cons_self)
      | .ok none => exact .map hrest
      | .ok (some x) =>
          rw [mapEntries]
          split
          · next e he => exact .error (hf _ _ _ _ _ _ e he)
          · exact .map hrest

/-- **Errors of scaling are refusals**, if the scalar is a number that was
narrowed to the tag of the array. -/
theorem mapScalar_refuses {a : NdArray} {number : Double} {scalar : Scalar} {op : NumericOp}
    (hscalar : number.narrow a.tag = .ok scalar) :
    FailsOnly Refuses (mapScalar a scalar op.combine).result := by
  unfold mapScalar
  split
  · exact .ok a
  · split
    · exact .error rfl
    · next kind hkind =>
        simp only [Tag.storesLike_of_narrow hscalar hkind, Bool.not_true, Bool.false_eq_true,
          if_false]
        split
        · next e he =>
            exact .error
              (mapEntries_failsOnly (fun e _ => refuses_ofArray e) op.combine_refuses e he)
        · exact .mapError refuses_ofArray

end PackedArray
