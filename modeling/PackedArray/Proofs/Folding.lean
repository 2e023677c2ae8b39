import PackedArray.Proofs.NullFlag
import PackedArray.Proofs.Readable
import PackedArray.Proofs.Reading

/-!
# PackedArray.Proofs.Folding

A reduction is a checked left fold, whatever the step and the end compute.

`NdArray.Reduces` lists what can become of a reduction, each with the exact
condition under which it does; the conditions exclude each other, and one of them
always holds.  The two walks never disagree and never fail: arrays of one shape
hold the same number of items, and none of them is null.

* `rangeConflict_eq_some_iff` — the first dimension to differ;
* `foldPairs_of_foldlM`, `foldPairs_of_failsAt` — the loop is a fold that counts;
* `NdArray.reduce_iff_reduces` — reductions.
-/

namespace PackedArray

open NdArray (Entry)

/-! ## the loop -/

section Loop

variable {f : Combiner} {tag : Tag} {ps : List (Scalar × Scalar)} {acc last : Scalar} {i : Nat}
  {e : OpError}

/-- One step of a reduction: the running result is in double precision. -/
def foldStep (f : Combiner) (tag : Tag) (acc : Scalar) (p : Scalar × Scalar) :
    Except OpError Scalar :=
  f p.1 tag acc Tag.float8 p.2 tag

/-- The entries of two items that are present. -/
def presentPair (p : Scalar × Scalar) : Entry × Entry := (.ok (some p.1), .ok (some p.2))

theorem foldPairs_cons_of_ok {p : Scalar × Scalar} {next : Scalar} {pairs : List (Entry × Entry)}
    (h : foldStep f tag acc p = .ok next) (calls : Nat) :
    foldPairs f tag (presentPair p :: pairs) acc calls =
      foldPairs f tag pairs next (calls + 1) := by
  rw [foldStep] at h
  simp only [presentPair, foldPairs, Entry.scalar, h]

theorem foldPairs_cons_of_error {p : Scalar × Scalar} {pairs : List (Entry × Entry)}
    (h : foldStep f tag acc p = .error e) (calls : Nat) :
    foldPairs f tag (presentPair p :: pairs) acc calls = (.error e, calls + 1) := by
  rw [foldStep] at h
  simp only [presentPair, foldPairs, Entry.scalar, h]

/-- A fold that gets to its end takes a step for each pair. -/
theorem foldPairs_of_foldlM (h : ps.foldlM (foldStep f tag) acc = .ok last) (calls : Nat) :
    foldPairs f tag (ps.map presentPair) acc calls = (.ok last, calls + ps.length) := by
  induction ps generalizing acc calls with
  | nil =>
      obtain rfl : acc = last := Except.ok.inj h
      rfl
  | cons p ps ih =>
      obtain ⟨next, hp, hps⟩ := foldlM_cons_eq_ok_iff.mp h
      rw [List.map_cons, foldPairs_cons_of_ok hp, ih hps, List.length_cons, Nat.add_assoc,
        Nat.add_comm 1]

/-- A fold that fails takes no step after the one that does. -/
theorem foldPairs_of_failsAt (h : FailsAt (foldStep f tag) acc ps i e) (calls : Nat) :
    foldPairs f tag (ps.map presentPair) acc calls = (.error e, calls + (i + 1)) := by
  induction ps generalizing acc calls i with
  | nil => exact absurd h.lt (Nat.not_lt_zero i)
  | cons p ps ih =>
      cases i with
      | zero => exact foldPairs_cons_of_error (failsAt_cons_zero_iff.mp h) calls
      | succ i =>
          obtain ⟨next, hp, hps⟩ := failsAt_cons_succ_iff.mp h
          rw [List.map_cons, foldPairs_cons_of_ok hp, ih hps, Nat.add_assoc, Nat.add_comm 1]

end Loop

/-! ## ranges -/

/-- The conflict is the first pair of ranges that differ. -/
theorem rangeConflict_eq_some_iff {as bs : List (Int32 × Int32)} {dim : Nat} {e : OpError} :
    rangeConflict dim as bs = some e ↔
      ∃ i p q, as[i]? = some p ∧ bs[i]? = some q ∧ p ≠ q ∧ as.take i = bs.take i ∧
        e = .rangeMismatch (dim + i) (p.2, p.2 + p.1) (q.2, q.2 + q.1) := by
  induction as generalizing dim bs with
  | nil => simp [rangeConflict]
  | cons a as ih =>
      cases bs with
      | nil => simp [rangeConflict]
      | cons b bs =>
          by_cases hab : a = b
          · subst hab
            rw [rangeConflict_cons_self, ih]
            constructor
            · rintro ⟨i, p, q, hp, hq, hne, htake, rfl⟩
              refine ⟨i + 1, p, q, hp, hq, hne, ?_, by rw [Nat.add_right_comm]; rfl⟩
              rw [List.take_succ_cons, List.take_succ_cons, htake]
            · rintro ⟨i, p, q, hp, hq, hne, htake, rfl⟩
              cases i with
              | zero => exact absurd (Option.some.inj (hp.symm.trans hq)) hne
              | succ i =>
                  exact ⟨i, p, q, hp, hq, hne, (List.cons.inj htake).2,
                    by rw [Nat.add_right_comm]; rfl⟩
          · rw [rangeConflict_cons_of_ne dim hab, Option.some.injEq]
            constructor
            · rintro rfl
              exact ⟨0, a, b, rfl, rfl, hab, rfl, rfl⟩
            · rintro ⟨i, p, q, hp, hq, -, htake, rfl⟩
              cases i with
              | zero =>
                  cases hp
                  cases hq
                  rfl
              | succ i => exact absurd (List.cons.inj htake).1 hab

namespace NdArray

variable {a b : NdArray} {k : Kind} {xs ys : List Scalar} {f : Combiner} {fin : Finalizer}
  {r : Reduction}

/-! ## conditions -/

/-- The arrays have dimensions, as many, and have the same ones. -/
structure SameShape (a b : NdArray) : Prop where
  ndim_ne_zero : a.ndim ≠ 0
  ndim_eq : a.ndim = b.ndim
  dims : a.dims = b.dims
  lbounds : a.lbounds = b.lbounds

/-- Dimension `dim` is the first in which the arrays differ, and has these extents
and lower bounds. -/
structure DifferAt (a b : NdArray) (dim : Nat) (d₁ l₁ d₂ l₂ : Int32) : Prop where
  left : a.dims[dim]? = some d₁ ∧ a.lbounds[dim]? = some l₁
  right : b.dims[dim]? = some d₂ ∧ b.lbounds[dim]? = some l₂
  differ : d₁ ≠ d₂ ∨ l₁ ≠ l₂
  before : a.dims.take dim = b.dims.take dim ∧ a.lbounds.take dim = b.lbounds.take dim

/-- The arrays can be folded, and read as these items. -/
structure Foldable (a b : NdArray) (xs ys : List Scalar) : Prop where
  shape : SameShape a b
  nulls : a.nulls = none ∧ b.nulls = none
  tag : a.tag = b.tag
  /-- The tag is numeric, and both arrays are read to the end. -/
  read : ∃ k, a.tag.kind? = some k ∧
    a.toScalars a.tag k.layout = .ok xs ∧ b.toScalars b.tag k.layout = .ok ys
  length : xs.length = a.size ∧ ys.length = a.size

/-- What becomes of a reduction.  The steps that are taken are counted. -/
inductive Reduces (a b : NdArray) (f : Combiner) (fin : Finalizer) : Reduction → Prop
  /-- The numbers of dimensions differ. -/
  | dimensions : a.ndim ≠ b.ndim →
      Reduces a b f fin {
        result := .error (.dimensionCountMismatch a.ndim.toInt b.ndim.toInt), calls := 0 }
  /-- Without dimensions there is nothing to fold or to finish, whatever the tags. -/
  | empty : a.ndim = 0 → b.ndim = 0 →
      Reduces a b f fin {
        result := .ok (Scalar.ofDouble Double.zero), calls := 0, warnings := [.emptyArrays] }
  /-- As many dimensions, but not the same ones. -/
  | ranges {dim d₁ l₁ d₂ l₂} : a.ndim = b.ndim → DifferAt a b dim d₁ l₁ d₂ l₂ →
      Reduces a b f fin {
        result := .error (.rangeMismatch dim (l₁, l₁ + d₁) (l₂, l₂ + d₂)), calls := 0 }
  /-- One of the arrays carries a null bitmap. -/
  | nulls : SameShape a b → a.nulls ≠ none ∨ b.nulls ≠ none →
      Reduces a b f fin { result := .error .nullElement, calls := 0 }
  | tags : SameShape a b → a.nulls = none → b.nulls = none → a.tag ≠ b.tag →
      Reduces a b f fin { result := .error (.elementTypeMismatch a.tag b.tag), calls := 0 }
  | kind : SameShape a b → a.nulls = none → b.nulls = none → a.tag = b.tag → a.tag.kind? = none →
      Reduces a b f fin { result := .error (.unsupportedType a.tag), calls := 0 }
  /-- Step `i` is the first to fail. -/
  | failed {xs ys i e} : Foldable a b xs ys →
      FailsAt (foldStep f a.tag) (Scalar.ofDouble Double.zero) (xs.zip ys) i e →
      Reduces a b f fin { result := .error e, calls := i + 1 }
  /-- No step fails: the end sees the last running result and the item count. -/
  | folded {xs ys last} : Foldable a b xs ys →
      (xs.zip ys).foldlM (foldStep f a.tag) (Scalar.ofDouble Double.zero) = .ok last →
      Reduces a b f fin {
        result := (fin last a.size Tag.float8).result, calls := a.size,
        warnings := (fin last a.size Tag.float8).warnings }

/-! ## reading -/

/-- A filled array without a bitmap is read to the end. -/
theorem Filled.exists_toScalars (h : a.Filled) (hk : a.tag.kind? = some k)
    (hnulls : a.nulls = none) :
    ∃ xs, a.toScalars a.tag k.layout = .ok xs ∧ xs.length = a.size := by
  obtain ⟨items, hholds⟩ := h.exists_holds hk
  have hnone : none ∉ items := by
    rw [hholds.none_mem_iff]
    simp [isNullAt, hnulls]
  refine ⟨items.map (·.getD Scalar.zero), ?_, ?_⟩
  · rw [toScalars_of_holds hholds, if_neg hnone]
  · rw [List.length_map, hholds.length_items]

/-! ## checks -/

theorem SameShape.size_eq (h : SameShape a b) : a.size = b.size := by
  unfold size isEmpty
  rw [h.ndim_eq, h.dims]

theorem DifferAt.ndim_ne_zero {dim : Nat} {d₁ l₁ d₂ l₂ : Int32}
    (h : DifferAt a b dim d₁ l₁ d₂ l₂) (ha : a.WellFormed) : a.ndim ≠ 0 := by
  obtain ⟨hlt, -⟩ := List.getElem?_eq_some_iff.mp h.left.1
  exact mt ha.ndim_eq_zero_iff.mp (List.ne_nil_of_length_pos (Nat.zero_lt_of_lt hlt))

/-- The ranges tell the first dimension to differ. -/
theorem WellFormed.differAt_iff (ha : a.WellFormed) (hb : b.WellFormed) {dim : Nat}
    {d₁ l₁ d₂ l₂ : Int32} :
    DifferAt a b dim d₁ l₁ d₂ l₂ ↔
      a.ranges[dim]? = some (d₁, l₁) ∧ b.ranges[dim]? = some (d₂, l₂) ∧ (d₁, l₁) ≠ (d₂, l₂) ∧
        a.ranges.take dim = b.ranges.take dim := by
  have heven {a : NdArray} (h : a.WellFormed) :
      (a.dims.take dim).length = (a.lbounds.take dim).length := by
    rw [List.length_take, List.length_take, h.length_lbounds]
  have htake : a.ranges.take dim = b.ranges.take dim ↔
      a.dims.take dim = b.dims.take dim ∧ a.lbounds.take dim = b.lbounds.take dim := by
    rw [ranges, ranges, List.zip_eq_zipWith, List.zip_eq_zipWith, List.take_zipWith,
      List.take_zipWith, ← List.zip_eq_zipWith, ← List.zip_eq_zipWith,
      zip_eq_zip_iff (heven ha) (heven hb)]
  have hne : (d₁, l₁) ≠ (d₂, l₂) ↔ d₁ ≠ d₂ ∨ l₁ ≠ l₂ := by
    rw [ne_eq, Prod.mk.injEq, Decidable.not_and_iff_or_not]
  rw [htake, hne, ranges, ranges, List.getElem?_zip_eq_some, List.getElem?_zip_eq_some]
  exact ⟨fun h => ⟨h.left, h.right, h.differ, h.before⟩,
    fun h => ⟨h.1, h.2.1, h.2.2.1, h.2.2.2⟩⟩

/-- Shapes are checked by the first dimension to differ. -/
theorem WellFormed.rangeConflict_eq_some_iff (ha : a.WellFormed) (hb : b.WellFormed)
    {e : OpError} :
    rangeConflict 0 a.ranges b.ranges = some e ↔
      ∃ dim d₁ l₁ d₂ l₂, DifferAt a b dim d₁ l₁ d₂ l₂ ∧
        e = .rangeMismatch dim (l₁, l₁ + d₁) (l₂, l₂ + d₂) := by
  rw [PackedArray.rangeConflict_eq_some_iff]
  constructor
  · rintro ⟨dim, ⟨d₁, l₁⟩, ⟨d₂, l₂⟩, hp, hq, hne, htake, he⟩
    rw [Nat.zero_add] at he
    exact ⟨dim, d₁, l₁, d₂, l₂, (ha.differAt_iff hb).mpr ⟨hp, hq, hne, htake⟩, he⟩
  · rintro ⟨dim, d₁, l₁, d₂, l₂, hdiffer, rfl⟩
    obtain ⟨hp, hq, hne, htake⟩ := (ha.differAt_iff hb).mp hdiffer
    exact ⟨dim, _, _, hp, hq, hne, htake, by rw [Nat.zero_add]⟩

/-- Arrays of as many dimensions have the same ones, or differ in a first one. -/
theorem sameShape_or_differAt (ha : a.WellFormed) (hb : b.WellFormed) (hdim : a.ndim = b.ndim)
    (hne : a.ndim ≠ 0) :
    SameShape a b ∨ ∃ dim d₁ l₁ d₂ l₂, DifferAt a b dim d₁ l₁ d₂ l₂ := by
  cases hranges : rangeConflict 0 a.ranges b.ranges with
  | none =>
      obtain ⟨hdims, hlbounds⟩ := (ha.rangeConflict_eq_none_iff hb hdim).mp hranges
      exact .inl ⟨hne, hdim, hdims, hlbounds⟩
  | some e =>
      obtain ⟨dim, d₁, l₁, d₂, l₂, hdiffer, -⟩ := (ha.rangeConflict_eq_some_iff hb).mp hranges
      exact .inr ⟨dim, d₁, l₁, d₂, l₂, hdiffer⟩

/-- Past the shapes, the check is of bitmaps and of tags. -/
theorem SameShape.checkOperands_eq (h : SameShape a b) (ha : a.WellFormed) (hb : b.WellFormed) :
    checkOperands a b =
      if a.nulls ≠ none ∨ b.nulls ≠ none then .error .nullElement
      else if a.tag ≠ b.tag then .error (.elementTypeMismatch a.tag b.tag)
      else match a.tag.kind? with
        | none => .error (.unsupportedType a.tag)
        | some k => .ok (a.size, k.layout) := by
  have hflag : (a.hasNulls || b.hasNulls) = true ↔ a.nulls ≠ none ∨ b.nulls ≠ none := by
    rw [Bool.or_eq_true, ha.hasNulls_eq, hb.hasNulls_eq, Option.isSome_iff_ne_none,
      Option.isSome_iff_ne_none]
  have hnone := (ha.rangeConflict_eq_none_iff hb h.ndim_eq).mpr ⟨h.dims, h.lbounds⟩
  simp only [checkOperands, hnone, ha.itemCount_dims, hflag, Tag.layout, Tag.kind]
  split
  · rfl
  · split
    · rfl
    · cases a.tag.kind? <;> rfl

/-! ## outcomes -/

theorem reduce_of_checkOperands_eq_error {e : OpError} (hdim : a.ndim = b.ndim)
    (hne : a.ndim ≠ 0) (h : checkOperands a b = .error e) :
    reduce a b f fin = { result := .error e } := by
  rw [reduce, if_neg (not_not_intro hdim), if_neg (mt isEmpty_iff.mp hne), h]

/-- Arrays that can be folded pass the check, and their entries are pairs of items. -/
theorem Foldable.exists_layout (h : Foldable a b xs ys) (ha : a.WellFormed) (hb : b.WellFormed) :
    ∃ l, checkOperands a b = .ok (a.size, l) ∧
      (a.entries l).zip (b.entries l) = (xs.zip ys).map presentPair := by
  obtain ⟨k, hk, hxs, hys⟩ := h.read
  refine ⟨k.layout, ?_, ?_⟩
  · rw [h.shape.checkOperands_eq ha hb, if_neg (by simp [h.nulls]), if_neg (not_not_intro h.tag),
      hk]
  · rw [toScalars_eq_ok_iff.mp hxs, toScalars_eq_ok_iff.mp hys, List.zip_map]
    rfl

section Foldable

variable (h : Foldable a b xs ys) (ha : a.WellFormed) (hb : b.WellFormed) {last : Scalar}
  {calls : Nat}

include h ha hb

theorem Foldable.reduce_of_error {e : OpError}
    (hfold : foldPairs f a.tag ((xs.zip ys).map presentPair) (Scalar.ofDouble Double.zero) 0 =
      (.error e, calls)) :
    reduce a b f fin = { result := .error e, calls } := by
  obtain ⟨l, hcheck, hpairs⟩ := h.exists_layout ha hb
  rw [reduce, if_neg (not_not_intro h.shape.ndim_eq),
    if_neg (mt isEmpty_iff.mp h.shape.ndim_ne_zero), hcheck]
  simp only [hpairs, hfold]

theorem Foldable.reduce_of_ok
    (hfold : foldPairs f a.tag ((xs.zip ys).map presentPair) (Scalar.ofDouble Double.zero) 0 =
      (.ok last, calls)) :
    reduce a b f fin = {
      result := (fin last a.size Tag.float8).result, calls
      warnings := (fin last a.size Tag.float8).warnings } := by
  obtain ⟨l, hcheck, hpairs⟩ := h.exists_layout ha hb
  rw [reduce, if_neg (not_not_intro h.shape.ndim_eq),
    if_neg (mt isEmpty_iff.mp h.shape.ndim_ne_zero), hcheck]
  simp only [hpairs, hfold]

end Foldable

/-- The condition of each outcome is enough for it. -/
theorem Reduces.reduce_eq (h : Reduces a b f fin r) (ha : a.WellFormed) (hb : b.WellFormed) :
    reduce a b f fin = r := by
  cases h with
  | dimensions hdim => rw [reduce, if_pos hdim]
  | empty hzero hzero' =>
      rw [reduce, if_neg (by simp [hzero, hzero']), if_pos (isEmpty_iff.mpr hzero)]
  | ranges hdim hdiffer =>
      refine reduce_of_checkOperands_eq_error hdim (hdiffer.ndim_ne_zero ha) ?_
      have hconflict := (ha.rangeConflict_eq_some_iff hb).mpr ⟨_, _, _, _, _, hdiffer, rfl⟩
      rw [checkOperands, hconflict]
      rfl
  | nulls hshape hnulls =>
      refine reduce_of_checkOperands_eq_error hshape.ndim_eq hshape.ndim_ne_zero ?_
      rw [hshape.checkOperands_eq ha hb, if_pos hnulls]
  | tags hshape hnone hnone' htag =>
      refine reduce_of_checkOperands_eq_error hshape.ndim_eq hshape.ndim_ne_zero ?_
      rw [hshape.checkOperands_eq ha hb, if_neg (by simp [hnone, hnone']), if_pos htag]
  | kind hshape hnone hnone' htag hkind =>
      refine reduce_of_checkOperands_eq_error hshape.ndim_eq hshape.ndim_ne_zero ?_
      rw [hshape.checkOperands_eq ha hb, if_neg (by simp [hnone, hnone']),
        if_neg (not_not_intro htag), hkind]
  | failed hfold hfails =>
      rw [hfold.reduce_of_error ha hb (foldPairs_of_failsAt hfails 0), Nat.zero_add]
  | @folded xs ys last hfold hlast =>
      have hlen : (xs.zip ys).length = a.size := by
        rw [List.length_zip, hfold.length.1, hfold.length.2, Nat.min_self]
      rw [hfold.reduce_of_ok ha hb (foldPairs_of_foldlM hlast 0), Nat.zero_add, hlen]

/-- Filled arrays of one shape, without bitmaps and of one numeric tag can be
folded. -/
theorem exists_foldable (ha : a.Filled) (hb : b.Filled) (hshape : SameShape a b)
    (hnone : a.nulls = none) (hnone' : b.nulls = none) (htag : a.tag = b.tag)
    (hk : a.tag.kind? = some k) : ∃ xs ys, Foldable a b xs ys := by
  obtain ⟨xs, hxs, hlen⟩ := ha.exists_toScalars hk hnone
  obtain ⟨ys, hys, hlen'⟩ := hb.exists_toScalars (htag ▸ hk) hnone'
  exact ⟨xs, ys, hshape, ⟨hnone, hnone'⟩, htag, ⟨k, hk, hxs, hys⟩, hlen,
    hlen'.trans hshape.size_eq.symm⟩

/-- One of the conditions always holds. -/
theorem exists_reduces (ha : a.WellFormed) (hb : b.WellFormed) (hfill : a.Filled)
    (hfill' : b.Filled) (f : Combiner) (fin : Finalizer) : ∃ r, Reduces a b f fin r := by
  by_cases hdim : a.ndim = b.ndim
  case neg => exact ⟨_, .dimensions hdim⟩
  by_cases hzero : a.ndim = 0
  case pos => exact ⟨_, .empty hzero (hdim ▸ hzero)⟩
  obtain hshape | ⟨dim, d₁, l₁, d₂, l₂, hdiffer⟩ := sameShape_or_differAt ha hb hdim hzero
  case inr => exact ⟨_, .ranges hdim hdiffer⟩
  by_cases hnulls : a.nulls ≠ none ∨ b.nulls ≠ none
  case pos => exact ⟨_, .nulls hshape hnulls⟩
  obtain ⟨hnone, hnone'⟩ : a.nulls = none ∧ b.nulls = none := by simpa using hnulls
  by_cases htag : a.tag = b.tag
  case neg => exact ⟨_, .tags hshape hnone hnone' htag⟩
  cases hk : a.tag.kind? with
  | none => exact ⟨_, .kind hshape hnone hnone' htag hk⟩
  | some k =>
      obtain ⟨xs, ys, hfold⟩ := exists_foldable hfill hfill' hshape hnone hnone' htag hk
      obtain ⟨last, hlast⟩ | ⟨i, e, hfails⟩ :=
        foldlM_ok_or_failsAt (foldStep f a.tag) (Scalar.ofDouble Double.zero) (xs.zip ys)
      · exact ⟨_, .folded hfold hlast⟩
      · exact ⟨_, .failed hfold hfails⟩

/-- An error of an array is an answer of the step or of the end. -/
theorem Reduces.of_array_error {cause : ArrayError} (h : Reduces a b f fin r)
    (hr : r.result = .error (.array cause)) :
    (∃ x acc y, f x a.tag acc Tag.float8 y a.tag = .error (.array cause)) ∨
      ∃ last, (fin last a.size Tag.float8).result = .error (.array cause) := by
  cases h with
  | failed hfold hfails =>
      obtain ⟨acc, p, -, -, hp⟩ := hfails
      rw [Except.error.inj hr] at hp
      exact .inl ⟨p.1, acc, p.2, hp⟩
  | folded hfold hlast => exact .inr ⟨_, hr⟩
  | dimensions | empty | ranges | nulls | tags | kind => simp at hr

/-- **Reductions are checked left folds**: whatever arrays are reduced, with
whatever step and whatever end, the reduction is what `Reduces` lists.  Reading
never fails, so an error of an array can only be an answer of the step or of the
end. -/
theorem reduce_iff_reduces (ha : Obtained Tag.Admits a) (hb : Obtained Tag.Admits b)
    (f : Combiner) (fin : Finalizer) :
    (∀ r, reduce a b f fin = r ↔ Reduces a b f fin r) ∧
    ∀ cause, (reduce a b f fin).result = .error (.array cause) →
      (∃ x acc y, f x a.tag acc Tag.float8 y a.tag = .error (.array cause)) ∨
      ∃ last, (fin last a.size Tag.float8).result = .error (.array cause) := by
  have hreduces : Reduces a b f fin (reduce a b f fin) := by
    obtain ⟨r, hr⟩ := exists_reduces ha.wellFormed hb.wellFormed ha.filled hb.filled f fin
    rwa [hr.reduce_eq ha.wellFormed hb.wellFormed]
  refine ⟨fun r => ⟨?_, fun hr => hr.reduce_eq ha.wellFormed hb.wellFormed⟩, fun cause hcause =>
    hreduces.of_array_error hcause⟩
  rintro rfl
  exact hreduces

/-- Two small integers from the trust boundary, beside two that were made, and a step
that fails at the second pair with an error of an array. -/
theorem reduce_iff_reduces_decoded :
    let a := assemble Tag.int2 [2] [1] [false, false] [255, 127, 1, 128]
    let buf := [112, 0, 0, 0, 1, 0, 0, 0, 0, 0, 0, 0, 1, 0, 0, 0, 2, 0, 0, 0, 1, 0, 0, 0,
      255, 127, 1, 128]
    let b := assemble Tag.int2 [2] [1] [false, false] [2, 0, 3, 0]
    let f : Combiner := fun x _ acc _ y _ =>
      if y = .word 3 then .error (.array (.sizeExceeded 7)) else if x = y then .ok acc else .ok x
    let fin := Finalizer.average
    decode buf = .ok a ∧
      ofElements [.word 2, .word 3] none [2] [1] Tag.int2 (Kind.int .two).layout = .ok b ∧
    (∀ r, reduce a b f fin = r ↔ Reduces a b f fin r) ∧
    ∀ cause, (reduce a b f fin).result = .error (.array cause) →
      (∃ x acc y, f x a.tag acc Tag.float8 y a.tag = .error (.array cause)) ∨
      ∃ last, (fin last a.size Tag.float8).result = .error (.array cause) := by
  intro a buf b f fin
  have hdecode : decode buf = .ok a := by
    simp only [buf, a]
    exact eq_ok_of_toOption (by decide +kernel)
  have hmade :
      ofElements [.word 2, .word 3] none [2] [1] Tag.int2 (Kind.int .two).layout = .ok b := by
    simp only [b]
    rfl
  have hadmits : Tag.int2.Admits (Kind.int .two).layout := by
    rintro k ⟨⟩
    rfl
  exact ⟨hdecode, hmade,
    reduce_iff_reduces (Obtained.decode hdecode) (.ofElements hadmits hmade) f fin⟩

end NdArray

end PackedArray
