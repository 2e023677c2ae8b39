import PackedArray.Proofs.ElementWise
import PackedArray.Proofs.Reading
import PackedArray.Proofs.Refusals

/-!
# PackedArray.Proofs.FloatPolicy

No infinity and no zero comes from nowhere.

A step is refused if its result is an infinity or a zero that the operands of the
step do not explain.  What holds of a step does not depend on how numbers are added,
multiplied or divided, so these operations are left open here: `NumericOp.combineBy`
is the step with any `Arithmetic` in the place of the usual one.

In a fold the running result is an operand too.  Had it ever become infinite, every
later infinity would be explained, so what carries the fold is that it never does.

* `NumericOp.evalBy_eq_ok` — a step accepts what its operands explain;
* `foldPairs_isInfinite` — the running result of a dot product is never infinite;
* `NdArray.WellFormed.exists_items_of_mapScalar` — scaling that succeeds took its step for
  every item;
* `NdArray.dot_finite_and_mapScalar_explains` — dot products and scaling.
-/

namespace PackedArray

open NdArray (Entry)

/-! ## steps with other arithmetic -/

/-- The operations that the steps are made of, whatever they compute. -/
structure Arithmetic where
  add : Double → Double → Double
  mul : Double → Double → Double
  div : Double → Double → Double

/-- The arithmetic of double precision. -/
def Double.arithmetic : Arithmetic := ⟨Double.add, Double.mul, Double.div⟩

namespace NumericOp

/-- The arithmetic of a step, made of these operations. -/
def evalBy (ar : Arithmetic) (op : NumericOp) (elt res opt : Double) : Except OpError Double :=
  match op with
  | dot =>
    checked (ar.add res (ar.mul elt opt)) (elt.isInfinite || res.isInfinite || opt.isInfinite)
      true
  | mult =>
    checked (ar.mul elt opt) (elt.isInfinite || opt.isInfinite) (elt.isZero || opt.isZero)
  | div =>
    if opt.isZero then .error .divisionByZero
    else checked (ar.div elt opt) (elt.isInfinite || opt.isInfinite) elt.isZero

/-- The step on scalars, made of these operations. -/
def combineBy (ar : Arithmetic) (op : NumericOp) : Combiner :=
  fun elt eltTag res resTag opt optTag =>
    if op = div ∧ resTag.isInteger then do
      let num ← liftScalar (elt.widenInt eltTag)
      let denom ← liftScalar (opt.widenInt optTag)
      divideInt num denom resTag
    else do
      let x ← liftScalar (elt.widen eltTag)
      let acc ← liftScalar (res.widen resTag)
      let y ← liftScalar (opt.widen optTag)
      liftScalar ((← op.evalBy ar x acc y).narrow resTag)

/-- The steps are those with the arithmetic of double precision. -/
theorem combineBy_arithmetic (op : NumericOp) : op.combineBy Double.arithmetic = op.combine := by
  cases op <;> rfl

/-! ## one step -/

variable {ar : Arithmetic} {op : NumericOp} {elt res opt v w : Double} {infinityOk zeroOk : Bool}

theorem checked_eq_ok_iff :
    checked v infinityOk zeroOk = .ok w ↔
      v = w ∧ (v.isInfinite = true → infinityOk = true) ∧ (v.isZero = true → zeroOk = true) := by
  rw [checked, liftScalar, mapError_eq_ok_iff, map_eq_ok_iff]
  unfold checkFloat
  cases v.isInfinite <;> cases infinityOk <;> cases v.isZero <;> cases zeroOk <;> simp

/-- A step accepts an infinity if an operand is one, the running result only in a
fold, and a zero if the exact result is one. -/
theorem evalBy_eq_ok (h : op.evalBy ar elt res opt = .ok v) :
    (v.isInfinite = true →
      elt.isInfinite = true ∨ opt.isInfinite = true ∨ op = .dot ∧ res.isInfinite = true) ∧
    (v.isZero = true → op = .dot ∨ elt.isZero = true ∨ op = .mult ∧ opt.isZero = true) := by
  cases op with
  | dot =>
      obtain ⟨rfl, hinf, -⟩ := checked_eq_ok_iff.mp h
      refine ⟨fun hv => ?_, fun _ => .inl rfl⟩
      have hoperand := hinf hv
      simp only [Bool.or_eq_true] at hoperand
      grind
  | mult =>
      obtain ⟨rfl, hinf, hzero⟩ := checked_eq_ok_iff.mp h
      simp only [Bool.or_eq_true] at hinf hzero
      grind
  | div =>
      rw [evalBy] at h
      split at h
      · contradiction
      · obtain ⟨rfl, hinf, hzero⟩ := checked_eq_ok_iff.mp h
        simp only [Bool.or_eq_true] at hinf hzero
        grind

/-- Into a double a step is nothing but its arithmetic. -/
theorem combineBy_eq_ok {x acc y r : Scalar} {tag : Tag}
    (h : op.combineBy ar x tag acc Tag.float8 y tag = .ok r) :
    ∃ vx vy v, x.widen tag = .ok vx ∧ y.widen tag = .ok vy ∧
      op.evalBy ar vx acc.asDouble vy = .ok v ∧ r = Scalar.ofDouble v := by
  have hfloat : ¬(op = div ∧ Tag.float8.isInteger = true) := fun hdiv => by
    have hinteger := hdiv.2
    contradiction
  rw [combineBy, if_neg hfloat] at h
  obtain ⟨vx, hx, hrest⟩ := bind_eq_ok_iff.mp h
  obtain ⟨va, ha, hrest⟩ := bind_eq_ok_iff.mp hrest
  obtain ⟨vy, hy, hrest⟩ := bind_eq_ok_iff.mp hrest
  obtain ⟨v, hv, hnarrow⟩ := bind_eq_ok_iff.mp hrest
  obtain rfl : acc.asDouble = va := Except.ok.inj ha
  exact ⟨vx, vy, v, mapError_eq_ok_iff.mp hx, mapError_eq_ok_iff.mp hy, hv,
    (Except.ok.inj hnarrow).symm⟩

end NumericOp

/-! ## the running result -/

/-- Whatever the scalar widens to is no infinity. -/
def Scalar.WidensFinite (x : Scalar) (tag : Tag) : Prop :=
  ∀ v, x.widen tag = .ok v → v.isInfinite = false

/-- No item of the array widens to an infinity. -/
def NdArray.WidensFinite (a : NdArray) : Prop :=
  ∀ l, a.tag.layout = .ok l → ∀ x, .ok (some x) ∈ a.entries l → x.WidensFinite a.tag

open NumericOp (dot)

/-- A step of a dot product keeps the running result from being infinite. -/
theorem combineBy_dot_isInfinite {ar : Arithmetic} {tag : Tag} {x acc y r : Scalar}
    (hx : x.WidensFinite tag) (hy : y.WidensFinite tag) (hacc : acc.asDouble.isInfinite = false)
    (h : dot.combineBy ar x tag acc Tag.float8 y tag = .ok r) :
    r.asDouble.isInfinite = false := by
  obtain ⟨vx, vy, v, hvx, hvy, hv, rfl⟩ := NumericOp.combineBy_eq_ok h
  rw [Scalar.asDouble_ofDouble, Bool.eq_false_iff]
  intro hinf
  obtain hoperand | hoperand | ⟨-, hoperand⟩ := (NumericOp.evalBy_eq_ok hv).1 hinf
  · exact absurd hoperand (Bool.eq_false_iff.mp (hx vx hvx))
  · exact absurd hoperand (Bool.eq_false_iff.mp (hy vy hvy))
  · exact absurd hoperand (Bool.eq_false_iff.mp hacc)

/-- The running result is not infinite, however far the fold gets. -/
theorem foldPairs_isInfinite {ar : Arithmetic} {tag : Tag} {pairs : List (Entry × Entry)}
    {acc last : Scalar} {calls calls' : Nat}
    (hpairs : ∀ p ∈ pairs, ∀ x, p.1 = .ok (some x) ∨ p.2 = .ok (some x) → x.WidensFinite tag)
    (hacc : acc.asDouble.isInfinite = false)
    (h : foldPairs (dot.combineBy ar) tag pairs acc calls = (.ok last, calls')) :
    last.asDouble.isInfinite = false := by
  induction pairs generalizing acc calls with
  | nil =>
      obtain rfl : acc = last := Except.ok.inj (congrArg Prod.fst h)
      exact hacc
  | cons p pairs ih =>
      obtain ⟨hp, hrest⟩ := List.forall_mem_cons.mp hpairs
      match p with
      | (.ok (some x), .ok (some y)) =>
          cases hstep : dot.combineBy ar x tag acc Tag.float8 y tag with
          | error e =>
              simp only [foldPairs, Entry.scalar, hstep] at h
              exact absurd (congrArg Prod.fst h) (by simp)
          | ok next =>
              simp only [foldPairs, Entry.scalar, hstep] at h
              exact ih hrest (combineBy_dot_isInfinite (hp x (.inl rfl)) (hp y (.inr rfl)) hacc
                hstep) h
      | (.ok none, _) | (.error _, _) | (.ok (some _), .ok none) | (.ok (some _), .error _) =>
          simp only [foldPairs, Entry.scalar] at h
          exact absurd (congrArg Prod.fst h) (by simp)

namespace NdArray

variable {ar : Arithmetic} {a b : NdArray} {n : Nat} {l : Layout}

/-- Up to any pair, the running result of a dot product is not infinite. -/
theorem foldPairs_take_isInfinite (ha : a.WidensFinite) (hb : b.WidensFinite)
    (hcheck : checkOperands a b = .ok (n, l)) (i : Nat) {acc : Scalar} {calls : Nat}
    (h : foldPairs (dot.combineBy ar) a.tag (((a.entries l).zip (b.entries l)).take i)
      (Scalar.ofDouble Double.zero) 0 = (.ok acc, calls)) :
    acc.asDouble.isInfinite = false := by
  obtain ⟨-, -, htag, k, hk, rfl⟩ := of_checkOperands hcheck
  have hl := Tag.layout_of_kind hk
  refine foldPairs_isInfinite (fun p hp x hx => ?_) (by decide) h
  have hmem := List.mem_of_mem_take hp
  obtain hx | hx := hx
  · refine ha _ hl x ?_
    rw [← hx]
    exact (List.of_mem_zip hmem).1
  · rw [htag]
    refine hb _ (htag ▸ hl) x ?_
    rw [← hx]
    exact (List.of_mem_zip hmem).2

/-- The dot product of arrays of finite numbers is not infinite. -/
theorem reduce_dot_isInfinite (ha : a.WidensFinite) (hb : b.WidensFinite) {x : Scalar}
    (h : (reduce a b (dot.combineBy ar) Finalizer.noop).result = .ok x) :
    x.asDouble.isInfinite = false := by
  have hzero : (Scalar.ofDouble Double.zero).asDouble.isInfinite = false := by decide
  unfold reduce at h
  split at h
  · contradiction
  · split at h
    · obtain rfl := Except.ok.inj h
      exact hzero
    · cases hcheck : checkOperands a b with
      | error e =>
          rw [hcheck] at h
          contradiction
      | ok shape =>
          obtain ⟨n, l⟩ := shape
          rw [hcheck] at h
          cases hfold : foldPairs (dot.combineBy ar) a.tag ((a.entries l).zip (b.entries l))
              (Scalar.ofDouble Double.zero) 0 with
          | mk result calls =>
              simp only [hfold] at h
              cases result with
              | error e => contradiction
              | ok acc =>
                  obtain rfl := Except.ok.inj h
                  rw [← List.take_length (l := (a.entries l).zip (b.entries l))] at hfold
                  exact foldPairs_take_isInfinite ha hb hcheck _ hfold

/-! ## scaling -/

variable {k : Kind} {r : NdArray} {scalar : Scalar} {f : Combiner}

/-- Entries that were all stepped over are items. -/
theorem exists_items_of_mapEntries {tag : Tag} {entries : List Entry}
    {results : List (Option Scalar)} (h : mapEntries f tag scalar entries = .ok results) :
    ∃ items : List (Option Scalar), entries = items.map .ok := by
  induction entries generalizing results with
  | nil => exact ⟨[], rfl⟩
  | cons entry entries ih =>
      match entry with
      | .error e => contradiction
      | .ok none =>
          obtain ⟨_, hrest, -⟩ := map_eq_ok_iff.mp h
          obtain ⟨items, rfl⟩ := ih hrest
          exact ⟨none :: items, rfl⟩
      | .ok (some x) =>
          rw [mapEntries] at h
          split at h
          · contradiction
          · obtain ⟨_, hrest, -⟩ := map_eq_ok_iff.mp h
            obtain ⟨items, rfl⟩ := ih hrest
            exact ⟨some x :: items, rfl⟩

/-- Scaling that succeeds has read every item and taken its step for each of them, and
what came out is read back in canonical form. -/
theorem WellFormed.exists_items_of_mapScalar (hwf : a.WellFormed) (hk : a.tag.kind? = some k)
    (hdim : a.ndim ≠ 0) (h : (mapScalar a scalar f).result = .ok r) :
    ∃ items results, a.toElements a.tag k.layout = .ok (Elements.ofItems items) ∧
      items.mapM (stepItem f a.tag scalar) = .ok results ∧
      r.toElements a.tag k.layout =
        .ok (Elements.ofItems (results.map (Option.map k.layout.canonical))) := by
  rw [mapScalar, if_neg (mt isEmpty_iff.mp hdim), hk] at h
  simp only at h
  split at h
  · contradiction
  cases hmapped : mapEntries f a.tag scalar (a.entries k.layout) with
  | error e =>
      rw [hmapped] at h
      contradiction
  | ok results =>
      obtain ⟨items, hitems⟩ := exists_items_of_mapEntries hmapped
      rw [hmapped] at h
      rw [hitems, mapEntries_map_ok] at hmapped
      have hnulls := (map_isNone_of_mapM hmapped).trans (map_isNone_of_entries hitems)
      obtain ⟨r', hr', htag, -, -, -, hholds⟩ := exists_repacked (k := k) hwf hdim hnulls
      obtain rfl := Except.ok.inj (hr'.symm.trans (mapError_eq_ok_iff.mp h))
      exact ⟨items, results, toElements_eq_ok_iff.mpr ⟨items, hitems, rfl⟩, hmapped,
        htag ▸ toElements_of_holds hholds⟩

/-- Without dimensions there is nothing to read. -/
theorem toElements_of_ndim (hdim : a.ndim = 0) (l : Layout) :
    a.toElements a.tag l = .ok (Elements.ofItems []) := by
  have hlen : (a.entries l).length ≤ 0 := by
    rw [← size_of_ndim hdim, ← length_nullMask]
    exact (a.entries_follows l).length_le
  exact toElements_eq_ok_iff.mpr ⟨[], List.eq_nil_of_length_eq_zero (Nat.le_zero.mp hlen), rfl⟩

end NdArray

/-- Storing a double does not change it. -/
theorem Scalar.asDouble_canonical (x : Scalar) :
    (Kind.float8.layout.canonical x).asDouble = x.asDouble := by
  have hlead : (Kind.float8.layout.canonical x).lead 8 = x.lead 8 :=
    Kind.float8.lead_canonical x
  rw [asDouble, asDouble, hlead]

/-- Item by item, an infinity in `r` comes from an infinity in `a` or from the scalar, and a
zero from a zero in `a` or, in a product, from the scalar. -/
def NdArray.Explains (a : NdArray) (scalar : Scalar) (op : NumericOp) (r : NdArray) : Prop :=
  ∃ items results, a.toElements Tag.float8 Kind.float8.layout = .ok (Elements.ofItems items) ∧
    r.toElements Tag.float8 Kind.float8.layout = .ok (Elements.ofItems results) ∧
    results.map Option.isNone = items.map Option.isNone ∧
    ∀ (i : Nat) y, results[i]? = some (some y) → ∃ x, items[i]? = some (some x) ∧
      (y.asDouble.isInfinite = true →
        x.asDouble.isInfinite = true ∨ scalar.asDouble.isInfinite = true) ∧
      (y.asDouble.isZero = true →
        x.asDouble.isZero = true ∨ op = .mult ∧ scalar.asDouble.isZero = true)

namespace NdArray

/-- The steps of scaling explain each item. -/
theorem explained_of_combineBy {x y : Scalar} {op : NumericOp} (hop : op ≠ dot)
    (h : op.combineBy ar x Tag.float8 x Tag.float8 scalar Tag.float8 = .ok y) :
    (y.asDouble.isInfinite = true →
      x.asDouble.isInfinite = true ∨ scalar.asDouble.isInfinite = true) ∧
    (y.asDouble.isZero = true →
      x.asDouble.isZero = true ∨ op = .mult ∧ scalar.asDouble.isZero = true) := by
  obtain ⟨vx, vs, v, hx, hs, hv, rfl⟩ := NumericOp.combineBy_eq_ok h
  obtain rfl : x.asDouble = vx := Except.ok.inj hx
  obtain rfl : scalar.asDouble = vs := Except.ok.inj hs
  rw [Scalar.asDouble_ofDouble]
  simpa [hop] using NumericOp.evalBy_eq_ok hv

/-- Scaling that succeeds explains what it gives. -/
theorem WellFormed.explains (hwf : a.WellFormed) (htag : a.tag = Tag.float8) {op : NumericOp}
    (hop : op ≠ dot) (h : (mapScalar a scalar (op.combineBy ar)).result = .ok r) :
    a.Explains scalar op r := by
  by_cases hdim : a.ndim = 0
  · rw [mapScalar_of_ndim hdim] at h
    obtain rfl := Except.ok.inj h
    have hread := htag ▸ toElements_of_ndim hdim Kind.float8.layout
    exact ⟨[], [], hread, hread, rfl, fun i y hy => by simp at hy⟩
  · have hk : a.tag.kind? = some .float8 := htag ▸ rfl
    obtain ⟨items, results, hitems, hsteps, hresults⟩ := hwf.exists_items_of_mapScalar hk hdim h
    rw [htag] at hitems hsteps hresults
    refine ⟨items, _, hitems, hresults, ?_, fun i y hy => ?_⟩
    · rw [← map_isNone_of_mapM hsteps]
      simp
    · rw [List.getElem?_map, Option.map_eq_some_iff] at hy
      obtain ⟨result, hresult, hy⟩ := hy
      obtain ⟨y, rfl, rfl⟩ := Option.map_eq_some_iff.mp hy
      obtain ⟨x, hx, hstep⟩ := exists_step_of_mapM hsteps hresult
      rw [Scalar.asDouble_canonical]
      exact ⟨x, hx, explained_of_combineBy hop hstep⟩

/-- **No overflow and no underflow goes unnoticed**: however numbers are added, multiplied
and divided, a dot product of items that are not infinite is not infinite, since the running
result is not at any pair.  An item of a scaled array is infinite only where the item was or
the scalar is, and zero only where the item was or, in a product, the scalar is. -/
theorem dot_finite_and_mapScalar_explains (ar : Arithmetic) :
    (∀ op : NumericOp, op.combineBy Double.arithmetic = op.combine) ∧
    (∀ a b : NdArray, a.WidensFinite → b.WidensFinite →
      (∀ v, (reduce a b (dot.combineBy ar) Finalizer.noop).result.map Scalar.asDouble = .ok v →
        v.isInfinite = false) ∧
      ∀ n l, checkOperands a b = .ok (n, l) → ∀ i acc calls,
        foldPairs (dot.combineBy ar) a.tag (((a.entries l).zip (b.entries l)).take i)
          (Scalar.ofDouble Double.zero) 0 = (.ok acc, calls) → acc.asDouble.isInfinite = false) ∧
    ∀ (fits : Tag → Layout → Prop) (a r : NdArray) (scalar : Scalar) (op : NumericOp),
      Obtained fits a → a.tag = Tag.float8 → op ≠ dot →
      (mapScalar a scalar (op.combineBy ar)).result = .ok r → a.Explains scalar op r := by
  refine ⟨NumericOp.combineBy_arithmetic, fun a b ha hb => ⟨fun v hv => ?_, ?_⟩, ?_⟩
  · obtain ⟨x, hx, rfl⟩ := map_eq_ok_iff.mp hv
    exact reduce_dot_isInfinite ha hb hx
  · intro n l hcheck i acc calls hfold
    exact foldPairs_take_isInfinite ha hb hcheck i hfold
  · intro fits a r scalar op ha htag hop hr
    exact ha.wellFormed.explains htag hop hr

/-- One and minus two: the sum of their squares, and both divided by minus two. -/
theorem dot_finite_and_mapScalar_explains_pair :
    let one : Double := ⟨0x3ff0000000000000⟩
    let two : Double := ⟨0xc000000000000000⟩
    let a := assemble Tag.float8 [2] [1] [false, false]
      [0, 0, 0, 0, 0, 0, 0xf0, 0x3f, 0, 0, 0, 0, 0, 0, 0, 0xc0]
    let r := assemble Tag.float8 [2] [1] [false, false]
      [0, 0, 0, 0, 0, 0, 0xe0, 0xbf, 0, 0, 0, 0, 0, 0, 0xf0, 0x3f]
    a.WidensFinite ∧
      (reduce a a dot.combine Finalizer.noop).result.map Scalar.asDouble =
        .ok ⟨0x4014000000000000⟩ ∧
      (⟨0x4014000000000000⟩ : Double).isInfinite = false ∧
      ofElements [.ofDouble one, .ofDouble two] none [2] [1] Tag.float8 Kind.float8.layout = .ok a ∧
      (mapScalar a (.ofDouble two) NumericOp.div.combine).result = .ok r ∧
      a.Explains (.ofDouble two) .div r := by
  intro one two a r
  have hfinite : a.WidensFinite := by
    intro l hl x hx v hv
    obtain rfl : Kind.float8.layout = l := Except.ok.inj hl
    have hread : a.toScalars Tag.float8 Kind.float8.layout = .ok [.ofDouble one, .ofDouble two] :=
      eq_ok_of_toOption (by decide +kernel)
    rw [toScalars_eq_ok_iff.mp hread] at hx
    obtain rfl : x.asDouble = v := Except.ok.inj hv
    have hmem : x = .ofDouble one ∨ x = .ofDouble two := by simpa [eq_comm] using hx
    obtain rfl | rfl := hmem <;> decide
  have hdot : (reduce a a dot.combine Finalizer.noop).result.map Scalar.asDouble =
      .ok ⟨0x4014000000000000⟩ := eq_ok_of_toOption (by decide +kernel)
  have hmade : ofElements [.ofDouble one, .ofDouble two] none [2] [1] Tag.float8
      Kind.float8.layout = .ok a := eq_ok_of_toOption (by decide +kernel)
  have hscaled : (mapScalar a (.ofDouble two) NumericOp.div.combine).result = .ok r :=
    eq_ok_of_toOption (by decide +kernel)
  obtain ⟨hsteps, hdots, hscalings⟩ := dot_finite_and_mapScalar_explains Double.arithmetic
  rw [← hsteps] at hdot hscaled
  have hadmits : Tag.float8.Admits Kind.float8.layout := by
    rintro k ⟨⟩
    rfl
  have hexplains := hscalings Tag.Admits a r _ .div (.ofElements hadmits hmade) rfl (by decide)
    hscaled
  exact ⟨hfinite, hsteps dot ▸ hdot, (hdots a a hfinite hfinite).1 _ hdot, hmade,
    hsteps .div ▸ hscaled, hexplains⟩

end NdArray

end PackedArray
