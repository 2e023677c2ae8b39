import PackedArray.Proofs.Elements
import PackedArray.Proofs.Readable

/-!
# PackedArray.Proofs.ElementWise

Scaling is item by item, whatever the step computes.

Three parts are put together: reading a numeric array never fails, the steps run
in order up to the first failure, and scalars of any form and length can be packed
under a numeric kind, however many items an array can have.  So the steps are all
that can go wrong.

* `NdArray.ofElements_eq_assemble` — numeric elements always make an array;
* `mapEntries_map_ok` — the steps, item by item;
* `NdArray.mapScalar_elementWise` — scaling.
-/

namespace PackedArray

variable {k : Kind} {xs : List Scalar} {x : Scalar}

/-! ## numeric elements -/

namespace Kind

/-- A numeric kind packs whatever it is given. -/
theorem pack_eq_ok (k : Kind) (x : Scalar) :
    k.layout.pack x = .ok (x.lead k.layout.len.toNat) :=
  (Layout.pack_of_mem_wordWidths k.toNat_len_mem_wordWidths x).2

theorem stride_eq_ok (k : Kind) (x : Scalar) : k.layout.stride x = .ok k.itemSize := by
  unfold Layout.stride
  rw [if_neg (by simp), k.pack_eq_ok, Except.map, Scalar.length_lead]
  rfl

/-- Storing an element does not change the bytes that the kind reads. -/
theorem lead_canonical (k : Kind) (x : Scalar) :
    (k.layout.canonical x).lead k.layout.len.toNat = x.lead k.layout.len.toNat := by
  have hle : (x.lead k.layout.len.toNat).length ≤ 8 := by
    have hlen := k.len_layout_le
    rw [Scalar.length_lead]
    omega
  have hlead := Layout.lead_ofImage (l := k.layout) hle
  rw [Scalar.length_lead] at hlead
  rw [Layout.canonical, if_neg (by simp), hlead]

theorem itemSize_le (k : Kind) : k.itemSize ≤ 8 := by
  have hlen := k.len_layout_le
  rw [itemSize_eq]
  omega

/-- As many items as an array can have take no more than its data can have. -/
theorem mul_itemSize_le (k : Kind) {n : Nat} (h : n ≤ maxItems) : n * k.itemSize ≤ maxDataSize := by
  have hmax : 8 * maxItems ≤ maxDataSize := by decide
  calc n * k.itemSize ≤ n * 8 := Nat.mul_le_mul_left n k.itemSize_le
    _ ≤ maxDataSize := by omega

theorem measureFrom_eq_ok {acc : Nat} (h : acc + xs.length * k.itemSize ≤ maxDataSize) :
    k.layout.measureFrom acc xs = .ok (acc + xs.length * k.itemSize) := by
  induction xs generalizing acc with
  | nil => simp [Layout.measureFrom]
  | cons x xs ih =>
      rw [List.length_cons, Nat.succ_mul, Nat.add_comm _ k.itemSize, ← Nat.add_assoc] at h ⊢
      have hle : acc + k.itemSize ≤ maxDataSize := Nat.le_trans (Nat.le_add_right _ _) h
      rw [Layout.measureFrom, stride_eq_ok]
      simp only [hle, if_true]
      exact ih h

theorem checkNominal_eq_ok (k : Kind) {n : Nat} (h : n ≤ maxItems) :
    k.layout.checkNominal n = .ok () := by
  have hle := k.mul_itemSize_le h
  rw [k.itemSize_eq, Nat.mul_comm] at hle
  rw [Layout.checkNominal, if_neg fun hlt => Nat.not_lt.mpr hle hlt.2]

end Kind

/-! ## steps item by item -/

/-- What becomes of one item: a null stays, and the step is applied to a scalar with
itself as the running result. -/
def stepItem (f : Combiner) (tag : Tag) (scalar : Scalar) :
    Option Scalar → Except OpError (Option Scalar)
  | none => .ok none
  | some x => (f x tag x tag scalar tag).map some

theorem mapEntries_map_ok (f : Combiner) (tag : Tag) (scalar : Scalar)
    (items : List (Option Scalar)) :
    mapEntries f tag scalar (items.map .ok) = items.mapM (stepItem f tag scalar) := by
  induction items with
  | nil => rfl
  | cons item items ih =>
      cases item with
      | none =>
          have hstep : stepItem f tag scalar none = .ok none := rfl
          rw [mapM_cons_of_ok hstep, ← ih]
          rfl
      | some x =>
          cases hx : f x tag x tag scalar tag with
          | error e =>
              have hstep : stepItem f tag scalar (some x) = .error e := by
                rw [stepItem, hx]
                rfl
              rw [mapM_cons_of_error hstep, List.map_cons, mapEntries, hx]
          | ok r =>
              have hstep : stepItem f tag scalar (some x) = .ok (some r) := by
                rw [stepItem, hx]
                rfl
              rw [mapM_cons_of_ok hstep, ← ih, List.map_cons, mapEntries, hx]

namespace NdArray

/-- Item `i` is the scalar `x`, and the step succeeds for every scalar before it. -/
def Visits (f : Combiner) (tag : Tag) (scalar : Scalar) (items : List (Option Scalar)) (i : Nat)
    (x : Scalar) : Prop :=
  items[i]? = some (some x) ∧
    ∀ j < i, ∀ y, items[j]? = some (some y) → ∃ r, f y tag y tag scalar tag = .ok r

/-- Scaling the array, which reads as these items, is the step item by item. -/
structure ElementWise (a : NdArray) (l : Layout) (scalar : Scalar) (f : Combiner)
    (items : List (Option Scalar)) : Prop where
  /-- Scaling fails as the first present item for which the step does. -/
  failed : ∀ e, (mapScalar a scalar f).result = .error e ↔
    ∃ i x, Visits f a.tag scalar items i x ∧ f x a.tag x a.tag scalar a.tag = .error e
  /-- An array that comes out has the same shape and tag and the same nulls, and its
  present items are what the step gave, in canonical form. -/
  mapped : ∀ r, (mapScalar a scalar f).result = .ok r →
    r.tag = a.tag ∧ r.ndim = a.ndim ∧ r.dims = a.dims ∧ r.lbounds = a.lbounds ∧
    (∀ i < a.size, r.isNullAt i = a.isNullAt i) ∧
    ∃ results, r.toElements r.tag l = .ok (Elements.ofItems results) ∧
      results.length = items.length ∧
      (∀ i : Nat, items[i]? = some none → results[i]? = some none) ∧
      ∀ (i : Nat) x, items[i]? = some (some x) → ∃ y,
        f x a.tag x a.tag scalar a.tag = .ok y ∧ results[i]? = some (some (l.canonical y))
  /-- No other step is taken: a combiner that agrees on these gives the same
  outcome. -/
  visited : ∀ g : Combiner,
    (∀ i x, Visits f a.tag scalar items i x →
      g x a.tag x a.tag scalar a.tag = f x a.tag x a.tag scalar a.tag) →
    mapScalar a scalar g = mapScalar a scalar f

/-! ## repacking -/

variable {elems : List Scalar} {nulls : Option (List Bool)} {dims lbounds : List Int32} {tag : Tag}
  {n : Nat} {flags : List Bool}

/-- **Numeric elements always make an array**: once the shape is counted and
covered, nothing is left to fail. -/
theorem ofElements_eq_assemble (k : Kind) (tag : Tag) (hdims : dims ≠ [])
    (hcheck : checkDimensions dims lbounds = .ok ()) (hn : itemCount dims = .ok n)
    (hle : n ≤ elems.length) (hflags : nullFlags n nulls = .ok flags) :
    ofElements elems nulls dims lbounds tag k.layout =
      .ok (assemble tag dims lbounds flags
        ((presentElements (elems.take n) flags).flatMap k.layout.block)) := by
  have hmax := itemCount_le hn
  have hlen : (elems.take n).length = flags.length := by
    rw [List.length_take_of_le hle, (nullFlags_eq_ok_iff.mp hflags).1]
  have hpresent : (presentElements (elems.take n) flags).length ≤ n := by
    rw [length_presentElements hlen, ← (nullFlags_eq_ok_iff.mp hflags).1]
    exact List.count_le_length
  have hsize : 0 + (presentElements (elems.take n) flags).length * k.itemSize ≤ maxDataSize := by
    rw [Nat.zero_add]
    exact Nat.le_trans (Nat.mul_le_mul_right _ hpresent) (k.mul_itemSize_le hmax)
  exact ofElements_eq_ok_iff.mpr (.inr ⟨hdims, hcheck, n, flags, _, hn, hle, hflags,
    k.checkNominal_eq_ok hmax, Kind.measureFrom_eq_ok hsize, rfl⟩)

/-- Elements beside the flags of what is absent are the items that are present, in
canonical form. -/
theorem itemsOf_map (l : Layout) (items : List (Option Scalar)) :
    l.itemsOf (items.map (·.getD Scalar.zero)) (items.map Option.isNone) =
      items.map (Option.map l.canonical) := by
  induction items with
  | nil => rfl
  | cons item items ih =>
      cases item with
      | none => exact congrArg (none :: ·) ih
      | some x => exact congrArg (some (l.canonical x) :: ·) ih

variable {a : NdArray} {k : Kind} {items : List (Option Scalar)}

theorem nullFlags_nullMask (a : NdArray) : nullFlags a.size (some a.nullMask) = .ok a.nullMask := by
  rw [nullFlags, length_nullMask, if_neg (Nat.lt_irrefl _),
    List.take_of_length_le (Nat.le_of_eq a.length_nullMask)]

/-- The null flags of an array are not needed where it does not have the flag. -/
theorem nullFlags_of_hasNulls (h : a.WellFormed) :
    nullFlags a.size (if a.hasNulls then some a.nullMask else none) = .ok a.nullMask := by
  cases hn : a.hasNulls with
  | true =>
      rw [if_pos rfl]
      exact a.nullFlags_nullMask
  | false =>
      have hnone : a.nulls = none := by
        rw [h.hasNulls_eq] at hn
        exact Option.isSome_eq_false_iff.mp hn |> Option.isNone_iff_eq_none.mp
      have hmask : a.nullMask = List.replicate a.size false := by
        rw [nullMask, List.eq_replicate_iff]
        simp [isNullAt, hnone]
      rw [if_neg Bool.false_ne_true, hmask]
      rfl

/-- Items with the nulls of an array make an array of its shape. -/
theorem WellFormed.ofElements_items (h : a.WellFormed) (k : Kind) (hdim : a.ndim ≠ 0)
    (hnulls : items.map Option.isNone = a.nullMask)
    (hflags : nullFlags a.size nulls = .ok a.nullMask) :
    ofElements (items.map (·.getD Scalar.zero)) nulls a.dims a.lbounds a.tag k.layout =
      .ok (assemble a.tag a.dims a.lbounds a.nullMask
        ((presentElements (items.map (·.getD Scalar.zero)) a.nullMask).flatMap
          k.layout.block)) := by
  have hcover : (items.map (·.getD Scalar.zero)).length = a.size := by
    rw [List.length_map, ← length_nullMask, ← hnulls, List.length_map]
  have hdims : a.dims ≠ [] := mt h.ndim_eq_zero_iff.mpr hdim
  have hcheck := checkDimensions_eq_ok_iff.mpr ⟨h.length_dims_le, h.length_lbounds⟩
  have hmade := ofElements_eq_assemble k a.tag hdims hcheck h.itemCount_dims
    (Nat.le_of_eq hcover.symm) hflags
  rwa [List.take_of_length_le (Nat.le_of_eq hcover)] at hmade

/-- Items with the nulls of an array make one that holds their canonical forms, whether the
nulls are given or known to be none. -/
theorem exists_repacked (h : a.WellFormed) (hdim : a.ndim ≠ 0)
    (hnulls : items.map Option.isNone = a.nullMask) :
    ∃ r, ofElements (items.map (·.getD Scalar.zero))
        (if a.hasNulls then some (items.map Option.isNone) else none) a.dims a.lbounds a.tag
        k.layout = .ok r ∧
      r.tag = a.tag ∧ r.ndim = a.ndim ∧ r.dims = a.dims ∧ r.lbounds = a.lbounds ∧
      r.Holds k.layout (items.map (Option.map k.layout.canonical)) := by
  have hflags := nullFlags_of_hasNulls h
  have hmade := h.ofElements_items k hdim hnulls hflags
  obtain ⟨n, flags, hn, -, hflags', -, -, -, hholds⟩ := holds_of_ofElements hmade
  obtain rfl : a.size = n := Except.ok.inj (h.itemCount_dims.symm.trans hn)
  obtain rfl := Except.ok.inj (hflags.symm.trans hflags')
  have hcover : (items.map (·.getD Scalar.zero)).length = a.size := by
    rw [List.length_map, ← length_nullMask, ← hnulls, List.length_map]
  have hitems := itemsOf_map k.layout items
  rw [hnulls] at hitems
  rw [List.take_of_length_le (Nat.le_of_eq hcover), hitems] at hholds
  rw [hnulls]
  exact ⟨_, hmade, rfl, h.ndim_eq.symm, rfl, rfl, hholds⟩

/-! ## scaling -/

variable {scalar : Scalar}

/-- Without dimensions there is nothing to scale. -/
theorem mapScalar_of_ndim (hdim : a.ndim = 0) (scalar : Scalar) (f : Combiner) :
    (mapScalar a scalar f).result = .ok a := by
  rw [mapScalar, if_pos (isEmpty_iff.mpr hdim)]

/-- Scaling an array of some dimensions, with a scalar of its storage form, is to
apply the step item by item and to make an array of what comes out. -/
theorem mapScalar_of_holds (hk : a.tag.kind? = some k) (hdim : a.ndim ≠ 0)
    (hscalar : k.layout.storesLike scalar = true) (hholds : a.Holds k.layout items)
    (f : Combiner) :
    mapScalar a scalar f = {
      result := do
        let results ← items.mapM (stepItem f a.tag scalar)
        (ofElements (results.map (·.getD Scalar.zero))
          (if a.hasNulls then some (results.map Option.isNone) else none) a.dims a.lbounds a.tag
          k.layout).mapError OpError.ofArray } := by
  unfold mapScalar
  rw [if_neg (mt isEmpty_iff.mp hdim), hk]
  simp only [hscalar, Bool.not_true, Bool.false_eq_true, if_false, entries_of_holds hholds,
    mapEntries_map_ok]
  cases items.mapM (stepItem f a.tag scalar) <;> rfl

/-- A null never stops the steps. -/
theorem visits_iff {f : Combiner} {tag : Tag} {i : Nat} {x : Scalar} :
    Visits f tag scalar items i x ↔
      items[i]? = some (some x) ∧ Reached (stepItem f tag scalar) items i := by
  refine and_congr_right fun _ => ?_
  constructor
  · intro h j hj item hitem
    cases item with
    | none => exact ⟨none, rfl⟩
    | some x =>
        obtain ⟨y, hy⟩ := h j hj x hitem
        exact ⟨some y, map_eq_ok_iff.mpr ⟨y, hy, rfl⟩⟩
  · intro h j hj x hx
    obtain ⟨item, hitem⟩ := h j hj _ hx
    obtain ⟨y, hy, -⟩ := map_eq_ok_iff.mp hitem
    exact ⟨y, hy⟩

/-- The steps fail as the first present item for which one does. -/
theorem mapM_stepItem_eq_error_iff {f : Combiner} {tag : Tag} {e : OpError} :
    items.mapM (stepItem f tag scalar) = .error e ↔
      ∃ i x, Visits f tag scalar items i x ∧ f x tag x tag scalar tag = .error e := by
  rw [mapM_eq_error_iff]
  constructor
  · rintro ⟨i, item, hi, hreached, he⟩
    cases item with
    | none => contradiction
    | some x =>
        refine ⟨i, x, visits_iff.mpr ⟨hi, hreached⟩, ?_⟩
        rw [stepItem] at he
        cases hx : f x tag x tag scalar tag with
        | ok r => simp [hx, Except.map] at he
        | error e' =>
            rw [hx] at he
            exact congrArg _ (Except.error.inj he)
  · rintro ⟨i, x, hvisits, he⟩
    obtain ⟨hi, hreached⟩ := visits_iff.mp hvisits
    exact ⟨i, some x, hi, hreached, by rw [stepItem, he]; rfl⟩

/-- What comes out of the steps, item by item. -/
theorem getElem?_of_mapM {f : Combiner} {tag : Tag} {results : List (Option Scalar)}
    (h : items.mapM (stepItem f tag scalar) = .ok results) :
    (∀ i : Nat, items[i]? = some none → results[i]? = some none) ∧
    ∀ (i : Nat) x, items[i]? = some (some x) → ∃ y,
      f x tag x tag scalar tag = .ok y ∧ results[i]? = some (some y) := by
  have hat (i : Nat) : items[i]?.map (stepItem f tag scalar) = results[i]?.map .ok := by
    rw [← List.getElem?_map, mapM_eq_ok_iff.mp h, List.getElem?_map]
  constructor
  · intro i hi
    have hstep := hat i
    rw [hi, Option.map_some, eq_comm, Option.map_eq_some_iff] at hstep
    obtain ⟨item, hitem, hok⟩ := hstep
    rw [hitem, Except.ok.inj hok]
  · intro i x hi
    have hstep := hat i
    rw [hi, Option.map_some, eq_comm, Option.map_eq_some_iff] at hstep
    obtain ⟨item, hitem, hok⟩ := hstep
    obtain ⟨y, hy, rfl⟩ := map_eq_ok_iff.mp hok.symm
    exact ⟨y, hy, hitem⟩

/-- A scalar that comes out is what the step made of the scalar in its place. -/
theorem exists_step_of_mapM {f : Combiner} {tag : Tag} {results : List (Option Scalar)} {i : Nat}
    {y : Scalar} (h : items.mapM (stepItem f tag scalar) = .ok results)
    (hi : results[i]? = some (some y)) :
    ∃ x, items[i]? = some (some x) ∧ f x tag x tag scalar tag = .ok y := by
  have hstep : items[i]?.map (stepItem f tag scalar) = some (.ok (some y)) := by
    rw [← List.getElem?_map, mapM_eq_ok_iff.mp h, List.getElem?_map, hi]
    rfl
  obtain ⟨item, hitem, hok⟩ := Option.map_eq_some_iff.mp hstep
  cases item with
  | none => simp [stepItem] at hok
  | some x =>
      obtain ⟨_, hy, hsome⟩ := map_eq_ok_iff.mp hok
      exact ⟨x, hitem, Option.some.inj hsome ▸ hy⟩

/-- What comes out item by item is null where the item was. -/
theorem map_isNone_of_mapM {f : Combiner} {tag : Tag} {results : List (Option Scalar)}
    (h : items.mapM (stepItem f tag scalar) = .ok results) :
    results.map Option.isNone = items.map Option.isNone := by
  have hlen := congrArg List.length (mapM_eq_ok_iff.mp h)
  rw [List.length_map, List.length_map] at hlen
  obtain ⟨hnone, hsome⟩ := getElem?_of_mapM h
  refine List.ext_getElem? fun i => ?_
  rw [List.getElem?_map, List.getElem?_map]
  cases hi : items[i]? with
  | none =>
      rw [List.getElem?_eq_none_iff, hlen] at hi
      rw [List.getElem?_eq_none_iff.mpr hi]
  | some item =>
      cases item with
      | none => rw [hnone i hi]
      | some x =>
          obtain ⟨y, -, hy⟩ := hsome i x hi
          rw [hy]
          rfl

theorem elementWise_of_holds (hwf : a.WellFormed) (hk : a.tag.kind? = some k) (hdim : a.ndim ≠ 0)
    (hscalar : k.layout.storesLike scalar = true) (hholds : a.Holds k.layout items)
    (f : Combiner) : ElementWise a k.layout scalar f items := by
  have hmap := mapScalar_of_holds hk hdim hscalar hholds
  -- what comes out of the steps can always be packed again
  have hrepack : ∀ results, items.mapM (stepItem f a.tag scalar) = .ok results →
      ∃ r, (mapScalar a scalar f).result = .ok r ∧ r.tag = a.tag ∧ r.ndim = a.ndim ∧
        r.dims = a.dims ∧ r.lbounds = a.lbounds ∧
        r.Holds k.layout (results.map (Option.map k.layout.canonical)) := by
    intro results hresults
    have hnulls := (map_isNone_of_mapM hresults).trans hholds.nulls
    obtain ⟨r, hr, hshape⟩ := exists_repacked (k := k) hwf hdim hnulls
    refine ⟨r, ?_, hshape⟩
    rw [hmap, hresults]
    simp only [ok_bind, hr]
    rfl
  constructor
  case failed =>
    intro e
    rw [← mapM_stepItem_eq_error_iff]
    cases hresults : items.mapM (stepItem f a.tag scalar) with
    | error e' =>
        rw [hmap, hresults]
        exact ⟨fun he => congrArg _ (Except.error.inj he),
          fun he => congrArg _ (Except.error.inj he)⟩
    | ok results =>
        obtain ⟨r, hr, -⟩ := hrepack results hresults
        simp [hr]
  case mapped =>
    intro r hr
    cases hresults : items.mapM (stepItem f a.tag scalar) with
    | error e =>
        rw [hmap, hresults] at hr
        contradiction
    | ok results =>
        obtain ⟨r', hr', htag, hndim, hdims, hlbounds, hread⟩ := hrepack results hresults
        obtain rfl := Except.ok.inj (hr'.symm.trans hr)
        obtain ⟨hnone, hsome⟩ := getElem?_of_mapM hresults
        have hmask : r'.nullMask = a.nullMask := by
          rw [← hread.nulls, ← hholds.nulls, ← map_isNone_of_mapM hresults]
          simp
        refine ⟨htag, hndim, hdims, hlbounds, fun i hi => isNullAt_eq_of_nullMask_eq hmask hi,
          _, toElements_of_holds hread, ?_, fun i hi => ?_, fun i x hi => ?_⟩
        · rw [List.length_map, ← List.length_map Option.isNone, map_isNone_of_mapM hresults,
            List.length_map]
        · rw [List.getElem?_map, hnone i hi]
          rfl
        · obtain ⟨y, hy, hi⟩ := hsome i x hi
          exact ⟨y, hy, by rw [List.getElem?_map, hi]; rfl⟩
  case visited =>
    intro g hg
    have hsteps : items.mapM (stepItem g a.tag scalar) = items.mapM (stepItem f a.tag scalar) := by
      refine mapM_congr_reached fun i item hi hreached => ?_
      cases item with
      | none => rfl
      | some x => rw [stepItem, stepItem, hg i x (visits_iff.mpr ⟨hi, hreached⟩)]
    rw [hmap, hmap, hsteps]

/-- **Scaling is item by item**: whatever array of a numeric tag is scaled, by
whatever scalar of its storage form and with whatever step, the array is read to
the end, the step is taken for the present items in order up to its first failure,
and nothing else can fail. -/
theorem mapScalar_elementWise (h : Obtained Tag.Admits a) (hk : a.tag.kind? = some k)
    (hdim : a.ndim ≠ 0) (hscalar : k.layout.storesLike scalar = true) (f : Combiner) :
    ∃ items, a.toElements a.tag k.layout = .ok (Elements.ofItems items) ∧
      items.length = a.size ∧ (∀ i < a.size, items[i]? = some none ↔ a.isNullAt i = true) ∧
      ElementWise a k.layout scalar f items := by
  obtain ⟨items, hholds⟩ := h.filled.exists_holds hk
  exact ⟨items, toElements_of_holds hholds, hholds.length_items,
    fun i hi => hholds.getElem?_eq_none_iff hi,
    elementWise_of_holds h.wellFormed hk hdim hscalar hholds f⟩

/-- Two small integers around a null, and a step that refuses the scalar itself and
answers with blocks too short. -/
theorem mapScalar_elementWise_decoded :
    let a := assemble Tag.int2 [3] [1] [false, true, false] [255, 127, 1, 128]
    let buf := [144, 0, 0, 0, 1, 0, 0, 0, 32, 0, 0, 0, 1, 0, 0, 0, 3, 0, 0, 0, 1, 0, 0, 0,
      5, 0, 0, 0, 0, 0, 0, 0, 255, 127, 1, 128]
    let l := (Kind.int .two).layout
    let f : Combiner := fun x _ _ _ y _ => if x = y then .error .divisionByZero else .ok (.ref [7])
    decode buf = .ok a ∧ a.tag.kind? = some (.int .two) ∧ a.ndim ≠ 0 ∧
    l.storesLike (.word 7) = true ∧
    ∃ items, a.toElements a.tag l = .ok (Elements.ofItems items) ∧
      items.length = a.size ∧ (∀ i < a.size, items[i]? = some none ↔ a.isNullAt i = true) ∧
      ElementWise a l (.word 7) f items := by
  intro a buf l f
  have hdecode : decode buf = .ok a := by
    simp only [buf, a]
    exact eq_ok_of_toOption (by decide +kernel)
  have hk : a.tag.kind? = some (.int .two) := by decide
  have hdim : a.ndim ≠ 0 := by decide
  have hscalar : l.storesLike (.word 7) = true := by decide
  exact ⟨hdecode, hk, hdim, hscalar,
    mapScalar_elementWise (Obtained.decode hdecode) hk hdim hscalar f⟩

end NdArray

end PackedArray
