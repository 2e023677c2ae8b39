import PackedArray.Proofs.ElementWise

/-!
# PackedArray.Proofs.Integers

Arrays of integers, as lists of numbers.

Scaling takes scalars apart and puts them together again.  Where the step is a
function of the numbers alone, an array is scaled as its numbers are: nothing of
the storage forms — words that are filled up with zeros, blocks too short or too
long — is left to see.

* `Scalar.canonical_ofInt` — an integer is stored as it is made;
* `NdArray.Filled.exists_integers` — the integers of an array;
* `IntegerStep.mapScalar_eq_error`, `IntegerStep.exists_mapScalar` — scaling by a
  step on numbers;
* `NdArray.Assembled.eq_of_integers` — shape and integers determine an array that
  was made.
-/

namespace PackedArray

variable {w : IntWidth}

/-! ## integers of scalars -/

namespace Scalar

theorem holds_asInt (w : IntWidth) (x : Scalar) : w.Holds (x.asInt w) := by
  have hpos : 0 < w.modulus := by cases w <;> decide
  have heven : w.modulus % 2 = 0 := by cases w <;> decide
  have hle := Int.le_bmod (x := leNat (x.lead w.bytes)) hpos
  have hlt := Int.bmod_lt (x := leNat (x.lead w.bytes)) hpos
  unfold IntWidth.Holds IntWidth.bound asInt
  omega

/-- An image of the width of an integer stands for that integer. -/
theorem asInt_ofImage {bs : List UInt8} (h : bs.length = w.bytes) :
    ((Kind.int w).layout.ofImage bs).asInt w = (leNat bs : Int).bmod w.modulus := by
  have hle : bs.length ≤ 8 := by
    rw [h]
    cases w <;> decide
  have hlead := Layout.lead_ofImage (l := (Kind.int w).layout) hle
  rw [h] at hlead
  rw [asInt, hlead]

theorem toNat_len_layout (w : IntWidth) : (Kind.int w).layout.len.toNat = w.bytes := by
  cases w <;> rfl

/-- An integer is stored as it is made. -/
theorem canonical_ofInt (w : IntWidth) (v : Int) :
    (Kind.int w).layout.canonical (ofInt w v) = ofInt w v := by
  have hword {k n : Nat} (hlt : n < 1 <<< k) (hk : 1 <<< k ≤ 0x100000000) :
      UInt64.ofNat ((UInt64.ofNat n).toNat % 1 <<< k) = UInt64.ofNat n := by
    rw [UInt64.toNat_ofNat_of_lt' (Nat.lt_of_lt_of_le hlt (Nat.le_trans hk (by decide))),
      Nat.mod_eq_of_lt hlt]
  have hpos : 0 < w.modulus := by cases w <;> decide
  have hlt : (v % w.modulus).toNat < w.modulus := by
    have := Int.emod_lt_of_pos v (Int.natCast_pos.mpr hpos)
    omega
  cases w with
  | two | four =>
      rw [ofInt, Layout.canonical_word_of_byValue rfl rfl]
      exact congrArg word (hword hlt (by decide))
  | eight =>
      rw [ofInt, Layout.canonical_ref_of_byRef rfl rfl]
      rfl

end Scalar

/-! ## integers of arrays -/

/-- The elements as integers of a width, none for a null. -/
def Elements.integers (w : IntWidth) (e : Elements) : List (Option Int) :=
  List.zipWith (fun x null => if null then none else some (x.asInt w)) e.elems e.nulls

/-- The items as integers of a width. -/
def integersOf (w : IntWidth) (items : List (Option Scalar)) : List (Option Int) :=
  items.map (Option.map (Scalar.asInt w))

theorem Elements.integers_ofItems (w : IntWidth) (items : List (Option Scalar)) :
    (ofItems items).integers w = integersOf w items := by
  rw [integers, ofItems, integersOf, List.zipWith_map, List.zipWith_self]
  refine List.map_congr_left fun item _ => ?_
  cases item <;> rfl

theorem map_isNone_integersOf (w : IntWidth) (items : List (Option Scalar)) :
    (integersOf w items).map Option.isNone = items.map Option.isNone := by
  simp [integersOf]

theorem some_mem_integersOf_iff {items : List (Option Scalar)} {v : Int} :
    some v ∈ integersOf w items ↔ ∃ x, some x ∈ items ∧ x.asInt w = v := by
  rw [integersOf, List.mem_map]
  constructor
  · rintro ⟨item, hitem, hv⟩
    obtain ⟨x, rfl, hx⟩ := Option.map_eq_some_iff.mp hv
    exact ⟨x, hitem, hx⟩
  · rintro ⟨x, hx, rfl⟩
    exact ⟨some x, hx, rfl⟩

theorem holds_of_mem_integersOf {items : List (Option Scalar)} {v : Int}
    (h : some v ∈ integersOf w items) : w.Holds v := by
  obtain ⟨x, -, rfl⟩ := some_mem_integersOf_iff.mp h
  exact x.holds_asInt w

namespace NdArray

variable {a b r : NdArray} {items : List (Option Scalar)} {values : List (Option Int)}

/-- The items of an array of integers of a width, read to the end. -/
def integers (a : NdArray) (w : IntWidth) : Except ArrayError (List (Option Int)) :=
  (a.toElements a.tag (Kind.int w).layout).map (Elements.integers w)

theorem integers_of_holds (h : a.Holds (Kind.int w).layout items) :
    a.integers w = .ok (integersOf w items) := by
  rw [integers, toElements_of_holds h, Except.map, Elements.integers_ofItems]

/-- A filled array of integers reads as one for each item, null where the array
says so. -/
theorem Filled.exists_integers (h : a.Filled) (hk : a.tag.kind? = some (.int w)) :
    ∃ items, a.Holds (Kind.int w).layout items ∧ a.integers w = .ok (integersOf w items) ∧
      (integersOf w items).length = a.size ∧
      ∀ i < a.size, (integersOf w items)[i]? = some none ↔ a.isNullAt i = true := by
  obtain ⟨items, hholds⟩ := h.exists_holds hk
  refine ⟨items, hholds, integers_of_holds hholds, ?_, fun i hi => ?_⟩
  · rw [integersOf, List.length_map, hholds.length_items]
  · rw [← hholds.getElem?_eq_none_iff hi, integersOf, List.getElem?_map]
    cases items[i]? with
    | none => simp
    | some item => cases item <;> simp

theorem Holds.integersOf_eq_nil (h : a.Holds (Kind.int w).layout items) (hdim : a.ndim = 0) :
    integersOf w items = [] := by
  have hlen := h.length_items.trans (size_of_ndim hdim)
  rw [List.eq_nil_of_length_eq_zero hlen]
  rfl

/-- `r` is the array `a`, which reads as these integers, with `q` applied to the ones that
are present. -/
structure IntegersMapped (a r : NdArray) (w : IntWidth) (values : List (Option Int))
    (q : Int → Int) : Prop where
  tag : r.tag = a.tag
  ndim : r.ndim = a.ndim
  dims : r.dims = a.dims
  lbounds : r.lbounds = a.lbounds
  nulls : ∀ i < a.size, r.isNullAt i = a.isNullAt i
  integers : r.integers w = .ok (values.map (Option.map q))

end NdArray

/-! ## steps on integers -/

/-- On integers of a width the step is a function of the numbers: it fails with `e`
for the bad ones and gives `q` for the others. -/
structure IntegerStep (w : IntWidth) (tag : Tag) (scalar : Scalar) (f : Combiner)
    (Bad : Int → Prop) (e : OpError) (q : Int → Int) : Prop where
  of_bad : ∀ x : Scalar, Bad (x.asInt w) → f x tag x tag scalar tag = .error e
  of_not_bad : ∀ x : Scalar, ¬Bad (x.asInt w) →
    f x tag x tag scalar tag = .ok (Scalar.ofInt w (q (x.asInt w)))
  holds : ∀ v, w.Holds v → ¬Bad v → w.Holds (q v)

namespace IntegerStep

open NdArray

variable {a : NdArray} {scalar : Scalar} {f : Combiner} {Bad : Int → Prop} {e : OpError}
  {q : Int → Int} {items : List (Option Scalar)}

/-- One bad integer is enough for scaling to fail. -/
theorem mapScalar_eq_error (hf : IntegerStep w a.tag scalar f Bad e q)
    (hk : a.tag.kind? = some (.int w)) (hdim : a.ndim ≠ 0)
    (hscalar : (Kind.int w).layout.storesLike scalar = true)
    (hholds : a.Holds (Kind.int w).layout items) {v : Int} (hv : some v ∈ integersOf w items)
    (hbad : Bad v) : (mapScalar a scalar f).result = .error e := by
  obtain ⟨x, hx, rfl⟩ := some_mem_integersOf_iff.mp hv
  have halike : ∀ item ∈ items, ∀ e', stepItem f a.tag scalar item = .error e' → e' = e := by
    rintro (_ | y) - e' he'
    · contradiction
    · by_cases hy : Bad (y.asInt w)
      · rw [stepItem, hf.of_bad y hy] at he'
        exact (Except.error.inj he').symm
      · rw [stepItem, hf.of_not_bad y hy] at he'
        contradiction
  have hstep : stepItem f a.tag scalar (some x) = .error e := by
    rw [stepItem, hf.of_bad x hbad]
    rfl
  rw [mapScalar_of_holds hk hdim hscalar hholds, mapM_eq_error_of_mem halike hx hstep]
  rfl

/-- Without bad integers an array is scaled as its integers are. -/
theorem exists_mapScalar (hf : IntegerStep w a.tag scalar f Bad e q) (hwf : a.WellFormed)
    (hk : a.tag.kind? = some (.int w)) (hdim : a.ndim ≠ 0)
    (hscalar : (Kind.int w).layout.storesLike scalar = true)
    (hholds : a.Holds (Kind.int w).layout items)
    (hgood : ∀ v, some v ∈ integersOf w items → ¬Bad v) :
    ∃ r, (mapScalar a scalar f).result = .ok r ∧
      IntegersMapped a r w (integersOf w items) q := by
  let results := items.map (Option.map fun x => Scalar.ofInt w (q (x.asInt w)))
  have hresults : items.mapM (stepItem f a.tag scalar) = .ok results := by
    rw [mapM_eq_ok_iff, List.map_map]
    refine List.map_congr_left fun item hitem => ?_
    cases item with
    | none => rfl
    | some x =>
        rw [stepItem, hf.of_not_bad x (hgood _ (some_mem_integersOf_iff.mpr ⟨x, hitem, rfl⟩))]
        rfl
  have hnulls : results.map Option.isNone = a.nullMask := by
    rw [map_isNone_of_mapM hresults, hholds.nulls]
  obtain ⟨r, hmade, htag, hndim, hdims, hlbounds, hread⟩ :=
    exists_repacked (k := .int w) hwf hdim hnulls
  have hmask : r.nullMask = a.nullMask := by
    rw [← hread.nulls, ← hnulls]
    simp
  refine ⟨r, ?_, htag, hndim, hdims, hlbounds, fun i hi => isNullAt_eq_of_nullMask_eq hmask hi,
    ?_⟩
  · rw [mapScalar_of_holds hk hdim hscalar hholds, hresults]
    simp only [ok_bind, hmade]
    rfl
  · rw [integers_of_holds hread, integersOf, integersOf, List.map_map, List.map_map, List.map_map]
    refine congrArg _ (List.map_congr_left fun item hitem => ?_)
    cases item with
    | none => rfl
    | some x =>
        have hq := hf.holds _ (x.holds_asInt w)
          (hgood _ (some_mem_integersOf_iff.mpr ⟨x, hitem, rfl⟩))
        simp [Scalar.canonical_ofInt, Scalar.asInt_ofInt hq]

end IntegerStep

/-! ## arrays by their integers -/

/-- Images of one width that stand for the same integer are the same. -/
theorem eq_of_asInt_ofImage_eq {bs bs' : List UInt8} (h : bs.length = w.bytes)
    (h' : bs'.length = w.bytes)
    (heq : ((Kind.int w).layout.ofImage bs).asInt w = ((Kind.int w).layout.ofImage bs').asInt w) :
    bs = bs' := by
  rw [Scalar.asInt_ofImage h, Scalar.asInt_ofImage h'] at heq
  have hlt := leNat_lt bs
  have hlt' := leNat_lt bs'
  rw [h, ← IntWidth.modulus] at hlt
  rw [h', ← IntWidth.modulus] at hlt'
  have hmod := congrArg (· % (w.modulus : Int)) heq
  simp only [Int.bmod_emod] at hmod
  rw [Int.emod_eq_of_lt (by omega) (Int.ofNat_lt.mpr hlt),
    Int.emod_eq_of_lt (by omega) (Int.ofNat_lt.mpr hlt')] at hmod
  rw [← leBytes_leNat bs, ← leBytes_leNat bs', h, h', Int.ofNat_inj.mp hmod]

/-- Data that hold the same integers are the same. -/
theorem Layout.Packed.eq_of_integersOf {data data' : List UInt8}
    {items items' : List (Option Scalar)} (h : (Kind.int w).layout.Packed data items)
    (h' : (Kind.int w).layout.Packed data' items')
    (heq : integersOf w items = integersOf w items') : data = data' := by
  induction h generalizing data' items' with
  | nil =>
      cases h' with
      | nil => rfl
      | null | present => contradiction
  | null h ih =>
      cases h' with
      | nil => contradiction
      | null h' => exact ih h' (List.cons.inj heq).2
      | present =>
          have hhead := (List.cons.inj heq).1
          contradiction
  | present hunpack hpad h ih =>
      cases h' with
      | nil => contradiction
      | null =>
          have hhead := (List.cons.inj heq).1
          contradiction
      | present hunpack' hpad' h' =>
          obtain ⟨hhead, htail⟩ := List.cons.inj heq
          obtain ⟨hlen, rfl⟩ := Kind.image_of_unpack hunpack
          obtain ⟨hlen', rfl⟩ := Kind.image_of_unpack hunpack'
          have himage := eq_of_asInt_ofImage_eq (hlen.trans (Scalar.toNat_len_layout w))
            (hlen'.trans (Scalar.toNat_len_layout w)) (Option.some.inj hhead)
          rw [Kind.padding_eq_nil hlen hpad, Kind.padding_eq_nil hlen' hpad', himage, ih h' htail]

namespace NdArray

variable {a b : NdArray} {l l' : Layout}

/-- What was assembled is told by its shape, its flags and its data. -/
theorem Assembled.eq_assemble (h : Assembled l a) :
    a = assemble a.tag a.dims a.lbounds a.nullMask a.data := by
  obtain ⟨-, hcheck, hcount, -, -⟩ := h
  rw [nullMask_assemble hcheck hcount]
  rfl

/-- **Shape and integers determine an array** that was made. -/
theorem Assembled.eq_of_integers (ha : Assembled l a) (hb : Assembled l' b) (hfill : a.Filled)
    (hfill' : b.Filled) (hk : a.tag.kind? = some (.int w)) (htag : a.tag = b.tag)
    (hdims : a.dims = b.dims) (hlbounds : a.lbounds = b.lbounds)
    (hvalues : a.integers w = b.integers w) : a = b := by
  obtain ⟨items, hholds, hints, -⟩ := hfill.exists_integers hk
  obtain ⟨items', hholds', hints', -⟩ := hfill'.exists_integers (htag ▸ hk)
  have heq : integersOf w items = integersOf w items' := by
    rw [hints, hints'] at hvalues
    exact Except.ok.inj hvalues
  have hmask : a.nullMask = b.nullMask := by
    rw [← hholds.nulls, ← hholds'.nulls, ← map_isNone_integersOf w items, heq,
      map_isNone_integersOf]
  rw [ha.eq_assemble, hb.eq_assemble, htag, hdims, hlbounds, hmask,
    hholds.packed.eq_of_integersOf hholds'.packed heq]

end NdArray

end PackedArray
