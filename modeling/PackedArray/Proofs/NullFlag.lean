import PackedArray.Proofs.Refusals
import PackedArray.Proofs.Walk
import PackedArray.Proofs.WellFormed

/-!
# PackedArray.Proofs.NullFlag

What the null flag of an array tells.

The makers and scaling set the flag by the items.  The decoder takes it from
the data offset of the flat form, so it keeps a bitmap in which every item is
present: such a flag is *idle*.  Reductions go by the flag.

* `NdArray.Obtained.hasNulls_iff` — an array is flagged if some item is null, or
  if its flag is idle;
* `NdArray.reduce_eq_nullElement_iff` — a reduction refuses nulls exactly when
  the shapes agree and an operand is flagged;
* `NdArray.Obtained.flag_right_iff` — both together.
-/

namespace PackedArray

open NdArray (Entry)

/-! ## reading -/

/-- Unpacking fails over what is malformed or over the layout. -/
theorem Layout.unpack_failsOnly {P : ArrayError → Prop} {l : Layout}
    (hmalformed : ∀ d, P (.malformed d)) (hlen : P (.invalidTypeLength l.len))
    (bs : List UInt8) : FailsOnly P (l.unpack bs) := by
  unfold unpack unpackVariable unpackFixed
  simp only
  split
  · split
    · exact .error (hmalformed _)
    · split
      · exact .error (hmalformed _)
      · split
        · exact .error (hmalformed _)
        · exact .ok _
  · split
    · exact .error hlen
    · split
      · exact .error (hmalformed _)
      · split
        · exact .ok _
        · split
          · exact .ok _
          · exact .error hlen

/-- Some item is null. -/
def NdArray.HasNull (a : NdArray) : Prop := ∃ i < a.size, a.isNullAt i = true

/-- What an entry can come from: a null of the array, or bytes that are
unpacked. -/
def NdArray.Read (a : NdArray) (l : Layout) (entry : Entry) : Prop :=
  entry = .ok none ∧ a.HasNull ∨ ∃ bs, entry = (l.unpack bs).map fun p => some p.1

namespace Walk

variable {w next : Walk} {entry : Entry}

theorem read_of_next? (h : w.next? = some (entry, next)) :
    w.array.Read w.layout entry ∧ next.array = w.array ∧ next.layout = w.layout := by
  obtain ⟨hlt, hstep⟩ := next?_eq_some_iff.mp h
  cases hstep with
  | null hnull => exact ⟨.inl ⟨rfl, w.index, hlt, hnull⟩, rfl, rfl⟩
  | present _ hunpack | failed _ hunpack =>
      exact ⟨.inr ⟨w.rest, by rw [hunpack]; rfl⟩, rfl, rfl⟩

theorem read_of_mem_steps {n : Nat} (h : entry ∈ (w.steps n).1) :
    w.array.Read w.layout entry := by
  induction n generalizing w with
  | zero => simp [steps] at h
  | succ n ih =>
      rw [steps] at h
      split at h
      · contradiction
      · next first next hnext =>
          obtain ⟨hfirst, harray, hlayout⟩ := read_of_next? hnext
          obtain rfl | hrest := List.mem_cons.mp h
          · exact hfirst
          · rw [← harray, ← hlayout]
            exact ih hrest

end Walk

/-! ## steps that never report a null -/

/-- No step reports a null. -/
def Combiner.NoNull (f : Combiner) : Prop :=
  ∀ elt eltTag res resTag opt optTag,
    FailsOnly (· ≠ .nullElement) (f elt eltTag res resTag opt optTag)

/-- The end reports no null. -/
def Finalizer.NoNull (fin : Finalizer) : Prop :=
  ∀ value n tag, FailsOnly (· ≠ .nullElement) (fin value n tag).result

theorem OpError.ofScalar_ne_nullElement (e : ScalarError) : ofScalar e ≠ .nullElement := by
  cases e <;> simp [ofScalar]

theorem NumericOp.noNull_combine (op : NumericOp) : op.combine.NoNull :=
  op.combine_failsOnly OpError.ofScalar_ne_nullElement (by simp)

theorem Finalizer.noNull_noop : noop.NoNull := fun value _ _ => .ok value

/-! ## ranges -/

section Ranges

variable {p q : Int32 × Int32} {as bs : List (Int32 × Int32)}

theorem rangeConflict_cons_self (dim : Nat) :
    rangeConflict dim (p :: as) (p :: bs) = rangeConflict (dim + 1) as bs := by
  rw [rangeConflict, if_neg (by simp)]

theorem rangeConflict_cons_of_ne (dim : Nat) (h : p ≠ q) :
    rangeConflict dim (p :: as) (q :: bs) =
      some (.rangeMismatch dim (p.2, p.2 + p.1) (q.2, q.2 + q.1)) := by
  have hne : p.1 ≠ q.1 ∨ p.2 ≠ q.2 :=
    Decidable.not_and_iff_or_not.mp (mt Prod.ext_iff.mpr h)
  rw [rangeConflict, if_pos hne]

theorem rangeConflict_eq_none_iff (dim : Nat) (h : as.length = bs.length) :
    rangeConflict dim as bs = none ↔ as = bs := by
  induction as generalizing dim bs with
  | nil => simp [rangeConflict, List.eq_nil_of_length_eq_zero h.symm]
  | cons a as ih =>
      cases bs with
      | nil => contradiction
      | cons b bs =>
          by_cases hab : a = b
          · rw [hab, rangeConflict_cons_self, ih (dim + 1) (Nat.succ.inj h)]
            simp
          · simp [rangeConflict_cons_of_ne dim hab, hab]

end Ranges

/-- Lists that are zipped evenly can be told from the pairs. -/
theorem zip_eq_zip_iff {α β : Type} {as as' : List α} {bs bs' : List β}
    (h : as.length = bs.length) (h' : as'.length = bs'.length) :
    as.zip bs = as'.zip bs' ↔ as = as' ∧ bs = bs' := by
  constructor
  · intro hzip
    have hunzip := congrArg List.unzip hzip
    rw [List.unzip_zip h, List.unzip_zip h'] at hunzip
    exact Prod.ext_iff.mp hunzip
  · rintro ⟨rfl, rfl⟩
    rfl

namespace NdArray

variable {a b : NdArray} {l : Layout} {buf : List UInt8}

/-! ## flags -/

/-- The array comes from a flat form that has a null bitmap, in which every item
is present. -/
def IdleFlag (a : NdArray) : Prop :=
  ∃ buf, decode buf = .ok a ∧ wordAt buf 8 ≠ 0 ∧
    ∀ i < a.size, bitAt (buf.drop (fixedHeaderSize + 8 * a.dims.length)) i = true

theorem hasNull_iff_mem_nullMask : a.HasNull ↔ true ∈ a.nullMask := by
  simp [HasNull, nullMask]

theorem WellFormed.not_hasNull (h : a.WellFormed) (hflag : a.hasNulls = false) : ¬a.HasNull := by
  rw [h.hasNulls_eq, Option.isSome_eq_false_iff, Option.isNone_iff_eq_none] at hflag
  simp [HasNull, isNullAt, hflag]

/-- Arrays that are made are flagged by their items. -/
theorem Assembled.hasNulls_iff (h : Assembled l a) : a.hasNulls = true ↔ a.HasNull := by
  rw [h.wellFormed.hasNulls_eq, hasNull_iff_mem_nullMask]
  obtain ⟨-, hcheck, hcount, -, -⟩ := h
  next tag dims lbounds flags data =>
    rw [nullMask_assemble hcheck hcount, assemble]
    cases hany : flags.any id <;> simp_all

/-- Arrays that are decoded are flagged by the data offset, and a null is a
clear bit of the bitmap. -/
theorem flag_of_decode (h : decode buf = .ok a) :
    (a.hasNulls = true ↔ wordAt buf 8 ≠ 0) ∧ (a.hasNulls = true → ∀ i < a.size,
      a.isNullAt i = !bitAt (buf.drop (fixedHeaderSize + 8 * a.dims.length)) i) := by
  have hdimensioned := dimensioned_of_decode h
  obtain ⟨header, n, nulls, start, hread, hcount, hplace, -, -, -, -, rfl⟩ :=
    decode_eq_ok_iff.mp h
  obtain ⟨-, hdims, -, -, -, -, hoffset, -⟩ := FlatHeader.read_eq_ok_iff.mp hread
  rw [← FlatHeader.toInt32_eq_iff] at hoffset
  rw [hdimensioned.size_of_itemCount hcount]
  refine ⟨?_, fun hflag i hi => ?_⟩
  · have hzero : header.dataOffset = 0 ↔ wordAt buf 8 = 0 := by
      rw [← hoffset, FlatHeader.toInt32_eq_iff]
      rfl
    simpa [hasNulls] using not_congr hzero
  · obtain ⟨hzero, -⟩ | ⟨-, -, -, -, bitmap, rfl, hbytes⟩ :=
      FlatHeader.placement_eq_ok_iff.mp hplace
    · simp [hasNulls, hzero] at hflag
    · have hbits := (NullBitmap.ofBytes?_eq_some_iff.mp hbytes).2.2 i hi
      rw [← hdims] at hbits
      exact congrArg not hbits.symm

theorem IdleFlag.hasNulls (h : a.IdleFlag) : a.hasNulls = true := by
  obtain ⟨buf, hdecode, hoffset, -⟩ := h
  exact (flag_of_decode hdecode).1.mpr hoffset

theorem IdleFlag.not_hasNull (h : a.IdleFlag) : ¬a.HasNull := by
  rintro ⟨i, hi, hnull⟩
  have hflag := h.hasNulls
  obtain ⟨buf, hdecode, -, hbits⟩ := h
  rw [(flag_of_decode hdecode).2 hflag i hi, hbits i hi] at hnull
  contradiction

/-- An array is flagged if some item is null, or if its flag is idle. -/
theorem Obtained.hasNulls_iff {fits : Tag → Layout → Prop} (h : Obtained fits a) :
    a.hasNulls = true ↔ a.HasNull ∨ a.IdleFlag := by
  have hflagged (hnull : a.HasNull) : a.hasNulls = true := by
    cases hflag : a.hasNulls with
    | true => rfl
    | false => exact absurd hnull (h.wellFormed.not_hasNull hflag)
  refine ⟨fun hflag => ?_, fun hor => hor.elim hflagged IdleFlag.hasNulls⟩
  cases h.origin with
  | empty tag => contradiction
  | assembled _ hassembled => exact .inl (hassembled.hasNulls_iff.mp hflag)
  | @decoded buf _ hdecode =>
      obtain ⟨hoffset, hnulls⟩ := flag_of_decode hdecode
      refine Classical.or_iff_not_imp_left.mpr fun hnone =>
        ⟨buf, hdecode, hoffset.mp hflag, fun i hi => ?_⟩
      have hpresent : a.isNullAt i = false :=
        Bool.eq_false_iff.mpr fun hnull => hnone ⟨i, hi, hnull⟩
      rw [hnulls hflag i hi] at hpresent
      simpa using hpresent

/-! ## reductions -/

theorem WellFormed.length_ranges (h : a.WellFormed) : a.ranges.length = a.dims.length := by
  rw [ranges, List.length_zip, h.length_lbounds, Nat.min_self]

/-- Ranges tell extents and lower bounds. -/
theorem WellFormed.ranges_eq_iff (ha : a.WellFormed) (hb : b.WellFormed) :
    a.ranges = b.ranges ↔ a.dims = b.dims ∧ a.lbounds = b.lbounds :=
  zip_eq_zip_iff ha.length_lbounds.symm hb.length_lbounds.symm

theorem WellFormed.rangeConflict_eq_none_iff (ha : a.WellFormed) (hb : b.WellFormed)
    (hdim : a.ndim = b.ndim) :
    rangeConflict 0 a.ranges b.ranges = none ↔ a.dims = b.dims ∧ a.lbounds = b.lbounds := by
  have hlen : a.ranges.length = b.ranges.length := by
    rwa [ha.length_ranges, hb.length_ranges, ← ha.ndim_eq_iff hb.toDimensioned]
  rw [PackedArray.rangeConflict_eq_none_iff 0 hlen, ha.ranges_eq_iff hb]

theorem WellFormed.ndim_ne_zero (h : a.WellFormed) (hflag : a.hasNulls = true) : a.ndim ≠ 0 := by
  rw [h.hasNulls_eq] at hflag
  obtain ⟨bitmap, hb⟩ := Option.isSome_iff_exists.mp hflag
  exact (h.of_some bitmap hb).1

/-- The scalars of an array without nulls are read without meeting one. -/
theorem scalar_failsOnly_of_mem_entries {entry : Entry} (h : entry ∈ a.entries l)
    (hnone : ¬a.HasNull) : FailsOnly (· ≠ .nullElement) (Entry.scalar entry) := by
  have hread : a.Read l entry := Walk.read_of_mem_steps h
  obtain ⟨-, hnull⟩ | ⟨bs, rfl⟩ := hread
  · exact absurd hnull hnone
  · have hunpack : FailsOnly (fun e => OpError.ofArray e ≠ .nullElement) (l.unpack bs) :=
      l.unpack_failsOnly (fun _ => by simp [OpError.ofArray]) (by simp [OpError.ofArray]) bs
    cases hread : l.unpack bs with
    | ok p => exact .ok p.1
    | error e => exact .error (hunpack e hread)

/-- **Reductions go by the flags**: unless a step or the end reports a null, a
reduction refuses nulls exactly when the shapes agree and an operand is
flagged. -/
theorem reduce_eq_nullElement_iff {f : Combiner} {fin : Finalizer} (ha : a.WellFormed)
    (hb : b.WellFormed) (hf : f.NoNull) (hfin : fin.NoNull) :
    (reduce a b f fin).result = .error .nullElement ↔
      a.dims = b.dims ∧ a.lbounds = b.lbounds ∧ (a.hasNulls = true ∨ b.hasNulls = true) := by
  constructor
  · intro hreduce
    by_cases hdim : a.ndim = b.ndim
    · refine Classical.byContradiction fun hcond => ?_
      have hcheck : FailsOnly (· ≠ .nullElement) (checkOperands a b) := by
        refine checkOperands_failsOnly (by simp) (by simp [OpError.ofArray])
          (fun hnone hflag => ?_) (by simp) OpError.ofScalar_ne_nullElement
        obtain ⟨hdims, hlbounds⟩ := (ha.rangeConflict_eq_none_iff hb hdim).mp hnone
        exact absurd ⟨hdims, hlbounds, by simpa using hflag⟩ hcond
      have hfails : FailsOnly (· ≠ .nullElement) (reduce a b f fin).result := by
        refine reduce_failsOnly (by simp) hcheck (fun n l hok entry hmem => ?_) hf hfin
        obtain ⟨hflag, hflag', -⟩ := of_checkOperands hok
        obtain hmem | hmem := List.mem_append.mp hmem
        · exact scalar_failsOnly_of_mem_entries hmem (ha.not_hasNull hflag)
        · exact scalar_failsOnly_of_mem_entries hmem (hb.not_hasNull hflag')
      exact hfails _ hreduce rfl
    · rw [reduce, if_pos hdim] at hreduce
      simp at hreduce
  · rintro ⟨hdims, hlbounds, hflag⟩
    have hdim : a.ndim = b.ndim :=
      (ha.ndim_eq_iff hb.toDimensioned).mpr (congrArg List.length hdims)
    have hne : a.ndim ≠ 0 := hflag.elim ha.ndim_ne_zero fun h => hdim ▸ hb.ndim_ne_zero h
    have hcheck : checkOperands a b = .error .nullElement := by
      unfold checkOperands
      rw [(ha.rangeConflict_eq_none_iff hb hdim).mpr ⟨hdims, hlbounds⟩, ha.itemCount_dims]
      have hflags : (a.hasNulls || b.hasNulls) = true := by simpa using hflag
      simp only [hflags, if_true]
      rfl
    rw [reduce, if_neg (not_not_intro hdim), if_neg (mt isEmpty_iff.mp hne), hcheck]

/-- **What the null flag tells**: an array has the flag exactly when it has a
bitmap.  It has the flag exactly when some item is null, unless the flag is
idle.  A reduction refuses nulls exactly when the shapes agree and some item of
an operand is null, or the flag of one is idle. -/
theorem Obtained.flag_right_iff {fits : Tag → Layout → Prop} (ha : Obtained fits a)
    (hb : Obtained fits b) :
    a.hasNulls = a.nulls.isSome ∧
    ((a.hasNulls = true ↔ a.HasNull) ↔ ¬a.IdleFlag) ∧
    ∀ f fin, Combiner.NoNull f → Finalizer.NoNull fin →
      ((reduce a b f fin).result = .error .nullElement ↔
        a.dims = b.dims ∧ a.lbounds = b.lbounds ∧
          ((a.HasNull ∨ b.HasNull) ∨ a.IdleFlag ∨ b.IdleFlag)) := by
  refine ⟨ha.wellFormed.hasNulls_eq, ?_, fun f fin hf hfin => ?_⟩
  · rw [ha.hasNulls_iff]
    constructor
    · intro h hidle
      exact hidle.not_hasNull (h.mp (.inr hidle))
    · intro hidle
      simp [hidle]
  · rw [reduce_eq_nullElement_iff ha.wellFormed hb.wellFormed hf hfin, ha.hasNulls_iff,
      hb.hasNulls_iff, or_or_or_comm]

/-- A flag that is right beside one that is idle: one integer with a bitmap in
which it is present, and one that is null. -/
theorem flag_right_beside_idle :
    let idle := [144, 0, 0, 0, 1, 0, 0, 0, 32, 0, 0, 0, 2, 0, 0, 0, 1, 0, 0, 0, 1, 0, 0, 0,
      1, 0, 0, 0, 0, 0, 0, 0, 7, 0, 0, 0]
    let a : NdArray := ⟨Tag.int4, 1, [1], [1], 32, some ⟨[1], 1⟩, [7, 0, 0, 0]⟩
    let b := assemble Tag.int4 [1] [1] [true] []
    let r := (reduce a b NumericOp.dot.combine Finalizer.noop).result
    decode idle = .ok a ∧
      ofElements [.word 0] (some [true]) [1] [1] Tag.int4 (Kind.int .four).layout = .ok b ∧
      a.hasNulls = a.nulls.isSome ∧ ((a.hasNulls = true ↔ a.HasNull) ↔ ¬a.IdleFlag) ∧
      (r = .error .nullElement ↔ a.dims = b.dims ∧ a.lbounds = b.lbounds ∧
        ((a.HasNull ∨ b.HasNull) ∨ a.IdleFlag ∨ b.IdleFlag)) := by
  intro idle a b r
  have hdecode : decode idle = .ok a := by
    simp only [idle, a]
    exact eq_ok_of_toOption (by decide +kernel)
  have hmade : ofElements [.word 0] (some [true]) [1] [1] Tag.int4 (Kind.int .four).layout =
      .ok b := by
    simp only [b]
    rfl
  have ha : Obtained (fun _ _ => True) a := .decode hdecode
  have hb : Obtained (fun _ _ => True) b := .ofElements trivial hmade
  obtain ⟨hbitmap, hright, hreduce⟩ := ha.flag_right_iff hb
  exact ⟨hdecode, hmade, hbitmap, hright,
    hreduce _ _ (NumericOp.noNull_combine .dot) Finalizer.noNull_noop⟩

/-- An idle flag: the only item is present, and a reduction refuses nulls. -/
theorem idle_flag_refused :
    let idle := [144, 0, 0, 0, 1, 0, 0, 0, 32, 0, 0, 0, 2, 0, 0, 0, 1, 0, 0, 0, 1, 0, 0, 0,
      1, 0, 0, 0, 0, 0, 0, 0, 7, 0, 0, 0]
    let a : NdArray := ⟨Tag.int4, 1, [1], [1], 32, some ⟨[1], 1⟩, [7, 0, 0, 0]⟩
    decode idle = .ok a ∧ a.hasNulls = true ∧ ¬a.HasNull ∧
      (reduce a a NumericOp.dot.combine Finalizer.noop).result = .error .nullElement := by
  intro idle a
  have hdecode : decode idle = .ok a := by
    simp only [idle, a]
    exact eq_ok_of_toOption (by decide +kernel)
  have hnone : ¬a.HasNull := by
    simp only [a, HasNull]
    decide
  exact ⟨hdecode, by decide, hnone, rfl⟩

end NdArray

end PackedArray
