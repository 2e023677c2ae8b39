import PackedArray.NdArray.Source
import PackedArray.Proofs.Construction

/-!
# PackedArray.Proofs.Sources

What an array of elements depends on.

Nothing is looked at that does not go into the array.  Past the last item, and where the mask
has a null, a source can hold anything; elements that are packed to the same bytes are the
same to the builder, whatever their storage form; and it does not matter who owns them.

* `NdArray.ofSource_eq_ofElements` — the passes by position are those over the elements that
  are present;
* `NdArray.packData_congr` — packing goes by strides and blocks;
* `NdArray.ofSource_congr` — sources that agree on the present items.
-/

namespace PackedArray

/-! ## passes by position -/

section Passes

variable {l : Layout} {mask : Option (List Bool)}

/-- The flags of `n` items from `i` on. -/
def maskFrom (mask : Option (List Bool)) (i n : Nat) : List Bool :=
  (List.range' i n).map (masked mask)

theorem maskFrom_succ (mask : Option (List Bool)) (i n : Nat) :
    maskFrom mask i (n + 1) = masked mask i :: maskFrom mask (i + 1) n := rfl

theorem getElem?_maskFrom {mask : Option (List Bool)} {n i : Nat} (h : i < n) :
    (maskFrom mask 0 n)[i]? = some (masked mask i) := by
  simp [maskFrom, h]

/-- Measuring by position is measuring what is present. -/
theorem Layout.measureItems_eq (i acc : Nat) (xs : List Scalar) :
    l.measureItems mask i acc xs =
      l.measureFrom acc (presentElements xs (maskFrom mask i xs.length)) := by
  induction xs generalizing i acc with
  | nil => rfl
  | cons x xs ih =>
      rw [measureItems, List.length_cons, maskFrom_succ]
      cases masked mask i with
      | true => rw [if_pos rfl, presentElements_cons_true, ih]
      | false =>
          rw [if_neg Bool.false_ne_true, presentElements_cons_false, measureFrom]
          cases l.stride x with
          | error e => rfl
          | ok n => simp only [ih]

/-- Storing by position is storing what is present. -/
theorem Region.storeItems_eq (i : Nat) (xs : List Scalar) (r : Region) :
    r.storeItems l mask i xs =
      r.storeAll l (presentElements xs (maskFrom mask i xs.length)) := by
  induction xs generalizing i r with
  | nil => rfl
  | cons x xs ih =>
      rw [storeItems, List.length_cons, maskFrom_succ]
      cases masked mask i with
      | true => rw [if_pos rfl, presentElements_cons_true, ih]
      | false =>
          rw [if_neg Bool.false_ne_true, presentElements_cons_false, storeAll]
          obtain ⟨next, e | taken⟩ := r.store l x
          · rfl
          · exact ih (i + 1) next

/-- Whoever owns the elements, their packed data is that of the present ones. -/
theorem Source.packItems_eq {source : Source} {n : Nat} (h : n ≤ source.elems.length) :
    source.packItems l mask n =
      NdArray.packData l (presentElements (source.elems.take n) (maskFrom mask 0 n)) := by
  have hlen : (source.elems.take n).length = n := List.length_take_of_le h
  have hstore (r : Region) : source.storeItems l mask n r =
      r.storeAll l (presentElements (source.elems.take n) (maskFrom mask 0 n)) := by
    cases source with
    | borrow elems | consume elems =>
        rw [storeItems, Region.storeItems_eq]
        exact congrArg (fun n' => r.storeAll l (presentElements _ (maskFrom mask 0 n'))) hlen
  rw [packItems, NdArray.packData, Layout.measureItems_eq, hlen]
  simp only [hstore]

end Passes

namespace NdArray

variable {nulls nulls' : Option (List Bool)} {dims lbounds : List Int32} {tag : Tag} {l : Layout}

/-- The mask covers this many items. -/
def Covers (n : Nat) (mask : Option (List Bool)) : Prop :=
  ∀ flags, mask = some flags → n ≤ flags.length

theorem maskFrom_none (n : Nat) : maskFrom none 0 n = List.replicate n false := by
  rw [maskFrom, show masked none = fun _ => false from rfl, List.map_const', List.length_range']

theorem maskFrom_some {n : Nat} {flags : List Bool} (h : n ≤ flags.length) :
    maskFrom (some flags) 0 n = flags.take n := by
  refine List.ext_getElem (by simp [maskFrom, h]) fun i hi hi' => ?_
  have hlt : i < flags.length := by
    rw [List.length_take] at hi'
    omega
  simp [maskFrom, masked, hlt]

/-- A mask that covers the items has a flag for each of them. -/
theorem nullFlags_eq_maskFrom {n : Nat} (h : Covers n nulls) :
    nullFlags n nulls = .ok (maskFrom nulls 0 n) := by
  cases nulls with
  | none => rw [nullFlags, maskFrom_none]
  | some flags =>
      have hle := h flags rfl
      rw [nullFlags, if_neg (Nat.not_lt.mpr hle), maskFrom_some hle]

/-- **Passes by position**: an array of the elements of a source is the array of those
elements, whoever owns them. -/
theorem ofSource_eq_ofElements (source : Source) :
    ofSource source nulls dims lbounds tag l =
      ofElements source.elems nulls dims lbounds tag l := by
  rw [ofSource, ofElements]
  refine bind_congr fun _ => ?_
  split
  · rfl
  refine bind_congr fun n => ?_
  by_cases hshort : source.length < n
  · have hshort' : source.elems.length < n := hshort
    simp only [if_pos hshort, if_pos hshort']
    rfl
  have hle : n ≤ source.elems.length := Nat.le_of_not_lt hshort
  simp only [if_neg hshort, if_neg (Nat.not_lt.mpr hle)]
  cases nulls with
  | none =>
      simp only [maskOver, nullFlags, ok_bind, Source.packItems_eq hle, maskFrom_none]
      simp
  | some flags =>
      by_cases hflags : flags.length < n
      · simp only [maskOver, nullFlags, if_pos hflags]
        rfl
      have htake : maskFrom (some (flags.take n)) 0 n = flags.take n := by
        rw [maskFrom_some (by rw [List.length_take]; omega), List.take_take, Nat.min_self]
      simp only [maskOver, nullFlags, if_neg hflags, ok_bind, Source.packItems_eq hle, htake]
      refine bind_congr fun _ => bind_congr fun data => ?_
      cases hany : (flags.take n).any id <;> simp [hany]

end NdArray

/-! ## elements that are packed alike -/

/-- A layout cannot tell the elements apart: they are equal, or have the same bytes at the
width of a word. -/
def Layout.Alike (l : Layout) (x y : Scalar) : Prop :=
  x = y ∨ l.len.toNat ∈ Scalar.wordWidths ∧ x.fixedBytes l.len.toNat = y.fixedBytes l.len.toNat

namespace Layout

variable {l : Layout} {x y : Scalar} {xs ys : List Scalar}

namespace Alike

theorem pack_eq (h : l.Alike x y) : l.pack x = l.pack y := by
  obtain rfl | ⟨hwidth, hbytes⟩ := h
  · rfl
  · rw [Scalar.fixedBytes, Scalar.fixedBytes, if_pos hwidth, if_pos hwidth,
      Option.some.injEq] at hbytes
    rw [(pack_of_mem_wordWidths hwidth x).2, (pack_of_mem_wordWidths hwidth y).2, hbytes]

theorem stride_eq (h : l.Alike x y) : l.stride x = l.stride y := by
  obtain rfl | ⟨hwidth, -⟩ := id h
  · rfl
  · have hv : ¬l.isVariable = true := by simp [(pack_of_mem_wordWidths hwidth x).1]
    unfold stride
    rw [if_neg hv, if_neg hv, h.pack_eq]

theorem block_eq (h : l.Alike x y) : l.block x = l.block y := by
  rw [block, block, h.pack_eq]

end Alike

/-- Measuring goes by the strides. -/
theorem measureFrom_congr (h : xs.map l.stride = ys.map l.stride) (acc : Nat) :
    l.measureFrom acc xs = l.measureFrom acc ys := by
  induction xs generalizing ys acc with
  | nil =>
      obtain rfl := List.map_eq_nil_iff.mp h.symm
      rfl
  | cons x xs ih =>
      cases ys with
      | nil => contradiction
      | cons y ys =>
          obtain ⟨hstride, hrest⟩ := List.cons.inj h
          rw [measureFrom, measureFrom, hstride]
          cases l.stride y with
          | error e => rfl
          | ok n => simp only [ih hrest]

end Layout

/-- Packing goes by strides and blocks. -/
theorem NdArray.packData_congr {l : Layout} {xs ys : List Scalar}
    (hstride : xs.map l.stride = ys.map l.stride) (hblock : xs.map l.block = ys.map l.block) :
    packData l xs = packData l ys := by
  rw [packData_eq, packData_eq, Layout.measureFrom_congr hstride, List.flatMap_def, hblock,
    ← List.flatMap_def]

/-- What is absent is not looked at. -/
theorem map_presentElements_congr {α : Type} {f : Scalar → α} {xs ys : List Scalar}
    {flags : List Bool} (hlen : xs.length = ys.length)
    (h : ∀ (i : Nat) (x y : Scalar), flags[i]? = some false → xs[i]? = some x → ys[i]? = some y →
      f x = f y) :
    (presentElements xs flags).map f = (presentElements ys flags).map f := by
  induction xs generalizing ys flags with
  | nil => rw [List.eq_nil_of_length_eq_zero hlen.symm]
  | cons x xs ih =>
      cases ys with
      | nil => contradiction
      | cons y ys =>
          cases flags with
          | nil => rfl
          | cons flag flags =>
              have hrest := @ih ys flags (Nat.succ.inj hlen) fun i => h (i + 1)
              cases flag with
              | true => exact hrest
              | false =>
                  rw [presentElements_cons_false, presentElements_cons_false, List.map_cons,
                    List.map_cons, hrest, h 0 x y rfl rfl rfl]

/-! ## two sources -/

/-- For `n` items two sources with their masks ask for the same array: both cover the items and
have the same ones as null, and the elements of the others are packed alike. -/
structure Agree (l : Layout) (n : Nat) (source source' : Source)
    (nulls nulls' : Option (List Bool)) : Prop where
  length : n ≤ source.length ∧ n ≤ source'.length
  covers : NdArray.Covers n nulls ∧ NdArray.Covers n nulls'
  masked : ∀ i < n, masked nulls i = masked nulls' i
  alike : ∀ i < n, PackedArray.masked nulls i = false → ∀ x y, source.elems[i]? = some x →
    source'.elems[i]? = some y → l.Alike x y

namespace Agree

variable {l : Layout} {n : Nat} {source source' : Source} {nulls nulls' : Option (List Bool)}

theorem maskFrom_eq (h : Agree l n source source' nulls nulls') :
    maskFrom nulls 0 n = maskFrom nulls' 0 n := by
  refine List.map_congr_left fun i hi => h.masked i ?_
  simpa using hi

/-- What goes into the arrays is packed to the same data. -/
theorem packData_eq (h : Agree l n source source' nulls nulls') :
    NdArray.packData l (presentElements (source.elems.take n) (maskFrom nulls 0 n)) =
      NdArray.packData l (presentElements (source'.elems.take n) (maskFrom nulls 0 n)) := by
  have hlen : (source.elems.take n).length = (source'.elems.take n).length := by
    rw [List.length_take_of_le h.length.1, List.length_take_of_le h.length.2]
  have halike (i : Nat) (x y : Scalar) (hflag : (maskFrom nulls 0 n)[i]? = some false)
      (hx : (source.elems.take n)[i]? = some x) (hy : (source'.elems.take n)[i]? = some y) :
      l.Alike x y := by
    have hi : i < n := by
      have hlt := (List.getElem?_eq_some_iff.mp hflag).1
      simpa [maskFrom] using hlt
    rw [getElem?_maskFrom hi, Option.some.injEq] at hflag
    rw [List.getElem?_take_of_lt hi] at hx hy
    exact h.alike i hi hflag x y hx hy
  refine NdArray.packData_congr ?_ ?_
  · exact map_presentElements_congr hlen fun i x y hflag hx hy =>
      (halike i x y hflag hx hy).stride_eq
  · exact map_presentElements_congr hlen fun i x y hflag hx hy =>
      (halike i x y hflag hx hy).block_eq

end Agree

/-- **What an array depends on**: sources that agree, with their masks, on the items that the
dimensions ask for give the same array, or fail alike. -/
theorem NdArray.ofSource_congr {source source' : Source} {nulls nulls' : Option (List Bool)}
    {dims lbounds : List Int32} {tag : Tag} {l : Layout}
    (h : ∀ n, itemCount dims = .ok n → Agree l n source source' nulls nulls') :
    ofSource source nulls dims lbounds tag l = ofSource source' nulls' dims lbounds tag l := by
  rw [ofSource_eq_ofElements, ofSource_eq_ofElements, ofElements, ofElements]
  cases hn : itemCount dims with
  | error e => rfl
  | ok n =>
      have hagree := h n hn
      have hle : ¬source.elems.length < n := Nat.not_lt.mpr hagree.length.1
      have hle' : ¬source'.elems.length < n := Nat.not_lt.mpr hagree.length.2
      simp only [ok_bind, if_neg hle, if_neg hle', nullFlags_eq_maskFrom hagree.covers.1,
        nullFlags_eq_maskFrom hagree.covers.2, ← hagree.maskFrom_eq, hagree.packData_eq]

/-- A lent source and one that is given away: words and blocks with the same two bytes around
different elements in the place of a null, and one more that is not asked for. -/
theorem NdArray.ofSource_congr_storage :
    let l : Layout := ⟨2, true, .short⟩
    let source := Source.borrow [.word 0x10001, .word 9, .ref [7]]
    let source' := Source.consume [.ref [1], .ref [], .word 7, .word 5]
    let nulls := some [false, true, false]
    let nulls' := some [false, true, false, true]
    let a := assemble Tag.bool [3] [1] [false, true, false] [1, 0, 7, 0]
    (∀ n, itemCount [3] = .ok n → Agree l n source source' nulls nulls') ∧
      ofSource source nulls [3] [1] Tag.bool l = .ok a ∧
      ofSource source nulls [3] [1] Tag.bool l = ofSource source' nulls' [3] [1] Tag.bool l := by
  intro l source source' nulls nulls' a
  have hcovers {flags flags' : List Bool} (h : 3 ≤ flags.length) (heq : some flags = some flags') :
      3 ≤ flags'.length := Option.some.inj heq ▸ h
  have hagree (n : Nat) (hn : itemCount [3] = .ok n) : Agree l n source source' nulls nulls' := by
    obtain rfl : 3 = n := Except.ok.inj hn
    refine ⟨by decide, ⟨fun _ => hcovers (by decide), fun _ => hcovers (by decide)⟩, by decide, ?_⟩
    intro i hi hpresent x y hx hy
    match i with
    | 0 =>
        cases hx
        cases hy
        exact .inr (by decide)
    | 1 => contradiction
    | 2 =>
        cases hx
        cases hy
        exact .inr (by decide)
  have hmade : ofSource source nulls [3] [1] Tag.bool l = .ok a := by
    simp only [source, nulls, l, a]
    rfl
  exact ⟨hagree, hmade, ofSource_congr hagree⟩

end PackedArray
