import PackedArray.NdArray.Basic
import PackedArray.NdArray.FlatForm
import PackedArray.Proofs.Bits

/-!
# PackedArray.Proofs.Bitmap

Counting the bits of a null bitmap, bitmaps that cover a given number of items, and
bitmaps as lists of flags.

A bitmap is read bit by bit but counted byte by byte.  The two agree because
every bitmap that an array carries is *exact*: it has the bytes that its items
need and nothing else set in them.  However a bitmap is made and whatever items are
marked in it, it is the one that `NullBitmap.ofNulls` makes of some flags.

* `foldr_bitCount` — byte counts add up to the count of set bits;
* `NullBitmap.countPresent_tabulate`, `NullBitmap.countNulls_tabulate` — what
  the counts of a tabulated bitmap are;
* `NullBitmap.ofBytes?_eq_some_iff` — an exact bitmap is read from bytes that
  agree with it, whatever follows;
* `NullBitmap.faithful_ofNulls` — a bitmap made of flags stands for them;
* `NullBitmap.Origin.bitmap?_eq`, `NullBitmap.setNulls_ofNulls` — of which flags a bitmap is
  made;
* `NdArray.presentCount_eq` — the present items of an array, by its bitmap and
  item by item.
-/

namespace PackedArray

/-! ## counting bits -/

/-- **Byte counts are bit counts**: the set bits of the bytes add up to the
set bits of the list. -/
theorem foldr_bitCount (bs : List UInt8) :
    bs.foldr (fun byte n => bitCount byte + n) 0 =
      (List.range (8 * bs.length)).countP (bitAt bs) := by
  induction bs with
  | nil => rfl
  | cons b bs ih =>
      have hhead : (List.range 8).countP (bitAt (b :: bs)) = bitCount b := by
        refine List.countP_congr fun i hi => ?_
        rw [bitAt_cons_of_lt b bs (List.mem_range.mp hi)]
      have htail : bitAt (b :: bs) ∘ (8 + ·) = bitAt bs := by
        funext i
        exact bitAt_cons_add b bs i
      rw [List.foldr_cons, ih, List.length_cons, Nat.mul_succ, Nat.add_comm _ 8,
        List.range_add, List.countP_append, List.countP_map, hhead, htail]

theorem countP_range_lt (n k : Nat) (p : Nat → Bool) :
    (List.range (n + k)).countP (fun i => decide (i < n) && p i) = (List.range n).countP p := by
  have hleft : (List.range n).countP (fun i => decide (i < n) && p i) =
      (List.range n).countP p := by
    refine List.countP_congr fun i hi => ?_
    simp [List.mem_range.mp hi]
  rw [List.range_add, List.countP_append, List.countP_map, hleft]
  have hright : (List.range k).countP ((fun i => decide (i < n) && p i) ∘ (n + ·)) = 0 := by
    rw [List.countP_eq_zero]
    intro i _
    simp only [Function.comp_apply, Bool.and_eq_true, decide_eq_true_eq]
    omega
  rw [hright, Nat.add_zero]

theorem le_bitmapSize (n : Nat) : n ≤ 8 * bitmapSize n := by
  unfold bitmapSize
  omega

/-! ## counts of a bitmap -/

namespace NullBitmap

theorem countPresent_tabulate (n : Nat) (p : Nat → Bool) :
    (tabulate n p).countPresent = (List.range n).countP p := by
  have hbits : bitAt (tabulate n p).bytes = fun i => decide (i < n) && p i := by
    funext i
    exact bitAt_tabulate n p i
  have hsize : 8 * bitmapSize n = n + (8 * bitmapSize n - n) := by
    have := le_bitmapSize n
    omega
  rw [countPresent, foldr_bitCount, length_bytes_tabulate, hbits, hsize, countP_range_lt]

theorem countNulls_tabulate (n : Nat) (p : Nat → Bool) :
    (tabulate n p).countNulls = (List.range n).countP (fun i => !p i) := by
  have htotal := List.length_eq_countP_add_countP p (l := List.range n)
  rw [countNulls, countPresent_tabulate, len_tabulate]
  rw [List.length_range] at htotal
  simp only [Bool.not_eq_true, Bool.decide_eq_false] at htotal
  omega

/-! ## exact bitmaps -/

/-- Whether a bitmap has a bit for each of `n` items and nothing else: as many
bytes as that takes, and clear bits after the last item. -/
def Exact (b : NullBitmap) (n : Nat) : Prop := b = tabulate n b.isPresent

theorem exact_tabulate (n : Nat) (p : Nat → Bool) : (tabulate n p).Exact n := by
  unfold Exact
  refine tabulate_congr fun i hi => ?_
  simp [hi]

theorem exact_ofNulls (nulls : List Bool) : (ofNulls nulls).Exact nulls.length :=
  exact_tabulate _ _

variable {b : NullBitmap} {n : Nat}

theorem Exact.len_eq (h : b.Exact n) : b.len = n := by
  rw [h]
  rfl

theorem Exact.length_bytes (h : b.Exact n) : b.bytes.length = bitmapSize n := by
  rw [h]
  exact length_bytes_tabulate _ _

/-- Every bit of an exact bitmap tells of an item. -/
theorem Exact.bitAt_bytes (h : b.Exact n) (i : Nat) : bitAt b.bytes i = b.isPresent i := by
  rw [h, bitAt_tabulate, isPresent_tabulate]

/-- Bits past the last item of an exact bitmap are clear. -/
theorem Exact.bitAt_eq_false (h : b.Exact n) {i : Nat} (hi : n ≤ i) :
    bitAt b.bytes i = false := by
  rw [h.bitAt_bytes, h, isPresent_tabulate, decide_eq_false (Nat.not_lt.mpr hi), Bool.false_and]

theorem Exact.countNulls_eq (h : b.Exact n) :
    b.countNulls = (List.range n).countP b.isNull := by
  have hcount := countNulls_tabulate n b.isPresent
  rwa [← h] at hcount

/-- An exact bitmap is read from bytes exactly when there are enough of them
and their bits tell of its items. -/
theorem ofBytes?_eq_some_iff {bs : List UInt8} :
    ofBytes? bs n = some b ↔
      bitmapSize n ≤ bs.length ∧ b.Exact n ∧ ∀ i < n, bitAt bs i = b.isPresent i := by
  unfold ofBytes?
  constructor
  · intro h
    split at h
    · next hle =>
        cases h
        refine ⟨hle, exact_tabulate _ _, fun i hi => ?_⟩
        rw [isPresent_tabulate, decide_eq_true hi, Bool.true_and]
    · contradiction
  · rintro ⟨hle, hexact, hbits⟩
    rw [if_pos hle, tabulate_congr hbits, ← hexact]

/-! ## bitmaps and flags -/

/-- Every bitmap that is tabulated is made of flags. -/
theorem tabulate_eq_ofNulls (n : Nat) (p : Nat → Bool) :
    tabulate n p = ofNulls ((List.range n).map fun i => !p i) := by
  unfold ofNulls
  rw [List.length_map, List.length_range]
  refine tabulate_congr fun i hi => ?_
  simp [List.getElem?_range hi]

theorem allPresent_eq_ofNulls (n : Nat) : allPresent n = ofNulls (List.replicate n false) := by
  unfold allPresent ofNulls
  rw [List.length_replicate]
  refine tabulate_congr fun i hi => ?_
  rw [List.getElem?_replicate, if_pos hi]
  rfl

/-- An item is null when its flag is set, or when it has none. -/
theorem isNull_ofNulls_eq_getD (flags : List Bool) (i : Nat) :
    (ofNulls flags).isNull i = flags[i]?.getD true := by
  rw [isNull, ofNulls, isPresent_tabulate]
  by_cases hi : i < flags.length <;> simp [hi]

theorem toNulls_ofNulls (flags : List Bool) : (ofNulls flags).toNulls = flags := by
  refine List.ext_getElem (length_toNulls _) fun i _ hi => ?_
  simp [toNulls, isNull_ofNulls_eq_getD, hi]

theorem countNulls_ofNulls (flags : List Bool) : (ofNulls flags).countNulls = flags.count true := by
  have hcount := congrArg (List.count true) (toNulls_ofNulls flags)
  rw [toNulls, List.count_eq_countP, List.countP_map] at hcount
  rw [(exact_ofNulls flags).countNulls_eq, ← hcount]
  refine List.countP_congr fun i _ => ?_
  simp

/-- Marking an item null sets its flag. -/
theorem setNull_ofNulls (flags : List Bool) (i : Nat) :
    (ofNulls flags).setNull i = ofNulls (flags.set i true) := by
  unfold setNull
  split
  · next hi =>
      have hlt : i < flags.length := hi
      unfold ofNulls
      rw [List.length_set]
      refine tabulate_congr fun j (hj : j < flags.length) => ?_
      rw [isPresent_tabulate, decide_eq_true hj, Bool.true_and, List.getElem?_set]
      by_cases heq : i = j
      · simp [← heq, hlt]
      · simp [heq, Ne.symm heq]
  · next hi => rw [List.set_eq_of_length_le (Nat.le_of_not_lt hi)]

/-- A bitmap and a list of flags that tell the same, whatever is asked. -/
structure Faithful (b : NullBitmap) (flags : List Bool) : Prop where
  len_eq : b.len = flags.length
  length_bytes : b.bytes.length = (b.len + 7) / 8
  /-- Bits behind the last item are clear. -/
  bitAt_eq_false : ∀ i, b.len ≤ i → bitAt b.bytes i = false
  /-- An item that is not covered is null. -/
  isNull_eq : ∀ i, b.isNull i = flags[i]?.getD true
  countNulls_eq : b.countNulls = flags.count true
  toNulls_eq : b.toNulls = flags
  /-- The flags make the bitmap again. -/
  ofNulls_eq : ofNulls flags = b
  /-- The bytes of the bitmap are accepted, and give it back. -/
  ofBytes?_eq : ofBytes? b.bytes b.len = some b
  /-- One item becomes null and no other changes. -/
  isNull_setNull : ∀ i j, (b.setNull i).isNull j = (j == i || b.isNull j)
  setNull_eq_self : ∀ i, b.len ≤ i → b.setNull i = b

theorem faithful_ofNulls (flags : List Bool) : (ofNulls flags).Faithful flags where
  len_eq := rfl
  length_bytes := length_bytes_tabulate _ _
  bitAt_eq_false _ hi := (exact_ofNulls flags).bitAt_eq_false hi
  isNull_eq := isNull_ofNulls_eq_getD flags
  countNulls_eq := countNulls_ofNulls flags
  toNulls_eq := toNulls_ofNulls flags
  ofNulls_eq := rfl
  ofBytes?_eq := by
    have hexact := exact_ofNulls flags
    exact ofBytes?_eq_some_iff.mpr
      ⟨Nat.le_of_eq hexact.length_bytes.symm, hexact, fun i _ => hexact.bitAt_bytes i⟩
  isNull_setNull i j := by
    rw [isNull, isPresent_setNull, isNull, Bool.not_and, bne, Bool.not_not, Bool.or_comm]
  setNull_eq_self i hi := by rw [setNull_ofNulls, List.set_eq_of_length_le hi]

/-! ## however a bitmap comes about -/

/-- The ways to make a bitmap. -/
inductive Origin
  | present (n : Nat)
  | nulls (flags : List Bool)
  | packed (bs : List UInt8) (n : Nat)

namespace Origin

variable {o : Origin}

/-- The bitmap, unless there are too few bytes. -/
def bitmap? : Origin → Option NullBitmap
  | present n => some (allPresent n)
  | nulls flags => some (ofNulls flags)
  | packed bs n => ofBytes? bs n

/-- The items that are asked for. -/
def len : Origin → Nat
  | present n => n
  | nulls flags => flags.length
  | packed _ n => n

/-- The flags that are asked for. -/
def flags : Origin → List Bool
  | present n => List.replicate n false
  | nulls flags => flags
  | packed bs n => (List.range n).map fun i => !bitAt bs i

/-- There are not enough bytes for the items. -/
def Short : Origin → Prop
  | packed bs n => bs.length < (n + 7) / 8
  | _ => False

theorem length_flags (o : Origin) : o.flags.length = o.len := by
  cases o <;> simp [flags, len]

theorem bitmap?_of_short (h : o.Short) : o.bitmap? = none := by
  cases o with
  | packed bs n => exact if_neg (Nat.not_le_of_lt h)
  | _ => exact h.elim

theorem bitmap?_eq (h : ¬o.Short) : o.bitmap? = some (ofNulls o.flags) := by
  cases o with
  | present n => exact congrArg some (allPresent_eq_ofNulls n)
  | nulls flags => rfl
  | packed bs n =>
      exact (if_pos (Nat.le_of_not_lt h)).trans (congrArg some (tabulate_eq_ofNulls n _))

end Origin

/-- The flags with those of the items set. -/
def withNulls (flags : List Bool) (items : List Nat) : List Bool :=
  items.foldl (fun flags i => flags.set i true) flags

theorem length_withNulls (flags : List Bool) (items : List Nat) :
    (withNulls flags items).length = flags.length := by
  induction items generalizing flags with
  | nil => rfl
  | cons i items ih => exact (ih _).trans List.length_set

/-- Mark items null, one after the other. -/
def setNulls (b : NullBitmap) (items : List Nat) : NullBitmap := items.foldl setNull b

theorem setNulls_ofNulls (flags : List Bool) (items : List Nat) :
    (ofNulls flags).setNulls items = ofNulls (withNulls flags items) := by
  induction items generalizing flags with
  | nil => rfl
  | cons i items ih =>
      rw [setNulls, List.foldl_cons, setNull_ofNulls]
      exact ih _

end NullBitmap

/-! ## nulls of an array -/

namespace NdArray

/-- One flag per item, set for a null. -/
def nullMask (a : NdArray) : List Bool := (List.range a.size).map a.isNullAt

@[simp] theorem length_nullMask (a : NdArray) : a.nullMask.length = a.size := by
  simp [nullMask]

theorem getElem?_nullMask {a : NdArray} {i : Nat} (h : i < a.size) :
    a.nullMask[i]? = some (a.isNullAt i) := by
  simp [nullMask, h]

/-- The flags tell each item. -/
theorem isNullAt_eq_of_nullMask_eq {a b : NdArray} (h : b.nullMask = a.nullMask) {i : Nat}
    (hi : i < a.size) : b.isNullAt i = a.isNullAt i := by
  have hsize : a.size = b.size := by
    rw [← length_nullMask a, ← h, length_nullMask]
  rw [← Option.some.injEq, ← getElem?_nullMask hi, ← getElem?_nullMask (hsize ▸ hi), h]

theorem count_false_nullMask (a : NdArray) :
    a.nullMask.count false = a.size - (List.range a.size).countP a.isNullAt := by
  have htotal := List.length_eq_countP_add_countP a.isNullAt (l := List.range a.size)
  have hcount : a.nullMask.count false = (List.range a.size).countP (fun i => !a.isNullAt i) := by
    rw [nullMask, List.count_eq_countP, List.countP_map]
    refine List.countP_congr fun i _ => ?_
    simp
  simp only [List.length_range, Bool.not_eq_true, Bool.decide_eq_false] at htotal
  omega

/-- The present items by the counts of an exact bitmap are those item by
item. -/
theorem presentCount_eq {a : NdArray} (h : ∀ b, a.nulls = some b → b.Exact a.size) :
    presentCount a.size a.nulls = a.nullMask.count false := by
  rw [count_false_nullMask]
  cases hn : a.nulls with
  | none =>
      have hnone : ∀ i ∈ List.range a.size, ¬a.isNullAt i = true := by simp [isNullAt, hn]
      rw [List.countP_eq_zero.mpr hnone]
      rfl
  | some b =>
      have hnull : a.isNullAt = b.isNull := by
        funext i
        rw [isNullAt, hn]
      rw [hnull, ← (h b hn).countNulls_eq]
      rfl

end NdArray

end PackedArray
