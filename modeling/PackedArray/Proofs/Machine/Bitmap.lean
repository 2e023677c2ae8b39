import PackedArray.Proofs.Machine.Shape

/-!
# PackedArray.Proofs.Machine.Bitmap

Null bitmaps by bytes and masks.

The library tabulates a bitmap bit by bit.  What runs in its place fills bytes, sets and
clears one bit of a byte through a mask, and mends the last byte where the items do not
fill it.  A bitmap is made in three ways, each of which leaves the bits behind the last
item clear in its own manner, and changed in one.

* `Bitmap.update_tabulate`, `Bitmap.mendTail_eq` — the two ways of changing a byte;
* `Bitmap.allPresent_eq`, `Bitmap.ofNulls_eq`, `Bitmap.ofBytes?_eq`, `Bitmap.setNull_eq` —
  each comes to the library's own;
* `Bitmap.make_faithful` — a bitmap stands for its flags, whatever is asked.
-/

namespace PackedArray.Machine.Bitmap

variable {ε : Type}

/-! ## bytes and masks -/

/-- The bit of an item in its byte. -/
def itemBit (i : Nat) : Run ε UInt8 := do
  demand (i % 8 < 8)
  return 1 <<< UInt8.ofNat (i % 8)

/-- Change the byte of an item by the bit of the item. -/
def update (bytes : List UInt8) (i : Nat) (f : UInt8 → UInt8 → UInt8) : Run ε (List UInt8) := do
  let bit ← itemBit i
  let byte ← index bytes (i / 8)
  return bytes.set (i / 8) (f byte bit)

/-- Change the last byte by the bits of the items in it, where they do not fill it. -/
def mendTail (n : Nat) (bytes : List UInt8) (f : UInt8 → UInt8 → UInt8) : Run ε (List UInt8) :=
  if n % 8 = 0 then .ok bytes
  else
    match bytes[bytes.length - 1]? with
    | none => .ok bytes
    | some last => do
      let bit ← itemBit n
      demand (1 ≤ bit)
      return bytes.set (bytes.length - 1) (f last (bit - 1))

/-- Every item is present. -/
def allPresent (n : Nat) : Run ε NullBitmap := do
  let bytes ← mendTail n (List.replicate (bitmapSize n) 255) fun _ mask => mask
  return ⟨bytes, n⟩

/-- Set the bit of an item, unless its flag is set. -/
def setPresent (bytes : List UInt8) (item : Bool × Nat) : Run ε (List UInt8) :=
  if item.1 then .ok bytes else update bytes item.2 (· ||| ·)

/-- Items are null where the flag is set. -/
def ofNulls (flags : List Bool) : Run ε NullBitmap := do
  let bytes ← flags.zipIdx.foldlM setPresent (List.replicate (bitmapSize flags.length) 0)
  return ⟨bytes, flags.length⟩

/-- Take the bytes that are needed and clear what is behind the last item. -/
def ofBytes? (bs : List UInt8) (n : Nat) : Run ε (Option NullBitmap) :=
  if bs.length < bitmapSize n then .ok none
  else do
    let front ← slice bs 0 (bitmapSize n)
    let bytes ← mendTail n front (· &&& ·)
    return some ⟨bytes, n⟩

def isPresent (b : NullBitmap) (i : Nat) : Run ε Bool :=
  if i < b.len then do
    let byte ← index b.bytes (i / 8)
    let bit ← itemBit i
    return byte &&& bit != 0
  else .ok false

def isNull (b : NullBitmap) (i : Nat) : Run ε Bool := do
  return !(← isPresent b i)

/-- Clear the bit of an item; an item that is not covered is ignored. -/
def setNull (b : NullBitmap) (i : Nat) : Run ε NullBitmap :=
  if i < b.len then do
    let bytes ← update b.bytes i fun byte bit => byte &&& ~~~bit
    return { b with bytes }
  else .ok b

/-- One flag per item, set for a null. -/
def toNulls (b : NullBitmap) : Run ε (List Bool) := (List.range b.len).mapM (isNull b)

/-! ## one byte -/

/-- The mask of one bit of a byte has that bit. -/
theorem testBit_mask (m k : Fin 8) :
    ((1 : UInt8) <<< UInt8.ofNat m).toNat.testBit k = (k.val == m.val) := by
  revert m k
  decide

theorem testBit_not_mask (m k : Fin 8) :
    (~~~((1 : UInt8) <<< UInt8.ofNat m)).toNat.testBit k = (k.val != m.val) := by
  revert m k
  decide

/-- One less than the mask of a bit has the bits below it. -/
theorem testBit_mask_sub_one (m k : Fin 8) :
    (((1 : UInt8) <<< UInt8.ofNat m) - 1).toNat.testBit k = decide (k.val < m.val) := by
  revert m k
  decide

theorem one_le_mask (m : Fin 8) : 1 ≤ (1 : UInt8) <<< UInt8.ofNat m := by
  revert m
  decide

theorem toNat_mask (m : Fin 8) : ((1 : UInt8) <<< UInt8.ofNat m).toNat = 1 <<< m.val := by
  revert m
  decide

/-- A byte and a mask have a bit in common when the byte has the bit of the mask. -/
theorem and_mask_ne_zero (byte : UInt8) (m : Fin 8) :
    (byte &&& 1 <<< UInt8.ofNat m != 0) = byte.toNat.testBit m := by
  have hand : (byte &&& 1 <<< UInt8.ofNat m).toNat = byte.toNat &&& 2 ^ m.val := by
    rw [UInt8.toNat_and, toNat_mask, Nat.one_shiftLeft]
  cases hbit : byte.toNat.testBit m with
  | true =>
      rw [bne_iff_ne]
      intro hzero
      have hm := congrArg (Nat.testBit · m) hand
      simp [hzero, Nat.testBit_two_pow_self, hbit] at hm
  | false =>
      rw [bne_eq_false_iff_eq, ← UInt8.toNat_inj, hand]
      refine Nat.eq_of_testBit_eq fun k => ?_
      rw [Nat.testBit_and, Nat.testBit_two_pow]
      by_cases hk : m.val = k
      · rw [← hk, hbit]
        simp
      · simp [hk]

theorem itemBit_eq (i : Nat) : (itemBit i : Run ε UInt8) = .ok (1 <<< UInt8.ofNat (i % 8)) := by
  rw [itemBit, demand_of (Nat.mod_lt _ (by decide))]
  rfl

/-! ## bytes of a bitmap -/

section

open NullBitmap (tabulate bitAt_tabulate length_bytes_tabulate tabulate_congr)

variable {n : Nat} {p : Nat → Bool} {bytes : List UInt8} {f : UInt8 → UInt8 → UInt8}

theorem div_lt_length_tabulate {i : Nat} (hi : i < n) : i / 8 < (tabulate n p).bytes.length := by
  rw [length_bytes_tabulate, bitmapSize]
  omega

/-- What a change does to the bit of the mask, it does to the item; it must do nothing to
the other bits. -/
theorem update_tabulate {g : Bool → Bool → Bool} (hother : ∀ bit, g bit false = bit)
    (hf : ∀ byte (m k : Fin 8), (f byte (1 <<< UInt8.ofNat m)).toNat.testBit k =
      g (byte.toNat.testBit k) (k.val == m.val)) {i : Nat} (hi : i < n) :
    (update (tabulate n p).bytes i f : Run ε _) =
      .ok (tabulate n fun j => g (p j) (j == i)).bytes := by
  have hbyte : i / 8 < (tabulate n p).bytes.length := div_lt_length_tabulate hi
  rw [update, itemBit_eq, ok_bind, index_of_lt hbyte, ok_bind]
  refine congrArg Except.ok (eq_of_bitAt_eq (by simp) fun j _ => ?_)
  rw [bitAt_set hbyte, bitAt_tabulate n fun j => g (p j) (j == i)]
  split
  · next hdiv =>
      have hbit := hf (tabulate n p).bytes[i / 8] ⟨i % 8, Nat.mod_lt _ (by decide)⟩
        ⟨j % 8, Nat.mod_lt _ (by decide)⟩
      have hsame : (j % 8 == i % 8) = (j == i) := by
        rw [Bool.eq_iff_iff, beq_iff_eq, beq_iff_eq]
        omega
      rw [hbit, ← bitAt_eq_of_div hdiv hbyte, bitAt_tabulate, hsame]
      -- behind the last item no bit is set, and the one that changes is before it
      by_cases hj : j < n
      · simp [hj]
      · have hne : (j == i) = false := beq_false_of_ne (by omega)
        simp [hj, hne, hother]
  · next hdiv =>
      have hne : (j == i) = false := beq_false_of_ne fun heq => hdiv (heq ▸ rfl)
      rw [hne, hother, bitAt_tabulate]

/-- A last byte of which only the bits of items are kept makes a bitmap. -/
theorem mendTail_eq (hlen : bytes.length = bitmapSize n)
    (hf : ∀ byte ∈ bytes, ∀ mask, f byte mask = byte &&& mask) :
    (mendTail n bytes f : Run ε _) = .ok (tabulate n (bitAt bytes)).bytes := by
  unfold bitmapSize at hlen
  unfold mendTail
  split
  · next hfull =>
      refine congrArg Except.ok (eq_of_bitAt_eq (by simp [hlen, bitmapSize]) fun j hj => ?_)
      rw [bitAt_tabulate, decide_eq_true (by omega), Bool.true_and]
  · next hpart =>
      have hlast : bytes.length - 1 = n / 8 := by omega
      have hin : n / 8 < bytes.length := by omega
      have hle := one_le_mask ⟨n % 8, Nat.mod_lt _ (by decide)⟩
      rw [hlast, List.getElem?_eq_getElem hin]
      simp only [itemBit_eq, ok_bind, demand_of hle, hf _ (List.getElem_mem hin)]
      refine congrArg Except.ok (eq_of_bitAt_eq (by simp [hlen, bitmapSize]) fun j hj => ?_)
      rw [List.length_set] at hj
      rw [bitAt_set hin, bitAt_tabulate]
      split
      · next hdiv =>
          have hbit := testBit_mask_sub_one ⟨n % 8, Nat.mod_lt _ (by decide)⟩
            ⟨j % 8, Nat.mod_lt _ (by decide)⟩
          have hsame : decide (j % 8 < n % 8) = decide (j < n) := decide_eq_decide.mpr (by omega)
          rw [UInt8.toNat_and, Nat.testBit_and, hbit, ← bitAt_eq_of_div hdiv hin, hsame,
            Bool.and_comm]
      · next hdiv => rw [decide_eq_true (by omega), Bool.true_and]

theorem replicate_zero_eq (n : Nat) :
    List.replicate (bitmapSize n) 0 = (tabulate n fun _ => false).bytes := by
  refine eq_of_bitAt_eq (by simp) fun j _ => ?_
  rw [bitAt_replicate_zero, bitAt_tabulate, Bool.and_false]

theorem setPresent_tabulate (null : Bool) {i : Nat} (hi : i < n) :
    (setPresent (tabulate n p).bytes (null, i) : Run ε _) =
      .ok (tabulate n fun j => p j || j == i && !null).bytes := by
  cases null with
  | true => simp [setPresent]
  | false =>
      rw [setPresent, if_neg Bool.false_ne_true, update_tabulate (g := (· || ·)) Bool.or_false
        (fun byte m k => by rw [UInt8.toNat_or, Nat.testBit_or, testBit_mask]) hi]
      simp

/-- Going through the flags sets the bits of the items after `k` that are present. -/
theorem foldlM_setPresent {flags : List Bool} {k : Nat} (h : k + flags.length ≤ n) :
    ((flags.zipIdx k).foldlM setPresent (tabulate n p).bytes : Run ε _) =
      .ok (tabulate n fun j => p j || decide (k ≤ j) && !flags[j - k]?.getD true).bytes := by
  induction flags generalizing p k with
  | nil => simp [pure, Except.pure]
  | cons null flags ih =>
      rw [List.length_cons] at h
      rw [List.zipIdx_cons, List.foldlM_cons, setPresent_tabulate null (by omega), ok_bind,
        ih (by omega)]
      refine congrArg (Except.ok ∘ NullBitmap.bytes) (tabulate_congr fun j _ => ?_)
      -- the bits before item `k` are done, its own has just been, the others are left
      obtain hlt | rfl | hgt := Nat.lt_trichotomy j k
      · simp [Nat.not_le_of_lt hlt, Nat.ne_of_lt hlt, show ¬k + 1 ≤ j by omega]
      · simp [show ¬j + 1 ≤ j by omega]
      · obtain ⟨d, rfl⟩ := Nat.exists_eq_add_of_lt hgt
        have hne : (k + d + 1 == k) = false := beq_false_of_ne (by omega)
        simp [hne, show k + d + 1 - k = d + 1 by omega, show k + d + 1 - (k + 1) = d by omega,
          show k ≤ k + d + 1 by omega]

end

/-! ## bitmaps -/

section

open NullBitmap (tabulate bitAt_tabulate tabulate_congr)

variable {b : NullBitmap} {n : Nat}

theorem ofNulls_eq (flags : List Bool) : (ofNulls flags : Run ε _) = .ok (.ofNulls flags) := by
  rw [ofNulls, replicate_zero_eq, foldlM_setPresent (by omega), ok_bind]
  simp only [Bool.false_or, Nat.zero_le, decide_true, Bool.true_and, Nat.sub_zero]
  rfl

theorem bitAt_ones {k i : Nat} (h : i < 8 * k) : bitAt (List.replicate k 255) i = true := by
  have hbits : ∀ m : Fin 8, (255 : UInt8).toNat.testBit m = true := by decide
  rw [bitAt, List.getElem?_replicate, if_pos (by omega)]
  exact hbits ⟨i % 8, Nat.mod_lt _ (by decide)⟩

theorem allPresent_eq (n : Nat) : (allPresent n : Run ε _) = .ok (.allPresent n) := by
  have hmask : ∀ byte ∈ List.replicate (bitmapSize n) (255 : UInt8), ∀ mask : UInt8,
      mask = byte &&& mask := by
    intro byte hbyte mask
    rw [(List.mem_replicate.mp hbyte).2]
    exact UInt8.neg_one_and.symm
  have hones : tabulate n (bitAt (List.replicate (bitmapSize n) 255)) = .allPresent n :=
    tabulate_congr fun i hi => by
      have hle := le_bitmapSize n
      exact bitAt_ones (by omega)
  rw [allPresent, mendTail_eq List.length_replicate hmask, ok_bind, hones]
  rfl

theorem ofBytes?_eq (bs : List UInt8) (n : Nat) :
    (ofBytes? bs n : Run ε _) = .ok (NullBitmap.ofBytes? bs n) := by
  unfold ofBytes?
  split
  · next hlt => simp [NullBitmap.ofBytes?, Nat.not_le_of_lt hlt]
  · next hge =>
      have hsize : bitmapSize n ≤ bs.length := Nat.le_of_not_lt hge
      have hfront : tabulate n (bitAt (bs.take (bitmapSize n))) = tabulate n (bitAt bs) :=
        tabulate_congr fun i hi => by
          have hle := le_bitmapSize n
          rw [bitAt_take (by omega)]
      rw [slice_of_le (Nat.zero_le _) hsize, ok_bind, List.drop_zero, Nat.sub_zero,
        mendTail_eq (List.length_take_of_le hsize) fun _ _ _ => rfl, hfront, ok_bind,
        NullBitmap.ofBytes?, if_pos hsize]
      rfl

theorem isPresent_eq (h : b.Exact n) (i : Nat) :
    (isPresent b i : Run ε _) = .ok (b.isPresent i) := by
  unfold isPresent
  split
  · next hi =>
      have hbyte : i / 8 < b.bytes.length := by
        rw [h]
        exact div_lt_length_tabulate (h.len_eq ▸ hi)
      have hbit := and_mask_ne_zero b.bytes[i / 8] ⟨i % 8, Nat.mod_lt _ (by decide)⟩
      rw [index_of_lt hbyte, ok_bind, itemBit_eq, ok_bind, hbit, ← bitAt_eq_of_div rfl hbyte,
        h.bitAt_bytes]
      rfl
  · next hi => simp [NullBitmap.isPresent, hi]

theorem isNull_eq (h : b.Exact n) (i : Nat) : (isNull b i : Run ε _) = .ok (b.isNull i) := by
  rw [isNull, isPresent_eq h]
  rfl

theorem toNulls_eq (h : b.Exact n) : (toNulls b : Run ε _) = .ok b.toNulls := by
  have hnull : (isNull b : Nat → Run ε Bool) = fun i => pure (b.isNull i) := funext (isNull_eq h)
  rw [toNulls, hnull, List.mapM_pure]
  rfl

theorem setNull_eq (h : b.Exact n) (i : Nat) : (setNull b i : Run ε _) = .ok (b.setNull i) := by
  unfold setNull NullBitmap.setNull
  split
  · next hi =>
      have hbytes : b.bytes = (tabulate b.len b.isPresent).bytes := by
        rw [h.len_eq]
        exact congrArg NullBitmap.bytes h
      rw [hbytes, update_tabulate (g := fun bit own => bit && !own) (by simp)
        (fun byte m k => by
          rw [UInt8.toNat_and, Nat.testBit_and, testBit_not_mask]
          rfl) hi]
      rfl
  · rfl

/-- What is asked of a bitmap, and a change of it, come to the library's own. -/
structure Checked (ε : Type) (b : NullBitmap) : Prop where
  isNull_eq : ∀ i, (isNull b i : Run ε _) = .ok (b.isNull i)
  /-- No more items are present than there are, and half a word counts them. -/
  countNulls_eq : (countNulls b : Run ε _) = .ok b.countNulls
  toNulls_eq : (toNulls b : Run ε _) = .ok b.toNulls
  setNull_eq : ∀ i, (setNull b i : Run ε _) = .ok (b.setNull i)

theorem checked_of_exact (h : b.Exact n) (hn : n < 0x100000000) : Checked ε b where
  isNull_eq := Bitmap.isNull_eq h
  countNulls_eq := Machine.countNulls_eq h hn
  toNulls_eq := Bitmap.toNulls_eq h
  setNull_eq := Bitmap.setNull_eq h

end

/-! ## however a bitmap comes about -/

open NullBitmap (Origin Faithful withNulls)

/-- The bitmap of an origin, unless there are too few bytes. -/
def make : Origin → Run ε (Option NullBitmap)
  | .present n => do return some (← allPresent n)
  | .nulls flags => do return some (← ofNulls flags)
  | .packed bs n => ofBytes? bs n

theorem make_eq (o : Origin) : (make o : Run ε _) = .ok o.bitmap? := by
  cases o with
  | present n =>
      rw [make, allPresent_eq]
      rfl
  | nulls flags =>
      rw [make, ofNulls_eq]
      rfl
  | packed bs n => exact ofBytes?_eq bs n

theorem foldlM_setNull (flags : List Bool) (items : List Nat) :
    (items.foldlM setNull (.ofNulls flags) : Run ε _) =
      .ok ((NullBitmap.ofNulls flags).setNulls items) := by
  induction items generalizing flags with
  | nil => rfl
  | cons i items ih =>
      rw [List.foldlM_cons, setNull_eq (NullBitmap.exact_ofNulls flags), ok_bind,
        NullBitmap.setNulls, List.foldl_cons, NullBitmap.setNull_ofNulls]
      exact ih _

/-- **A null bitmap is a list of flags**: however it was made, and whatever items were
marked as nulls since, it answers as its flags do.  Only with too few bytes there is no
bitmap. -/
theorem make_faithful (o : Origin) (hlen : o.len < 0x100000000) (items : List Nat) :
    (make o : Run ε _) = .ok o.bitmap? ∧ (o.bitmap? = none ↔ o.Short) ∧
      NullBitmap.allPresent o.len = .ofNulls (List.replicate o.len false) ∧
      ∀ b, o.bitmap? = some b →
        (items.foldlM setNull b : Run ε _) = .ok (b.setNulls items) ∧
        (b.setNulls items).len = o.len ∧
        (b.setNulls items).Faithful (withNulls o.flags items) ∧
        Checked ε (b.setNulls items) := by
  have hflags : (withNulls o.flags items).length = o.len :=
    (NullBitmap.length_withNulls _ _).trans o.length_flags
  refine ⟨make_eq o, ⟨fun hnone => ?_, Origin.bitmap?_of_short⟩,
    NullBitmap.allPresent_eq_ofNulls _, fun b hb => ?_⟩
  · by_cases hshort : o.Short
    · exact hshort
    · rw [Origin.bitmap?_eq hshort] at hnone
      contradiction
  · have hshort : ¬o.Short := fun hshort => by
      rw [Origin.bitmap?_of_short hshort] at hb
      contradiction
    rw [Origin.bitmap?_eq hshort] at hb
    cases hb
    refine ⟨foldlM_setNull _ _, ?_⟩
    rw [NullBitmap.setNulls_ofNulls]
    exact ⟨hflags, NullBitmap.faithful_ofNulls _,
      checked_of_exact (NullBitmap.exact_ofNulls _) (hflags ▸ hlen)⟩

/-- Bits behind the last item are given and cleared, a null item is marked again, and one
item that is marked is not covered. -/
theorem make_faithful_packed :
    let o := Origin.packed [0xff, 0xb5, 0x77] 13
    let c : NullBitmap := ⟨[0xf7, 0x15], 13⟩
    o.len < 0x100000000 ∧ (make o : Run Empty _) = .ok (some ⟨[0xff, 0x15], 13⟩) ∧
      ([3, 40, 9].foldlM setNull ⟨[0xff, 0x15], 13⟩ : Run Empty _) = .ok c ∧
      c.Faithful [false, false, false, true, false, false, false, false,
        false, true, false, true, false] ∧ Checked Empty c := by
  intro o c
  have hlen : o.len < 0x100000000 := by decide
  have hbitmap : o.bitmap? = some ⟨[0xff, 0x15], 13⟩ := by
    simp only [o]
    decide
  obtain ⟨hmake, -, -, hmade⟩ := make_faithful (ε := Empty) o hlen [3, 40, 9]
  obtain ⟨hitems, -, hfaithful, hchecked⟩ := hmade _ hbitmap
  have hc : NullBitmap.setNulls ⟨[0xff, 0x15], 13⟩ [3, 40, 9] = c := by
    simp only [c]
    decide
  rw [hc] at hitems hfaithful hchecked
  exact ⟨hlen, hbitmap ▸ hmake, hitems, hfaithful, hchecked⟩

end PackedArray.Machine.Bitmap
