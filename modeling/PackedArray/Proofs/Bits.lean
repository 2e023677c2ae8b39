import PackedArray.NullBitmap

/-!
# PackedArray.Proofs.Bits

Byte lists bit by bit, and as rows of words.

Two byte lists of one length are equal when their bits are, so what a reader
overlooks can be told by bit positions alone.

* `bitAt_append_left`, `bitAt_append_right`, `bitAt_drop`, `bitAt_set` — bits of a list
  by its segments and bytes;
* `bitAt_eq_testBit` — the bits are those of the number that the bytes stand
  for;
* `take_drop_eq_wordBytes_iff` — a segment is a row of words exactly when they
  are read there.
-/

namespace PackedArray

/-! ## bits -/

theorem bitAt_cons_of_lt (b : UInt8) (bs : List UInt8) {i : Nat} (h : i < 8) :
    bitAt (b :: bs) i = b.toNat.testBit i := by
  rw [bitAt, Nat.div_eq_of_lt h, Nat.mod_eq_of_lt h]
  rfl

theorem bitAt_cons_add (b : UInt8) (bs : List UInt8) (i : Nat) :
    bitAt (b :: bs) (8 + i) = bitAt bs i := by
  rw [bitAt, bitAt, show (8 + i) / 8 = i / 8 + 1 by omega, show (8 + i) % 8 = i % 8 by omega,
    List.getElem?_cons_succ]

theorem bitAt_append_left (xs ys : List UInt8) {i : Nat} (h : i < 8 * xs.length) :
    bitAt (xs ++ ys) i = bitAt xs i := by
  rw [bitAt, bitAt, List.getElem?_append_left (by omega)]

theorem bitAt_append_right (xs ys : List UInt8) (i : Nat) :
    bitAt (xs ++ ys) (8 * xs.length + i) = bitAt ys i := by
  rw [bitAt, bitAt, show (8 * xs.length + i) / 8 = xs.length + i / 8 by omega,
    show (8 * xs.length + i) % 8 = i % 8 by omega,
    List.getElem?_append_right (Nat.le_add_right _ _), Nat.add_sub_cancel_left]

theorem bitAt_drop (bs : List UInt8) (k i : Nat) :
    bitAt (bs.drop k) i = bitAt bs (8 * k + i) := by
  rw [bitAt, bitAt, show (8 * k + i) / 8 = k + i / 8 by omega,
    show (8 * k + i) % 8 = i % 8 by omega, List.getElem?_drop]

theorem bitAt_take {bs : List UInt8} {k i : Nat} (h : i < 8 * k) :
    bitAt (bs.take k) i = bitAt bs i := by
  rw [bitAt, bitAt, List.getElem?_take_of_lt (by omega)]

theorem bitAt_eq_of_div {bs : List UInt8} {k i : Nat} (h : i / 8 = k) (hk : k < bs.length) :
    bitAt bs i = bs[k].toNat.testBit (i % 8) := by
  subst h
  rw [bitAt, List.getElem?_eq_getElem hk]
  rfl

/-- Setting a byte changes no bit of another one. -/
theorem bitAt_set {bs : List UInt8} {k : Nat} (hk : k < bs.length) (v : UInt8) (i : Nat) :
    bitAt (bs.set k v) i = if i / 8 = k then v.toNat.testBit (i % 8) else bitAt bs i := by
  split
  · next h => rw [bitAt_eq_of_div h (by rwa [List.length_set]), List.getElem_set_self]
  · next h => rw [bitAt, bitAt, List.getElem?_set_ne (Ne.symm h)]

theorem bitAt_replicate_zero (k i : Nat) : bitAt (List.replicate k 0) i = false := by
  rw [bitAt, List.getElem?_replicate]
  split <;> simp

/-- No bit is set past the end. -/
theorem bitAt_of_le {bs : List UInt8} {i : Nat} (h : 8 * bs.length ≤ i) : bitAt bs i = false := by
  rw [bitAt, List.getElem?_eq_none_iff.mpr (by omega)]
  simp

/-- The bits of a byte list are those of the number that it stands for. -/
theorem bitAt_eq_testBit (bs : List UInt8) (i : Nat) : bitAt bs i = (leNat bs).testBit i := by
  induction bs generalizing i with
  | nil => simp [bitAt, leNat]
  | cons b bs ih =>
      have hbyte : leNat (b :: bs) = 2 ^ 8 * leNat bs + b.toNat := Nat.add_comm _ _
      rw [hbyte, Nat.testBit_two_pow_mul_add _ b.toNat_lt]
      split
      · next hlt => exact bitAt_cons_of_lt b bs hlt
      · next hge =>
          rw [← ih, ← bitAt_cons_add b bs, Nat.add_sub_cancel' (Nat.le_of_not_lt hge)]

/-- Byte lists of one length are equal when their bits are. -/
theorem eq_of_bitAt_eq {xs ys : List UInt8} (hlen : xs.length = ys.length)
    (hbits : ∀ i < 8 * xs.length, bitAt xs i = bitAt ys i) : xs = ys := by
  have hnat : leNat xs = leNat ys := by
    refine Nat.eq_of_testBit_eq fun i => ?_
    rw [← bitAt_eq_testBit, ← bitAt_eq_testBit]
    by_cases hi : i < 8 * xs.length
    · exact hbits i hi
    · rw [bitAt_of_le (by omega), bitAt_of_le (by omega)]
  rw [← leBytes_leNat xs, hnat, hlen, leBytes_leNat]

/-- Segments are equal when their bits are. -/
theorem take_drop_eq_iff {xs ys : List UInt8} (hlen : xs.length = ys.length) {pos k : Nat} :
    (xs.drop pos).take k = (ys.drop pos).take k ↔
      ∀ i, 8 * pos ≤ i → i < 8 * (pos + k) → bitAt xs i = bitAt ys i := by
  constructor
  · intro heq i hle hlt
    have hi : 8 * pos + (i - 8 * pos) = i := Nat.add_sub_cancel' hle
    have hbit := congrArg (bitAt · (i - 8 * pos)) heq
    rwa [bitAt_take (by omega), bitAt_take (by omega), bitAt_drop, bitAt_drop, hi] at hbit
  · intro hbits
    refine eq_of_bitAt_eq (by simp [hlen]) fun i hi => ?_
    have hlt : i < 8 * k := by
      rw [List.length_take] at hi
      omega
    rw [bitAt_take hlt, bitAt_take hlt, bitAt_drop, bitAt_drop]
    exact hbits _ (by omega) (by omega)

/-! ## words -/

/-- A word is the number of the four bytes at its place. -/
theorem toNat_wordAt (buf : List UInt8) (pos : Nat) :
    (wordAt buf pos).toNat = leNat ((buf.drop pos).take 4) := by
  have hlen : 8 * ((buf.drop pos).take 4).length ≤ 32 := by
    have := List.length_take_le 4 (buf.drop pos)
    omega
  refine UInt32.toNat_ofNat_of_lt' (Nat.lt_of_lt_of_le (leNat_lt _) ?_)
  rw [Nat.one_shiftLeft]
  exact Nat.pow_le_pow_right (by decide) hlen

/-- The number of the four bytes from `pos` on, the least significant first; bytes past the
end count as zero. -/
def numberAt (buf : List UInt8) (pos : Nat) : Nat :=
  (buf[pos]?.getD 0).toNat + 256 * (buf[pos + 1]?.getD 0).toNat +
    65536 * (buf[pos + 2]?.getD 0).toNat + 16777216 * (buf[pos + 3]?.getD 0).toNat

/-- The number of a segment begins with its first byte. -/
theorem leNat_take_drop_succ (buf : List UInt8) (pos k : Nat) :
    leNat ((buf.drop pos).take (k + 1)) =
      (buf[pos]?.getD 0).toNat + 256 * leNat ((buf.drop (pos + 1)).take k) := by
  by_cases h : pos < buf.length
  · rw [List.drop_eq_getElem_cons h, List.take_succ_cons, leNat, List.getElem?_eq_getElem h]
    rfl
  · have hle := Nat.le_of_not_lt h
    rw [List.drop_of_length_le hle, List.drop_of_length_le (Nat.le_succ_of_le hle),
      List.getElem?_eq_none hle]
    simp [leNat]

/-- A word in figures. -/
theorem toNat_wordAt_eq_numberAt (buf : List UInt8) (pos : Nat) :
    (wordAt buf pos).toNat = numberAt buf pos := by
  rw [toNat_wordAt, numberAt]
  simp only [leNat_take_drop_succ, List.take_zero, leNat, Nat.add_assoc, Nat.reduceAdd]
  omega

/-- The bits of a word are those at its place. -/
theorem testBit_wordAt (buf : List UInt8) (pos : Nat) {i : Nat} (h : i < 32) :
    (wordAt buf pos).toNat.testBit i = bitAt buf (8 * pos + i) := by
  rw [toNat_wordAt, ← bitAt_eq_testBit, bitAt_take h, bitAt_drop]

/-- The bytes of words, one after the other. -/
def wordBytes (ws : List UInt32) : List UInt8 := ws.flatMap fun w => leBytes 4 w.toNat

@[simp] theorem length_wordBytes (ws : List UInt32) : (wordBytes ws).length = 4 * ws.length := by
  induction ws with
  | nil => rfl
  | cons w ws ih =>
      unfold wordBytes at ih ⊢
      rw [List.flatMap_cons, List.length_append, ih, length_leBytes, List.length_cons]
      omega

/-- A word is read where its bytes are. -/
theorem take_drop_eq_leBytes_iff {buf : List UInt8} {pos : Nat} {w : UInt32}
    (h : pos + 4 ≤ buf.length) :
    (buf.drop pos).take 4 = leBytes 4 w.toNat ↔ wordAt buf pos = w := by
  have hlen : ((buf.drop pos).take 4).length = 4 := by
    rw [List.length_take, List.length_drop]
    omega
  constructor
  · intro hbytes
    rw [wordAt, hbytes, leNat_leBytes_of_lt w.toNat_lt, UInt32.ofNat_toNat]
  · rintro rfl
    have hback := leBytes_leNat ((buf.drop pos).take 4)
    rw [hlen] at hback
    rw [toNat_wordAt, hback]

/-- The words are read one after the other from byte `pos` on. -/
def WordsAt (buf : List UInt8) (pos : Nat) : List UInt32 → Prop
  | [] => True
  | w :: ws => wordAt buf pos = w ∧ WordsAt buf (pos + 4) ws

theorem wordsAt_append {buf : List UInt8} {pos : Nat} {xs ys : List UInt32} :
    WordsAt buf pos (xs ++ ys) ↔ WordsAt buf pos xs ∧ WordsAt buf (pos + 4 * xs.length) ys := by
  induction xs generalizing pos with
  | nil => simp [WordsAt]
  | cons x xs ih =>
      rw [List.cons_append, WordsAt, WordsAt, ih, and_assoc, List.length_cons,
        show pos + 4 + 4 * xs.length = pos + 4 * (xs.length + 1) by omega]

/-- A segment is a row of words exactly when they are read there. -/
theorem take_drop_eq_wordBytes_iff {buf : List UInt8} {pos : Nat} {ws : List UInt32}
    (h : pos + 4 * ws.length ≤ buf.length) :
    (buf.drop pos).take (4 * ws.length) = wordBytes ws ↔ WordsAt buf pos ws := by
  induction ws generalizing pos with
  | nil => simp [wordBytes, WordsAt]
  | cons w ws ih =>
      rw [List.length_cons] at h
      have hsplit : (buf.drop pos).take (4 * (w :: ws).length) =
          (buf.drop pos).take 4 ++ (buf.drop (pos + 4)).take (4 * ws.length) := by
        rw [List.length_cons, Nat.mul_succ, Nat.add_comm _ 4, List.take_add, List.drop_drop]
      have hcons : wordBytes (w :: ws) = leBytes 4 w.toNat ++ wordBytes ws := rfl
      have hlen : ((buf.drop pos).take 4).length = (leBytes 4 w.toNat).length := by
        rw [List.length_take, List.length_drop, length_leBytes]
        omega
      rw [hsplit, hcons, WordsAt, ← take_drop_eq_leBytes_iff (by omega), ← ih (by omega)]
      constructor
      · intro hbytes
        exact List.append_inj hbytes hlen
      · rintro ⟨hhead, htail⟩
        rw [hhead, htail]

end PackedArray
