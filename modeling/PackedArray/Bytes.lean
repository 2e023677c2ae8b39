/-!
# PackedArray.Bytes

Byte-list plumbing shared by every layout in this library: little-endian
words, zero-padding to a width, fronts and in-place overwrites.

* `leNat_leBytes`, `leBytes_leNat` — words and their bytes determine each
  other;
* `length_fit`, `fit_eq_self`, `leNat_fit` — fitting always gives the asked width,
  leaves a list of that width alone, and cuts the number that a list stands for;
* `front?_eq_some_iff`, `front?_append` — a front exists exactly when the list
  is long enough, and does not see what follows it;
* `length_overwrite`, `take_overwrite`, `getElem?_overwrite` — overwriting inside a
  list keeps its length and all other bytes;
* `overwrite_set` — a list can be overwritten byte by byte.
-/

namespace PackedArray

/-! ## little-endian words -/

/-- The low `8 * w` bits of `n` as `w` bytes, least significant first. -/
def leBytes : Nat → Nat → List UInt8
  | 0, _ => []
  | w + 1, n => UInt8.ofNat n :: leBytes w (n / 256)

/-- The number whose bytes are listed least significant first. -/
def leNat : List UInt8 → Nat
  | [] => 0
  | b :: bs => b.toNat + 256 * leNat bs

@[simp] theorem length_leBytes (w n : Nat) : (leBytes w n).length = w := by
  induction w generalizing n with
  | zero => rfl
  | succ w ih => simp [leBytes, ih]

/-- One byte more takes numbers 256 times as great. -/
theorem shiftLeft_byte (w : Nat) : 1 <<< (8 * (w + 1)) = 256 * 1 <<< (8 * w) := by
  rw [Nat.one_shiftLeft, Nat.one_shiftLeft, Nat.mul_succ, Nat.pow_add, Nat.mul_comm]

/-- Reading back the bytes of a number gives the number modulo the width. -/
theorem leNat_leBytes (w n : Nat) : leNat (leBytes w n) = n % 1 <<< (8 * w) := by
  induction w generalizing n with
  | zero => simp [leBytes, leNat, Nat.mod_one]
  | succ w ih =>
    simp only [leBytes, leNat, ih, UInt8.toNat_ofNat', Nat.reducePow]
    rw [shiftLeft_byte, Nat.mod_mul]

/-- A number below the width survives the trip through its bytes. -/
theorem leNat_leBytes_of_lt {w n : Nat} (h : n < 1 <<< (8 * w)) : leNat (leBytes w n) = n := by
  rw [leNat_leBytes, Nat.mod_eq_of_lt h]

/-- A list of `w` bytes stands for a number below `1 <<< (8 * w)`. -/
theorem leNat_lt (bs : List UInt8) : leNat bs < 1 <<< (8 * bs.length) := by
  induction bs with
  | nil => simp [leNat]
  | cons b bs ih =>
    have hb := b.toNat_lt
    rw [leNat, List.length_cons, shiftLeft_byte]
    omega

/-- Writing the number that a byte list stands for gives the list back. -/
theorem leBytes_leNat (bs : List UInt8) : leBytes bs.length (leNat bs) = bs := by
  induction bs with
  | nil => rfl
  | cons b bs ih =>
    have hb := b.toNat_lt
    have hdiv : (b.toNat + 256 * leNat bs) / 256 = leNat bs := by omega
    simp only [leNat, List.length_cons, leBytes, hdiv, ih, List.cons.injEq, and_true]
    apply UInt8.toNat_inj.mp
    simp only [UInt8.toNat_ofNat', Nat.reducePow]
    omega

/-- The first bytes of a word are the bytes of a narrower word. -/
theorem take_leBytes {k w : Nat} (h : k ≤ w) (n : Nat) : (leBytes w n).take k = leBytes k n := by
  induction k generalizing w n with
  | zero => simp [leBytes]
  | succ k ih =>
    match w, h with
    | w + 1, h => simp [leBytes, ih (by omega : k ≤ w)]

/-! ## fitting to a width -/

/-- Exactly `n` bytes: the first `n` of `bs`, zero-padded at the end. -/
def fit (n : Nat) (bs : List UInt8) : List UInt8 :=
  bs.take n ++ List.replicate (n - bs.length) 0

@[simp] theorem length_fit (n : Nat) (bs : List UInt8) : (fit n bs).length = n := by
  simp [fit]; omega

/-- A list that is long enough is cut. -/
theorem fit_eq_take {n : Nat} {bs : List UInt8} (h : n ≤ bs.length) : fit n bs = bs.take n := by
  simp [fit, Nat.sub_eq_zero_of_le h]

/-- A list that already has the width is left alone. -/
theorem fit_eq_self {n : Nat} {bs : List UInt8} (h : bs.length = n) : fit n bs = bs := by
  simp [fit, ← h]

/-- Fitting cuts the number that a list stands for to the width. -/
theorem leNat_fit (n : Nat) (bs : List UInt8) : leNat (fit n bs) = leNat bs % 1 <<< (8 * n) := by
  induction n generalizing bs with
  | zero => simp [fit, leNat, Nat.mod_one]
  | succ n ih =>
    rw [shiftLeft_byte, Nat.mod_mul]
    cases bs with
    | nil =>
      have hfit : fit (n + 1) [] = 0 :: fit n [] := by simp [fit, List.replicate_succ]
      rw [hfit]
      simp [leNat, ih]
    | cons b bs =>
      have hfit : fit (n + 1) (b :: bs) = b :: fit n bs := by simp [fit]
      have hb := b.toNat_lt
      have hlow : (b.toNat + 256 * leNat bs) % 256 = b.toNat := by omega
      have hhigh : (b.toNat + 256 * leNat bs) / 256 = leNat bs := by omega
      rw [hfit]
      simp only [leNat, ih, hlow, hhigh]

/-! ## fronts and overwrites -/

/-- The first `n` bytes, if there are that many.  Only those bytes are walked,
however long the list is. -/
def front? (n : Nat) (bs : List UInt8) : Option (List UInt8) :=
  let s := bs.take n
  if s.length = n then some s else none

/-- A front exists exactly when the list is long enough. -/
theorem front?_eq_some_iff {n : Nat} {bs s : List UInt8} :
    front? n bs = some s ↔ n ≤ bs.length ∧ bs.take n = s := by
  unfold front?; grind

theorem front?_eq_none_iff {n : Nat} {bs : List UInt8} : front? n bs = none ↔ bs.length < n := by
  unfold front?; grind

/-- A front does not see what follows it. -/
@[simp] theorem front?_append (bs rest : List UInt8) :
    front? bs.length (bs ++ rest) = some bs := by
  rw [front?_eq_some_iff]; simp

/-- A front is cut off the list. -/
theorem exists_append_of_front? {n : Nat} {bs s : List UInt8} (h : front? n bs = some s) :
    ∃ rest, bs = s ++ rest ∧ s.length = n := by
  obtain ⟨hle, rfl⟩ := front?_eq_some_iff.mp h
  exact ⟨bs.drop n, (List.take_append_drop n bs).symm, List.length_take_of_le hle⟩

/-- The little-endian 32-bit word at byte `pos`; bytes past the end count
as zero. -/
def wordAt (bs : List UInt8) (pos : Nat) : UInt32 :=
  UInt32.ofNat (leNat ((bs.drop pos).take 4))

/-- Replace the bytes of `bs` from `pos` on by `new`. -/
def overwrite (bs : List UInt8) (pos : Nat) (new : List UInt8) : List UInt8 :=
  bs.take pos ++ new ++ bs.drop (pos + new.length)

/-- Overwriting inside a list keeps its length. -/
theorem length_overwrite {bs : List UInt8} {pos : Nat} {new : List UInt8}
    (h : pos + new.length ≤ bs.length) : (overwrite bs pos new).length = bs.length := by
  simp [overwrite]; omega

/-- What is overwritten stands behind what was there. -/
theorem take_overwrite {bs : List UInt8} {pos : Nat} (h : pos ≤ bs.length) (new : List UInt8) :
    (overwrite bs pos new).take (pos + new.length) = bs.take pos ++ new := by
  refine List.take_left' ?_
  rw [List.length_append, List.length_take_of_le h]

/-- Overwriting behind a byte that was just set is overwriting from that byte on. -/
theorem overwrite_set {bs : List UInt8} {pos : Nat} (h : pos < bs.length) (v : UInt8)
    (new : List UInt8) :
    overwrite (bs.set pos v) (pos + 1) new = overwrite bs pos (v :: new) := by
  have htake : (bs.set pos v).take (pos + 1) = bs.take pos ++ [v] := by
    rw [List.take_succ_eq_append_getElem (by rwa [List.length_set]), List.getElem_set_self,
      List.take_set_of_le (Nat.le_refl _)]
  rw [overwrite, overwrite, htake, List.drop_set_of_lt (by omega), List.length_cons,
    List.append_assoc (bs.take pos), List.singleton_append, Nat.add_right_comm, Nat.add_assoc]

/-- Overwriting changes no other bytes. -/
theorem getElem?_overwrite {bs : List UInt8} {pos i : Nat} {new : List UInt8}
    (h : pos ≤ bs.length) (hi : i < pos ∨ pos + new.length ≤ i) :
    (overwrite bs pos new)[i]? = bs[i]? := by
  have hlen : (bs.take pos ++ new).length = pos + new.length := by
    rw [List.length_append, List.length_take_of_le h]
  unfold overwrite
  obtain hlt | hge := hi
  · rw [List.append_assoc, List.getElem?_append_left (by rwa [List.length_take_of_le h]),
      List.getElem?_take_of_lt hlt]
  · rw [List.getElem?_append_right (by rwa [hlen]), hlen, List.getElem?_drop,
      Nat.add_sub_cancel' hge]

end PackedArray
