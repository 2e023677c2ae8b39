import PackedArray.Shape

/-!
# PackedArray.NullBitmap

One presence bit per item, least significant bit first within each byte.  A
set bit means that the item is present, a clear bit that it is null.  Bits
past the last item are clear.

Every bitmap is tabulated from a presence test, so one lemma tells what any
bitmap answers:

* `NullBitmap.isPresent_tabulate` — item `i` of a tabulated bitmap is present
  exactly when it is covered and the test says so;
* `NullBitmap.length_bytes_tabulate` — a bitmap over `n` items has
  `bitmapSize n` bytes;
* `NullBitmap.isNull_ofNulls`, `NullBitmap.isPresent_setNull` — flags come
  back as they went in, and marking an item null changes no other.
-/

namespace PackedArray

/-! ## bits of bytes -/

/-- The number whose bits are listed least significant first. -/
def packBits : List Bool → Nat
  | [] => 0
  | b :: bs => b.toNat + 2 * packBits bs

theorem packBits_lt (bs : List Bool) : packBits bs < 1 <<< bs.length := by
  induction bs with
  | nil => simp [packBits]
  | cons b bs ih =>
    have hb : b.toNat ≤ 1 := by cases b <;> decide
    simp only [packBits, List.length_cons]
    omega

theorem testBit_packBits (bs : List Bool) (k : Nat) :
    (packBits bs).testBit k = bs[k]?.getD false := by
  induction bs generalizing k with
  | nil => simp [packBits]
  | cons b bs ih =>
    cases k with
    | zero => cases b <;> simp [packBits, Nat.testBit_zero]
    | succ k =>
      have hdiv : (b.toNat + 2 * packBits bs) / 2 = packBits bs := by
        have hb : b.toNat ≤ 1 := by cases b <;> decide
        omega
      rw [packBits, Nat.testBit_succ, hdiv, ih]
      rfl

/-- Bit `i` of a byte list; bits past the end are clear. -/
def bitAt (bs : List UInt8) (i : Nat) : Bool := (bs[i / 8]?.getD 0).toNat.testBit (i % 8)

/-- The set bits of a byte. -/
def bitCount (b : UInt8) : Nat := (List.range 8).countP fun k => b.toNat.testBit k

/-! ## bitmaps -/

/-- Presence bits over `len` items. -/
structure NullBitmap where
  bytes : List UInt8
  len : Nat
  deriving DecidableEq, Repr

namespace NullBitmap

/-- The bitmap over `n` items whose item `i` is present when `present i`. -/
def tabulate (n : Nat) (present : Nat → Bool) : NullBitmap where
  bytes := (List.range (bitmapSize n)).map fun j =>
    UInt8.ofNat (packBits ((List.range 8).map fun k =>
      decide (8 * j + k < n) && present (8 * j + k)))
  len := n

/-- Every item is present. -/
def allPresent (n : Nat) : NullBitmap := tabulate n fun _ => true

/-- Items are null where the flag is set. -/
def ofNulls (nulls : List Bool) : NullBitmap :=
  tabulate nulls.length fun i => !(nulls[i]?.getD true)

/-- The bitmap over `n` items in these bytes, if there are enough of them.
Further bytes and bits past the last item do not count. -/
def ofBytes? (bs : List UInt8) (n : Nat) : Option NullBitmap :=
  if bitmapSize n ≤ bs.length then some (tabulate n (bitAt bs)) else none

/-- Whether item `i` is present; an item that is not covered is not. -/
def isPresent (b : NullBitmap) (i : Nat) : Bool := decide (i < b.len) && bitAt b.bytes i

def isNull (b : NullBitmap) (i : Nat) : Bool := !b.isPresent i

/-- Mark item `i` null; an item that is not covered is ignored. -/
def setNull (b : NullBitmap) (i : Nat) : NullBitmap :=
  if i < b.len then tabulate b.len fun j => b.isPresent j && j != i else b

/-- The number of present items. -/
def countPresent (b : NullBitmap) : Nat := b.bytes.foldr (fun byte n => bitCount byte + n) 0

/-- The number of null items. -/
def countNulls (b : NullBitmap) : Nat := b.len - b.countPresent

/-- One flag per item, set for a null. -/
def toNulls (b : NullBitmap) : List Bool := (List.range b.len).map b.isNull

/-! ## what a bitmap answers -/

@[simp] theorem len_tabulate (n : Nat) (p : Nat → Bool) : (tabulate n p).len = n := rfl

@[simp] theorem length_bytes_tabulate (n : Nat) (p : Nat → Bool) :
    (tabulate n p).bytes.length = bitmapSize n := by
  simp [tabulate]

theorem bitAt_tabulate (n : Nat) (p : Nat → Bool) (i : Nat) :
    bitAt (tabulate n p).bytes i = (decide (i < n) && p i) := by
  have hi : 8 * (i / 8) + i % 8 = i := by omega
  have hmod : i % 8 < 8 := Nat.mod_lt _ (by decide)
  by_cases hj : i / 8 < bitmapSize n
  · have hlt := packBits_lt ((List.range 8).map fun k =>
      decide (8 * (i / 8) + k < n) && p (8 * (i / 8) + k))
    simp only [List.length_map, List.length_range, Nat.reduceShiftLeft] at hlt
    simp only [bitAt, tabulate, List.getElem?_map, List.getElem?_range hj, Option.map_some,
      Option.getD_some, UInt8.toNat_ofNat', Nat.reducePow]
    rw [Nat.mod_eq_of_lt hlt, testBit_packBits]
    simp [List.getElem?_range hmod, hi]
  · have hout : ¬ i < n := by simp only [bitmapSize] at hj; omega
    have hnone : (tabulate n p).bytes[i / 8]? = none := by
      rw [List.getElem?_eq_none_iff, length_bytes_tabulate]; omega
    simp [bitAt, hnone, hout]

/-- Item `i` of a tabulated bitmap is present exactly when it is covered and
the test says so. -/
@[simp] theorem isPresent_tabulate (n : Nat) (p : Nat → Bool) (i : Nat) :
    (tabulate n p).isPresent i = (decide (i < n) && p i) := by
  by_cases h : i < n <;> simp [isPresent, bitAt_tabulate, h]

@[simp] theorem isPresent_allPresent (n i : Nat) : (allPresent n).isPresent i = decide (i < n) := by
  simp [allPresent]

/-- Flags come back as they went in. -/
theorem isNull_ofNulls {nulls : List Bool} {i : Nat} (h : i < nulls.length) :
    (ofNulls nulls).isNull i = nulls[i] := by
  simp [isNull, ofNulls, h]

@[simp] theorem len_setNull (b : NullBitmap) (i : Nat) : (b.setNull i).len = b.len := by
  rw [setNull]; split <;> rfl

/-- Marking an item null leaves every other item as it was. -/
theorem isPresent_setNull (b : NullBitmap) (i j : Nat) :
    (b.setNull i).isPresent j = (b.isPresent j && j != i) := by
  rw [setNull]
  split
  · have hcovered : (decide (j < b.len) && b.isPresent j) = b.isPresent j := by
      simp only [isPresent]
      cases decide (j < b.len) <;> rfl
    rw [isPresent_tabulate, ← Bool.and_assoc, hcovered]
  · rename_i hi
    by_cases hj : j < b.len
    · have hne : j ≠ i := by omega
      simp [hne]
    · simp [isPresent, hj]

@[simp] theorem length_toNulls (b : NullBitmap) : b.toNulls.length = b.len := by
  simp [toNulls]

/-- Only the answers on covered items matter. -/
theorem tabulate_congr {n : Nat} {p q : Nat → Bool} (h : ∀ i < n, p i = q i) :
    tabulate n p = tabulate n q := by
  have hpq : (fun i => decide (i < n) && p i) = fun i => decide (i < n) && q i := by
    funext i; by_cases hi : i < n <;> simp [hi, h]
  have hbyte : ∀ j k, (decide (8 * j + k < n) && p (8 * j + k)) =
      (decide (8 * j + k < n) && q (8 * j + k)) := fun j k => congrFun hpq (8 * j + k)
  simp only [tabulate, hbyte]

end NullBitmap

end PackedArray
