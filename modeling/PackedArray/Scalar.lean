import PackedArray.Bytes
import PackedArray.Tag
import PackedArray.Float.Double

/-!
# PackedArray.Scalar

The scalar value that goes in and out of arrays.  A scalar says only where
its bytes live — inside a 64-bit word or in a block of their own — and what
they mean comes from a tag given beside it.

Every reading goes through `Scalar.lead`, the first bytes of the scalar padded
with zeros, so a word and a block with the same bytes read the same.

Making a scalar fixes its storage form.  As in the default build, `Scalar.ofInt` of eight
bytes, `Scalar.ofSingle` and `Scalar.ofDouble` give blocks; the builds in which they give
words are left out.

* `length_lead` — a reading always has the width asked for;
* `leNat_lead_word`, `leNat_lead_ref` — a reading stands for the number of the scalar modulo
  its width;
* `Scalar.asDouble_ofDouble`, `Scalar.asSingle_ofSingle` — the bits of a float
  survive;
* `Scalar.asInt_ofInt` — an integer that its width holds survives.
-/

namespace PackedArray

/-- A scalar whose element type is supplied beside it. -/
inductive Scalar
  /-- The value lies in the low bytes of a word. -/
  | word (value : UInt64)
  /-- The value is a block of bytes. -/
  | ref (bytes : List UInt8)
  deriving DecidableEq, Repr

namespace Scalar

/-- The inline zero, which also fills the place of a null. -/
def zero : Scalar := word 0

instance : Inhabited Scalar := ⟨zero⟩

/-- Whether the value is a block of its own. -/
def isRef : Scalar → Bool
  | word _ => false
  | ref _ => true

/-- All bytes of the scalar: the eight bytes of a word, or the block. -/
def image : Scalar → List UInt8
  | word w => leBytes 8 w.toNat
  | ref bs => bs

/-- The first `n` bytes of the scalar, zero-padded. -/
def lead (n : Nat) (x : Scalar) : List UInt8 := fit n x.image

@[simp] theorem length_lead (n : Nat) (x : Scalar) : (x.lead n).length = n :=
  length_fit n _

/-- A word leads with its low bytes. -/
theorem lead_word {n : Nat} (h : n ≤ 8) (w : UInt64) : (word w).lead n = leBytes n w.toNat := by
  rw [lead, image, fit_eq_take (by rwa [length_leBytes]), take_leBytes h]

/-- The first bytes of a word stand for the word modulo the width. -/
theorem leNat_lead_word (n : Nat) (w : UInt64) :
    leNat ((word w).lead n) = w.toNat % 1 <<< (8 * n) := by
  rw [lead, image, leNat_fit, leNat_leBytes_of_lt w.toNat_lt]

/-- The first bytes of a block stand for its number modulo the width. -/
theorem leNat_lead_ref (n : Nat) (bs : List UInt8) :
    leNat ((ref bs).lead n) = leNat bs % 1 <<< (8 * n) := leNat_fit n bs

/-- The widths that a word can stand for. -/
def wordWidths : List Nat := [1, 2, 4, 8]

/-- The `n`-byte representation of the value; only the widths of a word have
one. -/
def fixedBytes (n : Nat) (x : Scalar) : Option (List UInt8) :=
  if n ∈ wordWidths then some (x.lead n) else none

/-! ## making scalars -/

def ofBool (b : Bool) : Scalar := word (if b then 1 else 0)

/-- An integer modulo its width.  Two and four bytes lie in the word, eight
bytes are a block. -/
def ofInt (w : IntWidth) (v : Int) : Scalar :=
  let n := (v % w.modulus).toNat
  match w with
  | .two | .four => word (UInt64.ofNat n)
  | .eight => ref (leBytes 8 n)

def ofTag (t : Tag) : Scalar := word t.code.toUInt64

def ofSingle (x : Single) : Scalar := ref (leBytes 4 x.bits.toNat)

def ofDouble (x : Double) : Scalar := ref (leBytes 8 x.bits.toNat)

def ofText (s : String) : Scalar := ref s.toUTF8.toList

/-! ## reading scalars -/

def asBool (x : Scalar) : Bool := leNat (x.lead 1) ≠ 0

/-- The signed integer in the first bytes. -/
def asInt (w : IntWidth) (x : Scalar) : Int :=
  (leNat (x.lead w.bytes) : Int).bmod w.modulus

def asSingle (x : Scalar) : Single := ⟨UInt32.ofNat (leNat (x.lead 4))⟩

def asDouble (x : Scalar) : Double := ⟨UInt64.ofNat (leNat (x.lead 8))⟩

def asTag (x : Scalar) : Tag := ⟨UInt32.ofNat (leNat (x.lead 4))⟩

/-- The block, if the value is one. -/
def asBytes? : Scalar → Option (List UInt8)
  | word _ => none
  | ref bs => some bs

/-- The block as text, if it is well-formed UTF-8. -/
def asText? (x : Scalar) : Option String :=
  x.asBytes?.bind fun bs => String.fromUTF8? ⟨bs.toArray⟩

/-! ## round trips -/

theorem asSingle_ofSingle (x : Single) : (ofSingle x).asSingle = x := by
  have h : leNat (leBytes 4 x.bits.toNat) = x.bits.toNat :=
    leNat_leBytes_of_lt (by have := x.bits.toNat_lt; simpa using this)
  simp [asSingle, ofSingle, lead, image, fit_eq_self, h]

theorem asDouble_ofDouble (x : Double) : (ofDouble x).asDouble = x := by
  have h : leNat (leBytes 8 x.bits.toNat) = x.bits.toNat :=
    leNat_leBytes_of_lt (by have := x.bits.toNat_lt; simpa using this)
  simp [asDouble, ofDouble, lead, image, fit_eq_self, h]

/-- An integer that its width holds survives. -/
theorem asInt_ofInt {w : IntWidth} {v : Int} (h : w.Holds v) : (ofInt w v).asInt w = v := by
  have hlead : leNat ((ofInt w v).lead w.bytes) = (v % w.modulus).toNat := by
    cases w with
    | two =>
      rw [ofInt, leNat_lead_word, IntWidth.bytes]
      simp only [IntWidth.modulus_two, UInt64.toNat_ofNat', Nat.reduceMul, Nat.reduceShiftLeft]
      omega
    | four =>
      rw [ofInt, leNat_lead_word, IntWidth.bytes]
      simp only [IntWidth.modulus_four, UInt64.toNat_ofNat', Nat.reduceMul, Nat.reduceShiftLeft]
      omega
    | eight =>
      rw [ofInt, leNat_lead_ref, leNat_leBytes, IntWidth.bytes]
      simp only [IntWidth.modulus_eight, Nat.reduceMul, Nat.reduceShiftLeft]
      omega
  rw [asInt, hlead]
  simp only [IntWidth.Holds, IntWidth.bound] at h
  cases w <;>
    simp only [IntWidth.modulus_two, IntWidth.modulus_four, IntWidth.modulus_eight, Int.bmod]
      at h ⊢ <;> omega

end Scalar

end PackedArray
