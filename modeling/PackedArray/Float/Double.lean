import PackedArray.Float.Format

/-!
# PackedArray.Float.Double

Double- and single-precision numbers as bit patterns, with exact arithmetic
on the numbers that they stand for and one rounding to nearest at the end.

Keeping the bits apart from the machine's own floating-point type keeps every
not-a-number pattern as it was given, and leaves every operation open to
proof.  A not-a-number operand passes through an operation with its quiet bit
set, the first operand first; an operation without a result gives
`Double.indeterminate`.

* `Double.ofInt`, `Double.roundEven?` — whole numbers in and out;
* `Double.add`, `mul`, `div`, `sqrt` — arithmetic, rounded once;
* `Double.toSingle`, `Single.toDouble` — narrowing and widening.
-/

namespace PackedArray

/-- A double-precision number, as its bits. -/
structure Double where
  bits : UInt64
  deriving DecidableEq, Repr, Inhabited

/-- A single-precision number, as its bits. -/
structure Single where
  bits : UInt32
  deriving DecidableEq, Repr, Inhabited

/-! ## single precision -/

namespace Single

/-- The bits without the sign. -/
def code (x : Single) : Nat := x.bits.toNat % 0x80000000

def isNegative (x : Single) : Bool := 0x80000000 ≤ x.bits.toNat

def isNaN (x : Single) : Bool := binary32.infinity < x.code

def isInfinite (x : Single) : Bool := x.code == binary32.infinity

/-- The number with this sign and this code. -/
def ofCode (negative : Bool) (code : Nat) : Single :=
  ⟨UInt32.ofNat (code + if negative then 0x80000000 else 0)⟩

end Single

/-! ## double precision -/

namespace Double

/-- The bits without the sign. -/
def code (x : Double) : Nat := x.bits.toNat % 0x8000000000000000

def isNegative (x : Double) : Bool := 0x8000000000000000 ≤ x.bits.toNat

def isNaN (x : Double) : Bool := binary64.infinity < x.code

def isInfinite (x : Double) : Bool := x.code == binary64.infinity

/-- Whether the number is zero, of either sign. -/
def isZero (x : Double) : Bool := x.code == 0

/-- The number with this sign and this code. -/
def ofCode (negative : Bool) (code : Nat) : Double :=
  ⟨UInt64.ofNat (code + if negative then 0x8000000000000000 else 0)⟩

def zero : Double := ofCode false 0

/-- The result of an operation that has none. -/
def indeterminate : Double := ofCode true (binary64.infinity + binary64.quietBit)

/-- The same not-a-number, marked quiet. -/
def quiet (x : Double) : Double :=
  ofCode x.isNegative (x.code ||| binary64.quietBit)

/-- Steps of the magnitude of a finite number. -/
def steps (x : Double) : Nat := binary64.steps x.code

/-- Steps of a finite number, with its sign. -/
def signedSteps (x : Double) : Int := if x.isNegative then -x.steps else x.steps

/-- The number nearest to `num / den` steps, with the given sign. -/
def nearest (negative : Bool) (num den : Nat) : Double :=
  ofCode negative (binary64.nearest num den)

/-! ### whole numbers -/

/-- The number nearest to a whole number. -/
def ofInt (n : Int) : Double := nearest (n < 0) (n.natAbs * binary64.unit) 1

/-- The nearest whole number, a half going to the even one; none for
infinities and not-a-numbers. -/
def roundEven? (x : Double) : Option Int :=
  if x.isNaN || x.isInfinite then none
  else
    let magnitude : Int := divHalfEven x.steps binary64.unit
    some (if x.isNegative then -magnitude else magnitude)

/-! ### arithmetic -/

def add (x y : Double) : Double :=
  if x.isNaN then x.quiet
  else if y.isNaN then y.quiet
  else if x.isInfinite then
    if y.isInfinite && x.isNegative != y.isNegative then indeterminate else x
  else if y.isInfinite then y
  else
    let sum := x.signedSteps + y.signedSteps
    if sum = 0 then ofCode (x.isNegative && y.isNegative) 0
    else nearest (sum < 0) sum.natAbs 1

def mul (x y : Double) : Double :=
  let negative := x.isNegative != y.isNegative
  if x.isNaN then x.quiet
  else if y.isNaN then y.quiet
  else if x.isInfinite || y.isInfinite then
    if x.isZero || y.isZero then indeterminate else ofCode negative binary64.infinity
  else nearest negative (x.steps * y.steps) binary64.unit

def div (x y : Double) : Double :=
  let negative := x.isNegative != y.isNegative
  if x.isNaN then x.quiet
  else if y.isNaN then y.quiet
  else if x.isInfinite then
    if y.isInfinite then indeterminate else ofCode negative binary64.infinity
  else if y.isInfinite then ofCode negative 0
  else if y.isZero then
    if x.isZero then indeterminate else ofCode negative binary64.infinity
  else nearest negative (x.steps * binary64.unit) y.steps

/-- The square root.  The whole root has far more digits than the format, so
one further bit that tells whether it is exact is enough to round by. -/
def sqrt (x : Double) : Double :=
  if x.isNaN then x.quiet
  else if x.isZero then x
  else if x.isNegative then indeterminate
  else if x.isInfinite then x
  else
    let square := x.steps * binary64.unit
    let root := isqrt square
    nearest false (2 * root + if root * root = square then 0 else 1) 2

/-! ### other precisions -/

/-- Steps of double precision in one step of single precision. -/
def stepsPerSingle : Nat := binary64.unit / binary32.unit

/-- The nearest single-precision number. -/
def toSingle (x : Double) : Single :=
  if x.isNaN then
    let shift := binary64.binade / binary32.binade
    Single.ofCode x.isNegative
      (binary32.infinity + (x.quiet.code - binary64.infinity) / shift)
  else if x.isInfinite then Single.ofCode x.isNegative binary32.infinity
  else Single.ofCode x.isNegative (binary32.nearest x.steps stepsPerSingle)

end Double

/-- The same number in double precision. -/
def Single.toDouble (x : Single) : Double :=
  if x.isNaN then
    let shift := binary64.binade / binary32.binade
    (Double.ofCode x.isNegative
      (binary64.infinity + (x.code - binary32.infinity) * shift)).quiet
  else if x.isInfinite then Double.ofCode x.isNegative binary64.infinity
  else Double.nearest x.isNegative (binary32.steps x.code * Double.stepsPerSingle) 1

end PackedArray
