/-!
# PackedArray.Float.Format

Binary floating-point formats, and rounding an exact quotient to the nearest
number of a format.

A finite magnitude is a whole number of *steps*, the step being the least
positive number of the format.  `FloatFormat.steps` counts the steps of a
bit pattern without its sign (its *code*), and `FloatFormat.nearest` gives
the code that is nearest to a quotient of steps.  Codes grow with the
numbers that they stand for, so a rounding that carries into the next binade
needs no case of its own.

* `divHalfEven_mul` — an exact quotient is not changed by rounding;
* `divHalfEven_bounds` — a rounded quotient is within half a unit.
-/

namespace PackedArray

/-! ## whole-number rounding -/

/-- `num / den` rounded to the nearest whole number, a half to the even
neighbour. -/
def divHalfEven (num den : Nat) : Nat :=
  let q := num / den
  let r := num % den
  if 2 * r < den then q
  else if den < 2 * r then q + 1
  else q + q % 2

/-- An exact quotient is not changed by rounding. -/
theorem divHalfEven_mul {den : Nat} (h : 0 < den) (q : Nat) : divHalfEven (q * den) den = q := by
  simp [divHalfEven, Nat.mul_div_cancel _ h, h]

/-- Rounding moves a quotient by at most half a unit. -/
theorem divHalfEven_bounds {den : Nat} (h : 0 < den) (num : Nat) :
    2 * num ≤ (2 * divHalfEven num den + 1) * den ∧
      2 * (divHalfEven num den * den) ≤ 2 * num + den := by
  have hdiv := Nat.div_add_mod num den
  have hlt := Nat.mod_lt num h
  have hcomm : den * (num / den) = num / den * den := Nat.mul_comm _ _
  have hq : num / den % 2 = 0 ∨ num / den % 2 = 1 := by omega
  simp only [divHalfEven]
  split
  · grind
  · split
    · grind
    · rcases hq with hq | hq <;> rw [hq] <;> grind

/-- The whole part of the square root. -/
def isqrt (n : Nat) : Nat :=
  if n = 0 then 0
  else
    let r := 2 * isqrt (n / 4)
    if (r + 1) * (r + 1) ≤ n then r + 1 else r
termination_by n

/-! ## formats -/

/-- A binary interchange format: how many bits store the fraction and the
exponent. -/
structure FloatFormat where
  fractionBits : Nat
  exponentBits : Nat

def binary32 : FloatFormat := ⟨23, 8⟩

def binary64 : FloatFormat := ⟨52, 11⟩

namespace FloatFormat

/-- Codes with the same exponent field, which is also the number of steps of
the least normal number. -/
def binade (f : FloatFormat) : Nat := 1 <<< f.fractionBits

/-- The code of infinity.  Smaller codes are finite, greater ones are not
numbers. -/
def infinity (f : FloatFormat) : Nat := ((1 <<< f.exponentBits) - 1) * f.binade

/-- The bit that marks a quiet not-a-number. -/
def quietBit (f : FloatFormat) : Nat := f.binade / 2

/-- Steps in the number one. -/
def unit (f : FloatFormat) : Nat := 1 <<< ((1 <<< (f.exponentBits - 1)) - 2 + f.fractionBits)

/-- The number of steps that a finite code stands for. -/
def steps (f : FloatFormat) (code : Nat) : Nat :=
  let exponent := code / f.binade
  let fraction := code % f.binade
  if exponent = 0 then fraction else (f.binade + fraction) <<< (exponent - 1)

/-- The code nearest to `num / den` steps, a half going to the even code; a
quotient past the greatest finite number gives infinity. -/
def nearest (f : FloatFormat) (num den : Nat) : Nat :=
  let shift := (num / den).log2 - f.fractionBits
  min (shift * f.binade + divHalfEven num (den <<< shift)) f.infinity

end FloatFormat

end PackedArray
