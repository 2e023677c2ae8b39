import PackedArray.Float.Double
import PackedArray.Proofs.Rounding

/-!
# PackedArray.Proofs.WholeNumbers

Whole numbers in double precision.

`Double.IsWhole` says that a number is finite and how many ones it is.  Whole
numbers far into the range of the format stay whole when they are converted and
multiplied: all that happens to them is that they are rounded to the significant
bits of the format.

* `Double.isWhole_ofInt` — conversion rounds once;
* `Double.IsWhole.mul` — a product rounds once;
* `Double.IsWhole.roundEven?_eq` — the way back does not round at all.
-/

namespace PackedArray

namespace Double

variable {x y : Double} {negative : Bool} {n m c code : Nat}

/-! ## codes -/

theorem infinity_lt : binary64.infinity < 0x8000000000000000 := by decide

theorem code_ofCode (h : code ≤ binary64.infinity) : (ofCode negative code).code = code := by
  have hlt := infinity_lt
  cases negative <;> simp [ofCode, Double.code] <;> omega

theorem isNegative_ofCode (h : code ≤ binary64.infinity) :
    (ofCode negative code).isNegative = negative := by
  have hlt := infinity_lt
  cases negative <;> simp [ofCode, isNegative] <;> omega

/-! ## whole numbers -/

/-- A finite number, of this sign, that is `n` ones. -/
structure IsWhole (x : Double) (negative : Bool) (n : Nat) : Prop where
  code_lt : x.code < binary64.infinity
  isNegative_eq : x.isNegative = negative
  steps_eq : x.steps = n * binary64.unit

theorem mul_unit (n : Nat) : n * binary64.unit = n <<< 1074 := by
  have hplaces : (1 <<< (binary64.exponentBits - 1)) - 2 + binary64.fractionBits = 1074 := rfl
  rw [FloatFormat.unit, hplaces, Nat.one_shiftLeft, Nat.shiftLeft_eq]

theorem unit_pos : 0 < binary64.unit := by
  rw [FloatFormat.unit, Nat.one_shiftLeft]
  exact Nat.two_pow_pos _

/-- The number nearest to a whole number of ones, however many parts they are given
in, is that whole number rounded. -/
theorem isWhole_nearest (negative : Bool) (hc : 0 < c) (hn : n < 1 <<< 256) :
    (nearest negative (c * (n * binary64.unit)) c).IsWhole negative (binary64.round n 1) := by
  have hscale :
      binary64.round (c * (n * binary64.unit)) c = binary64.round n 1 * binary64.unit := by
    have hround := FloatFormat.round_mul_mul (f := binary64) hc (n * binary64.unit) 1
    rw [Nat.mul_one] at hround
    rw [hround, mul_unit, FloatFormat.round_shiftLeft, mul_unit]
  have hdropped :
      binary64.dropped (c * (n * binary64.unit)) c + 4 ≤ 1 <<< binary64.exponentBits := by
    have hbits : (1 : Nat) <<< binary64.exponentBits = 2048 := rfl
    have hfraction : binary64.fractionBits = 52 := rfl
    rw [FloatFormat.dropped, Nat.mul_div_cancel_left _ hc, mul_unit, hbits, hfraction]
    by_cases hzero : n = 0
    · subst hzero
      rw [Nat.zero_shiftLeft, Nat.log2_zero]
      decide
    · rw [Nat.one_shiftLeft, ← Nat.log2_lt hzero] at hn
      rw [FloatFormat.log2_shiftLeft hzero]
      omega
  have hlt := FloatFormat.nearest_lt_infinity hdropped
  have hcode :
      (ofCode negative (binary64.nearest (c * (n * binary64.unit)) c)).code = _ :=
    code_ofCode (Nat.le_of_lt hlt)
  constructor
  case code_lt => rwa [nearest, hcode]
  case isNegative_eq => exact isNegative_ofCode (Nat.le_of_lt hlt)
  case steps_eq => rw [steps, nearest, hcode, FloatFormat.steps_nearest hlt, hscale]

/-- A whole number is rounded once. -/
theorem isWhole_ofInt {v : Int} (h : v.natAbs < 1 <<< 256) :
    (ofInt v).IsWhole (v < 0) (binary64.round v.natAbs 1) := by
  have hwhole := isWhole_nearest (v < 0) Nat.one_pos h
  rwa [Nat.one_mul] at hwhole

namespace IsWhole

theorem isNaN_eq_false (h : x.IsWhole negative n) : x.isNaN = false := by
  have hlt := h.code_lt
  rw [isNaN, decide_eq_false_iff_not]
  omega

theorem isInfinite_eq_false (h : x.IsWhole negative n) : x.isInfinite = false := by
  have hlt := h.code_lt
  rw [isInfinite, beq_eq_false_iff_ne]
  omega

theorem isZero_iff (h : x.IsWhole negative n) : x.isZero = true ↔ n = 0 := by
  have hpos := unit_pos
  rw [isZero, beq_iff_eq, ← FloatFormat.steps_eq_zero_iff (f := binary64), ← steps, h.steps_eq,
    Nat.mul_eq_zero]
  omega

/-- Whole numbers come back as they are. -/
theorem roundEven?_eq (h : x.IsWhole negative n) :
    x.roundEven? = some (if negative then -(n : Int) else n) := by
  rw [roundEven?, h.isNaN_eq_false, h.isInfinite_eq_false, h.isNegative_eq, h.steps_eq,
    divHalfEven_mul unit_pos]
  rfl

/-- A product of whole numbers is rounded once. -/
theorem mul {negative' : Bool} (hx : x.IsWhole negative n) (hy : y.IsWhole negative' m)
    (hlt : n * m < 1 <<< 256) :
    (x.mul y).IsWhole (negative != negative') (binary64.round (n * m) 1) := by
  have hsteps : n * binary64.unit * (m * binary64.unit) =
      binary64.unit * (n * m * binary64.unit) := by
    rw [Nat.mul_mul_mul_comm, Nat.mul_comm, Nat.mul_assoc, Nat.mul_comm (n * m)]
  have hproduct : x.mul y =
      nearest (negative != negative') (binary64.unit * (n * m * binary64.unit)) binary64.unit := by
    simp only [Double.mul, hx.isNaN_eq_false, hy.isNaN_eq_false, hx.isInfinite_eq_false,
      hy.isInfinite_eq_false, hx.isNegative_eq, hy.isNegative_eq, hx.steps_eq, hy.steps_eq, hsteps]
    rfl
  rw [hproduct]
  exact isWhole_nearest _ unit_pos hlt

end IsWhole

end Double

end PackedArray
