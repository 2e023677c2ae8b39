import PackedArray.Float.Format

/-!
# PackedArray.Proofs.Rounding

Rounding to a floating-point format, in whole numbers.

A number that a format keeps as it is has few significant bits: it is a short
significand followed by zeros.  `FloatFormat.nearest` finds the code of such a
number; here is which number that is, by itself and without the range of the
format.

* `FloatFormat.steps_nearest` — the nearest code stands for the rounded quotient;
* `FloatFormat.round_eq_self_iff` — exactly the short numbers are kept;
* `FloatFormat.round_shiftLeft`, `FloatFormat.round_mul_mul` — rounding does not see
  trailing zeros, nor a common factor;
* `FloatFormat.Exact.of_mul` — factors of short numbers are short.
-/

namespace PackedArray

/-! ## quotients -/

/-- Rounding goes to one of the two whole numbers beside the quotient. -/
theorem divHalfEven_eq_or (num den : Nat) :
    divHalfEven num den = num / den ∨ divHalfEven num den = num / den + 1 := by
  unfold divHalfEven
  simp only
  split
  · exact .inl rfl
  · split
    · exact .inr rfl
    · omega

/-- A common factor does not matter. -/
theorem divHalfEven_mul_mul {c : Nat} (hc : 0 < c) (num den : Nat) :
    divHalfEven (c * num) (c * den) = divHalfEven num den := by
  have hlt (x y : Nat) : c * x < c * y ↔ x < y := Nat.mul_lt_mul_left hc
  unfold divHalfEven
  simp only [Nat.mul_div_mul_left num den hc, Nat.mul_mod_mul_left, Nat.mul_left_comm 2 c, hlt]

namespace FloatFormat

variable {f : FloatFormat} {num den n m s c : Nat}

/-! ## significands -/

theorem binade_pos (f : FloatFormat) : 0 < f.binade := by
  rw [binade, Nat.one_shiftLeft]
  exact Nat.two_pow_pos _

/-- Binary places that rounding a quotient drops. -/
def dropped (f : FloatFormat) (num den : Nat) : Nat := (num / den).log2 - f.fractionBits

/-- The bits of a quotient that rounding keeps. -/
def significand (f : FloatFormat) (num den : Nat) : Nat :=
  divHalfEven num (den <<< f.dropped num den)

/-- A quotient rounded to the significant bits of the format. -/
def round (f : FloatFormat) (num den : Nat) : Nat :=
  f.significand num den <<< f.dropped num den

/-- The number has no more significant bits than the format keeps, trailing zeros
aside. -/
def Exact (f : FloatFormat) (n : Nat) : Prop := ∃ m s, m < 2 * f.binade ∧ n = m <<< s

theorem nearest_eq (f : FloatFormat) (num den : Nat) :
    f.nearest num den = min (f.dropped num den * f.binade + f.significand num den) f.infinity :=
  rfl

theorem div_shiftLeft (num den s : Nat) : num / den <<< s = num / den / 1 <<< s := by
  rw [Nat.shiftLeft_eq, Nat.one_shiftLeft, Nat.div_div_eq_div_mul]

/-- A significand has one bit more than the fraction; or is the next power of two,
after a carry. -/
theorem significand_le (f : FloatFormat) (num den : Nat) :
    f.significand num den ≤ 2 * f.binade := by
  have hlt : num / den <<< f.dropped num den < 2 * f.binade := by
    rw [div_shiftLeft, Nat.one_shiftLeft, Nat.div_lt_iff_lt_mul (Nat.two_pow_pos _), binade,
      Nat.one_shiftLeft, ← Nat.pow_add_one', ← Nat.pow_add]
    refine Nat.lt_of_lt_of_le Nat.lt_log2_self (Nat.pow_le_pow_right (by decide) ?_)
    unfold dropped
    omega
  have hround := divHalfEven_eq_or num (den <<< f.dropped num den)
  unfold significand
  omega

/-- Where places are dropped, the significand is a full one. -/
theorem binade_le_significand (h : f.dropped num den ≠ 0) :
    f.binade ≤ f.significand num den := by
  have hle : f.binade ≤ num / den <<< f.dropped num den := by
    have hne : num / den ≠ 0 := by
      intro hzero
      rw [dropped, hzero] at h
      exact h (Nat.zero_sub _)
    rw [div_shiftLeft, Nat.one_shiftLeft, Nat.le_div_iff_mul_le (Nat.two_pow_pos _), binade,
      Nat.one_shiftLeft, ← Nat.pow_add]
    refine Nat.le_trans (Nat.pow_le_pow_right (by decide) ?_) (Nat.log2_self_le hne)
    unfold dropped at h ⊢
    omega
  have hround := divHalfEven_eq_or num (den <<< f.dropped num den)
  unfold significand
  omega

/-! ## codes -/

/-- The number that a code of a full significand, or of a short one at the bottom of
the range, stands for.  A carry lands on the next binade. -/
theorem steps_code (h : s ≠ 0 → f.binade ≤ m) (hle : m ≤ 2 * f.binade) :
    f.steps (s * f.binade + m) = m <<< s := by
  have hpos := f.binade_pos
  have hcode {e r : Nat} (hr : r < f.binade) (he : e ≠ 0) :
      f.steps (e * f.binade + r) = (f.binade + r) <<< (e - 1) := by
    have hdiv : (e * f.binade + r) / f.binade = e := by
      rw [Nat.mul_comm, Nat.mul_add_div hpos, Nat.div_eq_of_lt hr, Nat.add_zero]
    have hmod : (e * f.binade + r) % f.binade = r := by
      rw [Nat.mul_comm, Nat.mul_add_mod, Nat.mod_eq_of_lt hr]
    simp only [steps, hdiv, hmod, if_neg he]
  by_cases hshort : m < f.binade
  · obtain rfl : s = 0 := Decidable.not_not.mp fun hs => absurd (h hs) (Nat.not_le.mpr hshort)
    simp [steps, Nat.div_eq_of_lt hshort, Nat.mod_eq_of_lt hshort]
  · by_cases hcarry : m = 2 * f.binade
    · have hsum : s * f.binade + m = (s + 2) * f.binade + 0 := by
        rw [hcarry, Nat.add_mul, Nat.add_zero]
      have hshift : s + 2 - 1 = 1 + s := by omega
      rw [hsum, hcode hpos (by omega), hcarry, hshift, Nat.shiftLeft_add, Nat.shiftLeft_eq _ 1,
        Nat.add_zero, Nat.mul_comm 2]
    · have hsum : s * f.binade + m = (s + 1) * f.binade + (m - f.binade) := by
        rw [Nat.add_mul]
        omega
      rw [hsum, hcode (by omega) (by omega), Nat.add_sub_cancel, Nat.add_sub_cancel' (by omega)]

/-- The nearest code stands for the rounded quotient, if that is in range. -/
theorem steps_nearest (h : f.nearest num den < f.infinity) :
    f.steps (f.nearest num den) = f.round num den := by
  rw [nearest_eq] at h ⊢
  rw [Nat.min_eq_left (by omega), steps_code binade_le_significand (f.significand_le num den)]
  rfl

/-- Quotients that are not too great are in range. -/
theorem nearest_lt_infinity (h : f.dropped num den + 4 ≤ 1 <<< f.exponentBits) :
    f.nearest num den < f.infinity := by
  have hpos := f.binade_pos
  have hle := f.significand_le num den
  have hlt : f.dropped num den * f.binade + f.significand num den < f.infinity := by
    calc f.dropped num den * f.binade + f.significand num den
        ≤ f.dropped num den * f.binade + 2 * f.binade := Nat.add_le_add_left hle _
      _ = (f.dropped num den + 2) * f.binade := (Nat.add_mul _ _ _).symm
      _ < f.infinity := Nat.mul_lt_mul_of_pos_right (by omega) hpos
  rw [nearest_eq]
  omega

theorem steps_eq_zero_iff {code : Nat} : f.steps code = 0 ↔ code = 0 := by
  have hpos := f.binade_pos
  constructor
  · intro h
    unfold steps at h
    simp only at h
    split at h
    · next hzero =>
        rw [← Nat.div_add_mod code f.binade, hzero, h, Nat.mul_zero]
    · rw [Nat.shiftLeft_eq, Nat.mul_eq_zero] at h
      have hpow := Nat.two_pow_pos (code / f.binade - 1)
      omega
  · rintro rfl
    simp [steps]

/-! ## short numbers -/

theorem exact_of_lt (h : n < 2 * f.binade) : f.Exact n := ⟨n, 0, h, rfl⟩

theorem Exact.shiftLeft (h : f.Exact n) (k : Nat) : f.Exact (n <<< k) := by
  obtain ⟨m, s, hm, rfl⟩ := h
  exact ⟨m, s + k, hm, (Nat.shiftLeft_add m s k).symm⟩

/-- A factor of a short number is short. -/
theorem Exact.of_mul {a b : Nat} (h : f.Exact (a * b)) (hne : a * b ≠ 0) : f.Exact a := by
  obtain ⟨m, s, hm, heq⟩ := h
  -- by the trailing zeros of the product: each is one of `a` or of `b`
  induction s generalizing a b with
  | zero =>
      have hb : 0 < b := Nat.pos_of_ne_zero (Nat.ne_zero_of_mul_ne_zero_right hne)
      have hle : a ≤ a * b := Nat.le_mul_of_pos_right a hb
      rw [heq, Nat.shiftLeft_zero] at hle
      exact exact_of_lt (Nat.lt_of_le_of_lt hle hm)
  | succ s ih =>
      rw [Nat.shiftLeft_succ] at heq
      obtain ⟨a', rfl⟩ | ⟨b', rfl⟩ : 2 ∣ a ∨ 2 ∣ b := by
        have hmod := Nat.mul_mod a b 2
        rw [heq, Nat.mul_mod_right] at hmod
        obtain ha | ha := Nat.mod_two_eq_zero_or_one a
        · exact .inl (Nat.dvd_of_mod_eq_zero ha)
        · rw [ha, Nat.one_mul, Nat.mod_mod] at hmod
          exact .inr (Nat.dvd_of_mod_eq_zero hmod.symm)
      · rw [Nat.mul_assoc] at heq hne
        have hshort : f.Exact a' :=
          ih (b := b) (Nat.ne_zero_of_mul_ne_zero_right hne)
            (Nat.eq_of_mul_eq_mul_left (by decide) heq)
        have htwice : 2 * a' = a' <<< 1 := by rw [Nat.shiftLeft_eq, Nat.mul_comm]
        rw [htwice]
        exact hshort.shiftLeft 1
      · rw [Nat.mul_left_comm] at heq hne
        exact ih (b := b') (Nat.ne_zero_of_mul_ne_zero_right hne)
          (Nat.eq_of_mul_eq_mul_left (by decide) heq)

/-- A rounded quotient is short. -/
theorem exact_round (f : FloatFormat) (num den : Nat) : f.Exact (f.round num den) := by
  have hle := f.significand_le num den
  have hpos := f.binade_pos
  by_cases hcarry : f.significand num den = 2 * f.binade
  · have hone : f.significand num den = 1 <<< (f.fractionBits + 1) := by
      rw [hcarry, binade, Nat.shiftLeft_succ]
    rw [round, hone]
    exact ((exact_of_lt (by omega)).shiftLeft _).shiftLeft _
  · exact ⟨_, _, by omega, rfl⟩

/-- A whole number is kept if the places that are dropped are zeros. -/
theorem round_eq_of_eq_shiftLeft (h : n = m <<< f.dropped n 1) : f.round n 1 = n := by
  have hsig : f.significand n 1 = m := by
    have hquotient := divHalfEven_mul (Nat.two_pow_pos (f.dropped n 1)) m
    rwa [← Nat.shiftLeft_eq, ← h, ← Nat.one_shiftLeft] at hquotient
  rw [round, hsig, ← h]

/-- Short numbers are kept. -/
theorem Exact.round_eq (h : f.Exact n) : f.round n 1 = n := by
  obtain ⟨m, s, hm, rfl⟩ := h
  have hdropped : f.dropped (m <<< s) 1 ≤ s := by
    rw [dropped, Nat.div_one]
    by_cases hzero : m <<< s = 0
    · simp [hzero, Nat.log2_zero]
    · have hlt : m <<< s < 2 ^ (f.fractionBits + 1 + s) := by
        rw [Nat.shiftLeft_eq, Nat.pow_add, Nat.pow_add_one', ← Nat.one_shiftLeft f.fractionBits]
        exact Nat.mul_lt_mul_of_pos_right hm (Nat.two_pow_pos s)
      have hlog := (Nat.log2_lt hzero).mpr hlt
      omega
  refine round_eq_of_eq_shiftLeft (m := m <<< (s - f.dropped (m <<< s) 1)) ?_
  rw [← Nat.shiftLeft_add, Nat.sub_add_cancel hdropped]

/-- **Exactly the short numbers are kept.** -/
theorem round_eq_self_iff : f.round n 1 = n ↔ f.Exact n :=
  ⟨fun h => h ▸ f.exact_round n 1, Exact.round_eq⟩

/-! ## rounding at other scales -/

/-- A common factor does not matter. -/
theorem round_mul_mul (hc : 0 < c) (num den : Nat) :
    f.round (c * num) (c * den) = f.round num den := by
  have hdropped : f.dropped (c * num) (c * den) = f.dropped num den := by
    rw [dropped, dropped, Nat.mul_div_mul_left num den hc]
  have hshift (s : Nat) : (c * den) <<< s = c * den <<< s := by
    rw [Nat.shiftLeft_eq, Nat.shiftLeft_eq, Nat.mul_assoc]
  rw [round, round, significand, significand, hdropped, hshift, divHalfEven_mul_mul hc]

theorem log2_shiftLeft (hn : n ≠ 0) (k : Nat) : (n <<< k).log2 = n.log2 + k := by
  induction k with
  | zero => rw [Nat.shiftLeft_zero, Nat.add_zero]
  | succ k ih =>
      have hne : n <<< k ≠ 0 := by
        rw [Nat.shiftLeft_eq]
        exact Nat.mul_ne_zero hn (Nat.ne_of_gt (Nat.two_pow_pos k))
      rw [Nat.shiftLeft_succ, Nat.log2_two_mul hne, ih, Nat.add_assoc]

/-- Numbers that lose no place are short. -/
theorem exact_of_dropped_eq_zero (h : f.dropped n 1 = 0) : f.Exact n := by
  rw [← round_eq_self_iff]
  exact round_eq_of_eq_shiftLeft (m := n) (by rw [h, Nat.shiftLeft_zero])

/-- Trailing zeros do not matter. -/
theorem round_shiftLeft (f : FloatFormat) (n k : Nat) :
    f.round (n <<< k) 1 = f.round n 1 <<< k := by
  by_cases hzero : f.dropped n 1 = 0
  · have hshort := exact_of_dropped_eq_zero hzero
    rw [hshort.round_eq, (hshort.shiftLeft k).round_eq]
  · have hn : n ≠ 0 := by
      rintro rfl
      exact hzero (by simp [dropped])
    have hdropped : f.dropped (n <<< k) 1 = f.dropped n 1 + k := by
      unfold dropped at hzero ⊢
      rw [Nat.div_one] at hzero ⊢
      rw [Nat.div_one, log2_shiftLeft hn]
      omega
    have hsig : f.significand (n <<< k) 1 = f.significand n 1 := by
      rw [significand, significand, hdropped, Nat.shiftLeft_add, Nat.shiftLeft_eq n,
        Nat.shiftLeft_eq _ k, Nat.mul_comm n, Nat.mul_comm _ (2 ^ k),
        divHalfEven_mul_mul (Nat.two_pow_pos k)]
    rw [round, round, hsig, hdropped, Nat.shiftLeft_add]

/-! ## bounds -/

/-- Numbers with more bits than the format keeps are not rounded to shorter ones. -/
theorem le_round (h : 2 * f.binade ≤ n) : 2 * f.binade ≤ f.round n 1 := by
  have hdropped : 1 ≤ f.dropped n 1 := by
    have hn : n ≠ 0 := by
      have := f.binade_pos
      omega
    rw [binade, ← Nat.shiftLeft_succ, Nat.one_shiftLeft, ← Nat.le_log2 hn] at h
    rw [dropped, Nat.div_one]
    omega
  have hsig := binade_le_significand (Nat.ne_of_gt hdropped)
  have hplaces : 2 ^ 1 ≤ 2 ^ f.dropped n 1 := Nat.pow_le_pow_right (by decide) hdropped
  rw [round, Nat.shiftLeft_eq, Nat.mul_comm 2]
  exact Nat.mul_le_mul hsig hplaces

theorem round_eq_zero_iff : f.round n 1 = 0 ↔ n = 0 := by
  have hpos := f.binade_pos
  by_cases hlong : 2 * f.binade ≤ n
  · have hround := le_round hlong
    omega
  · rw [(exact_of_lt (Nat.lt_of_not_le hlong)).round_eq]

/-- Rounding at most doubles a number. -/
theorem round_le (f : FloatFormat) (n : Nat) : f.round n 1 ≤ 2 * n := by
  by_cases hzero : f.dropped n 1 = 0
  · rw [(exact_of_dropped_eq_zero hzero).round_eq]
    omega
  · have hn : n ≠ 0 := by
      rintro rfl
      exact hzero (by simp [dropped])
    have hplaces : 2 ^ f.dropped n 1 ≤ n := by
      refine Nat.le_trans (Nat.pow_le_pow_right (by decide) ?_) (Nat.log2_self_le hn)
      rw [dropped, Nat.div_one]
      exact Nat.sub_le _ _
    have hbounds := (divHalfEven_bounds (Nat.two_pow_pos (f.dropped n 1)) n).2
    rw [round, significand, Nat.one_shiftLeft, Nat.shiftLeft_eq]
    omega

end FloatFormat

end PackedArray
