import Mathlib
import Payroll.Proofs.DecimalValue

/-!
Exact results. Where the exact result of an operation has no more digits than the context holds and
an exponent within its limits, the context gives that result.
-/

namespace Payroll

/-- Cutting digits off is division with the remainder deciding whether the last one moves up. -/
theorem Decimal.cutDigits_eq (mode : Rounding) (negative : Bool) (n k : Nat) :
    cutDigits mode negative n k =
      if mode.raises negative (n / pow10 k % 2 == 1) (n % pow10 k == 0)
          (compare (2 * (n % pow10 k)) (pow10 k)) then n / pow10 k + 1 else n / pow10 k := by
  rw [cutDigits]
  split
  · next h =>
    obtain _ | k := k
    · omega
    · have hn : n < pow10 k :=
        (lt_pow10_digitCount n).trans_le (Nat.pow_le_pow_right (by decide) (by omega))
      have hk : pow10 (k + 1) = pow10 k * 10 := pow10_succ k
      have hdiv : n / pow10 (k + 1) = 0 := Nat.div_eq_of_lt (by omega)
      have hmod : n % pow10 (k + 1) = n := Nat.mod_eq_of_lt (by omega)
      have hhalf : compare (2 * n) (pow10 (k + 1)) = .lt := compare_lt_iff_lt.2 (by omega)
      rw [hdiv, hmod, hhalf]
      rfl
  · rfl

theorem Decimal.Rounding.raises_exact (mode : Rounding) (negative odd : Bool) :
    mode.raises negative odd true .lt = false := by
  cases mode <;> simp [raises]

theorem Decimal.cutDigits_mul_pow10 (mode : Rounding) (negative : Bool) (n k : Nat) :
    cutDigits mode negative (n * pow10 k) k = n := by
  have hpos := pow10_pos k
  have hhalf : compare (2 * 0) (pow10 k) = .lt := compare_lt_iff_lt.2 (by omega)
  rw [cutDigits_eq, Nat.mul_mod_left, Nat.mul_div_cancel _ hpos, hhalf]
  simp [Rounding.raises_exact]

namespace Decimal

variable {a b d r : Decimal} {x y : ℚ}

theorem value_zero (s : Bool) (e : Int) : (⟨s, 0, e⟩ : Decimal).value = 0 :=
  value_eq_zero.2 rfl

theorem isZero_congr (h : a.value = b.value) : a.isZero = b.isZero := by
  rw [Bool.eq_iff_iff, ← value_eq_zero, ← value_eq_zero, h]

/-- The size of a number in units of a power of ten. -/
def units (e : Int) (d : Decimal) : Nat := d.coefficient * pow10 (d.exponent - e).toNat

theorem exists_units {e : Int} (h : e ≤ d.exponent) :
    ∃ m : ℤ, d.value = m * 10 ^ e ∧ m.natAbs = d.units e := by
  have habs : |d.value| = (d.units e : ℤ) * 10 ^ e := by
    rw [abs_value_of_le h, Int.cast_natCast, units]
  rw [value_eq, habs]
  split
  · exact ⟨-(d.units e : ℤ), by push_cast; ring, by rw [Int.natAbs_neg, Int.natAbs_natCast]⟩
  · exact ⟨d.units e, rfl, Int.natAbs_natCast _⟩

theorem exists_int_of_le {e : Int} (h : e ≤ d.exponent) : ∃ m : ℤ, d.value = m * 10 ^ e := by
  obtain ⟨m, hm, -⟩ := exists_units h
  exact ⟨m, hm⟩

/-- The least size of a number that is not zero and a multiple of a power of ten. -/
theorem le_abs_of_int {e : Int} {m : ℤ} (h : x = m * 10 ^ e) (hx : x ≠ 0) : 10 ^ e ≤ |x| := by
  have hm : m ≠ 0 := by
    rintro rfl
    simp [h] at hx
  have hone : (1 : ℚ) ≤ |(m : ℚ)| := by exact_mod_cast Int.one_le_abs hm
  rw [h, abs_mul, abs_of_pos (ten_zpow_pos e)]
  exact le_mul_of_one_le_left (ten_zpow_pos e).le hone

namespace Context

variable {ctx : Context}

/-- A result that denotes a number and whose exponent is within the limits. -/
def Yields (ctx : Context) (r : Except Signal Decimal) (x : ℚ) : Prop :=
  ∃ d, r = .ok d ∧ d.value = x ∧ d.exponent ≤ ctx.maxExponent

theorem tiny_le_maxExponent (hs : ctx.Standard) : ctx.tiny ≤ ctx.maxExponent := by
  rw [tiny, hs.minExponent, hs.maxExponent]
  omega

theorem Represents.adjusted_le (h : ctx.Represents d.value) (hd : d.isZero = false) :
    d.adjusted ≤ ctx.maxExponent := by
  obtain ⟨d', hvalue, -, -, hmax⟩ := h
  have hd' : d'.isZero = false := (isZero_congr hvalue).trans hd
  rwa [← adjusted_eq_of_abs_value_eq hd' hd (by rw [hvalue])]

/-- The digits below the exponent that a number is fitted to are zeros. -/
theorem exists_coefficient (hd : d.isZero = false) (h : ctx.Represents d.value) {e : Int}
    (he : e = max d.exponent (max (d.exponent + d.digits - ctx.precision) ctx.tiny)) :
    ∃ n, d.coefficient = n * pow10 (e - d.exponent).toNat := by
  obtain ⟨d', hvalue, hdigits, htiny, -⟩ := h
  have hd' : d'.isZero = false := (isZero_congr hvalue).trans hd
  have hadjusted : d'.adjusted = d.adjusted :=
    adjusted_eq_of_abs_value_eq hd' hd (by rw [hvalue])
  rcases eq_or_ne e d.exponent with heq | hne
  · exact ⟨d.coefficient, by simp [heq, pow10]⟩
  · have hle : e ≤ d'.exponent := by
      simp only [adjusted] at hadjusted
      omega
    have hle' : d.exponent ≤ d'.exponent := by omega
    have habs : |d.value| = |d'.value| := by rw [hvalue]
    rw [abs_value, abs_value_of_le hle'] at habs
    have hcoefficient := mul_right_cancel₀ (ten_zpow_pos d.exponent).ne' habs
    refine ⟨d'.coefficient * pow10 (d'.exponent - e).toNat, ?_⟩
    have hsplit : (d'.exponent - d.exponent).toNat =
        (d'.exponent - e).toNat + (e - d.exponent).toNat := by omega
    rw [Nat.cast_inj.1 hcoefficient, hsplit, mul_assoc]
    exact congrArg _ (Nat.pow_add _ _ _)

theorem yields_fit (hs : ctx.Standard) (h : ctx.Represents d.value) :
    ctx.Yields (ctx.fit d) d.value := by
  have htiny := tiny_le_maxExponent hs
  unfold fit
  split
  · next hz =>
    rw [value_eq_zero.2 hz]
    exact ⟨_, rfl, value_zero _ _, max_le htiny (min_le_right _ _)⟩
  · next hz =>
    simp only [Bool.not_eq_true] at hz
    have hmax : d.adjusted ≤ ctx.maxExponent := h.adjusted_le hz
    rw [if_neg hmax.not_gt]
    extract_lets e c r
    obtain ⟨n, hn⟩ := exists_coefficient hz h (e := e) rfl
    have hc : c = n := by
      unfold c
      rw [hn, cutDigits_mul_pow10]
    have hlt : n < pow10 ctx.precision := by
      have hdigits := lt_pow10_digitCount d.coefficient
      have hk : d.digits ≤ ctx.precision + (e - d.exponent).toNat := by omega
      have hbound : n * pow10 (e - d.exponent).toNat <
          pow10 ctx.precision * pow10 (e - d.exponent).toNat := by
        rw [← hn]
        refine hdigits.trans_le ((Nat.pow_le_pow_right (by decide) hk).trans_eq ?_)
        exact Nat.pow_add _ _ _
      exact Nat.lt_of_mul_lt_mul_right hbound
    have hr : r = ⟨d.negative, n, e⟩ := by
      unfold r
      rw [hc, if_neg hlt.ne]
    have hvalue : r.value = d.value := by
      have he : e = d.exponent + (e - d.exponent).toNat := by omega
      rw [hr, he, ← value_mk_mul_pow10, ← hn]
    have hr' : r.isZero = false := (isZero_congr hvalue).trans hz
    have hadjusted : r.adjusted = d.adjusted :=
      adjusted_eq_of_abs_value_eq hr' hz (by rw [hvalue])
    rw [if_neg (by omega)]
    refine ⟨r, rfl, hvalue, ?_⟩
    have hpos : 0 < r.digits := digitCount_pos _
    simp only [adjusted] at hadjusted hmax
    omega

theorem yields_of_value_eq (hs : ctx.Standard) (hd : d.value = x) (h : ctx.Represents x) :
    ctx.Yields (ctx.fit d) x :=
  hd ▸ yields_fit hs (hd ▸ h)

theorem value_signed (zeroSign : Bool) (n e : Int) :
    (⟨if n = 0 then zeroSign else decide (n < 0), n.natAbs, e⟩ : Decimal).value = n * 10 ^ e := by
  rcases lt_trichotomy n 0 with hn | rfl | hn
  · have habs : ((n.natAbs : Int) : ℚ) = ((-n : Int) : ℚ) := by rw [Int.ofNat_natAbs_of_nonpos hn.le]
    rw [if_neg hn.ne, decide_eq_true hn, value_mk_neg, value_mk, ← Int.cast_natCast, habs]
    push_cast
    ring
  · simp [value_zero]
  · have habs : ((n.natAbs : Int) : ℚ) = (n : ℚ) := by rw [Int.natAbs_of_nonneg hn.le]
    rw [if_neg hn.ne', decide_eq_false hn.not_gt, value_mk, ← Int.cast_natCast, habs]

theorem value_sumAligned {big small : Decimal} (h : small.exponent ≤ big.exponent) :
    (sumAligned big small).value = big.value + small.value := by
  have hbig : big.value =
      ((big.signed * pow10 (big.exponent - small.exponent).toNat : Int) : ℚ) *
        10 ^ small.exponent := by
    have he : big.exponent = ((big.exponent - small.exponent).toNat : Int) + small.exponent := by
      omega
    rw [value, Int.cast_mul, Int.cast_natCast, cast_pow10, mul_assoc, ← zpow_natCast,
      ← zpow_add₀ (by norm_num), ← he]
  rw [sumAligned, value_signed, hbig, value, Int.cast_add, add_mul]

/-- A sum that needs no more digits than the context holds has no summand far below the other. -/
theorem isZero_of_represents {big small : Decimal} (hbig : big.isZero = false)
    (h : ctx.Represents (big.value + small.value))
    (hlow : small.adjusted < big.exponent - 1 + min 0 ((big.digits : Int) - ctx.precision - 1)) :
    small.isZero = true := by
  by_contra hsmall
  simp only [Bool.not_eq_true] at hsmall
  obtain ⟨d, hvalue, hdigits, -, -⟩ := h
  have hpos : 0 < big.digits := digitCount_pos _
  have hadjusted : big.adjusted = big.exponent + big.digits - 1 := rfl
  -- the sum has the leading digit of the larger summand or the next one
  have hlarge : (10 : ℚ) ^ big.adjusted ≤ |big.value| := pow_adjusted_le hbig
  have hten : (10 : ℚ) ^ big.adjusted = 10 * 10 ^ (big.adjusted - 1) := by
    rw [← zpow_one_add₀ (by norm_num)]
    congr 1
    omega
  have hslight : |small.value| < 10 ^ (big.adjusted - 1) :=
    (abs_value_lt small).trans_le (zpow_le_zpow_right₀ (by norm_num) (by omega))
  have htriangle : |big.value| ≤ |d.value| + |small.value| := by
    have hdiff : big.value = d.value - small.value := by rw [hvalue]; ring
    rw [hdiff]
    exact abs_sub _ _
  have hsum : (10 : ℚ) ^ (big.adjusted - 1) < |d.value| := by
    have := ten_zpow_pos (big.adjusted - 1)
    linarith
  have hd : big.adjusted - 1 ≤ d.adjusted := by
    have hlt := (zpow_lt_zpow_iff_right₀ (by norm_num)).1 (hsum.trans (abs_value_lt d))
    omega
  -- both the sum and the larger summand are multiples of a power that the other is below
  have hexponent : big.adjusted - ctx.precision ≤ d.exponent := by
    simp only [adjusted] at hd ⊢
    omega
  obtain ⟨m, hm⟩ := exists_int_of_le (min_le_left d.exponent big.exponent)
  obtain ⟨n, hn⟩ := exists_int_of_le (min_le_right d.exponent big.exponent)
  have hmultiple : small.value = ((m - n : ℤ) : ℚ) * 10 ^ min d.exponent big.exponent := by
    rw [Int.cast_sub, sub_mul, ← hm, ← hn, hvalue]
    ring
  have hne : small.value ≠ 0 := fun h0 => by
    rw [value_eq_zero.1 h0] at hsmall
    cases hsmall
  have hle := (le_abs_of_int hmultiple hne).trans_lt (abs_value_lt small)
  have hlt := (zpow_lt_zpow_iff_right₀ (by norm_num)).1 hle
  omega

theorem value_nudge {big small : Decimal} (hbig : big.isZero = false)
    (h : ctx.Represents (big.value + small.value)) :
    (ctx.nudge big small).value = small.value ∧
      (small.exponent ≤ big.exponent → (ctx.nudge big small).exponent ≤ big.exponent) := by
  rw [nudge]
  split
  · next hlow =>
    have hz := isZero_of_represents hbig h hlow
    rw [value_eq_zero.2 hz, isZero_iff.1 hz]
    refine ⟨value_zero _ _, fun _ => ?_⟩
    simp only
    omega
  · exact ⟨rfl, id⟩

theorem yields_add (hs : ctx.Standard) (h : ctx.Represents (a.value + b.value)) :
    ctx.Yields (ctx.add a b) (a.value + b.value) := by
  have hsum {big small : Decimal} (he : small.exponent ≤ big.exponent)
      (h : ctx.Represents (big.value + small.value)) :
      ctx.Yields (if big.isZero then ctx.fit (sumAligned ⟨big.negative, 0, small.exponent⟩ small)
        else ctx.fit (sumAligned big (ctx.nudge big small))) (big.value + small.value) := by
    split
    · next hz =>
      refine yields_of_value_eq hs ?_ h
      have hle : small.exponent ≤ (⟨big.negative, 0, small.exponent⟩ : Decimal).exponent := le_rfl
      rw [value_sumAligned hle, value_zero, value_eq_zero.2 hz]
    · next hz =>
      obtain ⟨hvalue, hexponent⟩ := value_nudge (by simpa using hz) h
      refine yields_of_value_eq hs ?_ h
      rw [value_sumAligned (hexponent he), hvalue]
  unfold add
  by_cases he : b.exponent ≤ a.exponent
  · simp only [if_pos he]
    exact hsum he h
  · simp only [if_neg he]
    rw [add_comm a.value] at h ⊢
    exact hsum (by omega) h

theorem value_flip (d : Decimal) : ({ d with negative := !d.negative } : Decimal).value = -d.value := by
  obtain ⟨s, n, e⟩ := d
  cases s <;> simp [value_mk_neg]

theorem yields_sub (hs : ctx.Standard) (h : ctx.Represents (a.value - b.value)) :
    ctx.Yields (ctx.sub a b) (a.value - b.value) := by
  rw [sub_eq_add_neg, ← value_flip] at h ⊢
  exact yields_add hs h

theorem value_mul (a b : Decimal) :
    (⟨a.negative != b.negative, a.coefficient * b.coefficient, a.exponent + b.exponent⟩ :
      Decimal).value = a.value * b.value := by
  obtain ⟨s, m, e⟩ := a
  obtain ⟨t, n, f⟩ := b
  have hsize : ((m * n : ℕ) : ℚ) * 10 ^ (e + f) = m * 10 ^ e * (n * 10 ^ f) := by
    rw [Nat.cast_mul, zpow_add₀ (by norm_num)]
    ring
  cases s <;> cases t <;> simp only [bne_self_eq_false, Bool.true_bne, Bool.false_bne, Bool.not_false,
    value_mk_neg, value_mk, hsize] <;> ring

theorem yields_mul (hs : ctx.Standard) (h : ctx.Represents (a.value * b.value)) :
    ctx.Yields (ctx.mul a b) (a.value * b.value) :=
  yields_of_value_eq hs (value_mul a b) h

theorem value_negation (d : Decimal) :
    ({ d with negative := !d.isZero && !d.negative } : Decimal).value = -d.value := by
  cases hz : d.isZero with
  | false => exact value_flip d
  | true =>
      rw [value_eq_zero.2 hz, neg_zero, value_eq_zero]
      exact hz

theorem yields_neg (hs : ctx.Standard) (h : ctx.Represents (-d.value)) :
    ctx.Yields (ctx.neg d) (-d.value) :=
  yields_of_value_eq hs (value_negation d) h

theorem yields_abs (hs : ctx.Standard) (h : ctx.Represents |d.value|) :
    ctx.Yields (ctx.abs d) |d.value| := by
  refine yields_of_value_eq hs ?_ h
  rw [abs_value, value_mk]

end Context

end Decimal

end Payroll
