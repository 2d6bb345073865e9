import Mathlib
import Payroll.Proofs.RoundingExact

/-!
Rounding as a function of numbers keeps their order and leaves multiples of the place alone. What a
context makes of a decimal is such a rounding too, at a place that moves with the leading digit.
-/

namespace Payroll

namespace Decimal

namespace Rounding

variable {mode : Rounding} {e k : Int} {m : ℤ} {x : ℚ}

theorem exists_split (x : ℚ) : ∃ (m : ℤ) (f : ℚ), 0 ≤ f ∧ f < 1 ∧ x = m + f :=
  ⟨⌊x⌋, Int.fract x, Int.fract_nonneg x, Int.fract_lt_one x, (Int.floor_add_fract x).symm⟩

/-- A rounding to one of the two integers around a number keeps the order if it does so between
them. -/
theorem mono_of_fract {r : ℚ → ℤ} (low : ∀ x, ⌊x⌋ ≤ r x) (high : ∀ x, r x ≤ ⌊x⌋ + 1)
    (step : ∀ (m : ℤ) (f g : ℚ), 0 ≤ f → f ≤ g → g < 1 → r (m + f) ≤ r (m + g)) : Monotone r := by
  intro x y h
  rcases (Int.floor_mono h).lt_or_eq with hlt | heq
  · exact (high x).trans ((Int.add_one_le_of_lt hlt).trans (low y))
  · have hxy := step ⌊x⌋ (Int.fract x) (Int.fract y) (Int.fract_nonneg x) ?_ (Int.fract_lt_one y)
    · rwa [Int.floor_add_fract, heq, Int.floor_add_fract] at hxy
    · rw [Int.fract, Int.fract, heq]
      linarith

theorem nearest_halfEven_mono : Monotone (nearest .halfEven) := by
  refine mono_of_fract (fun x => ?_) (fun x => ?_) fun m f g h₀ hfg h₁ => ?_
  · obtain ⟨m, f, h₀, h₁, rfl⟩ := exists_split x
    rw [nearest_halfEven_add h₀ h₁, floor_add h₀ h₁]
    split <;> omega
  · obtain ⟨m, f, h₀, h₁, rfl⟩ := exists_split x
    rw [nearest_halfEven_add h₀ h₁, floor_add h₀ h₁]
    split <;> omega
  · rw [nearest_halfEven_add h₀ (hfg.trans_lt h₁), nearest_halfEven_add (h₀.trans hfg) h₁]
    by_cases hg : g < 1 / 2 ∨ g = 1 / 2 ∧ Even m
    · have hf : f < 1 / 2 ∨ f = 1 / 2 ∧ Even m := by
        rcases hg with hg | ⟨rfl, hm⟩
        · exact .inl (hfg.trans_lt hg)
        · exact hfg.lt_or_eq.imp_right fun h => ⟨h, hm⟩
      rw [if_pos hg, if_pos hf]
    · rw [if_neg hg]
      split <;> omega

theorem nearest_mono (mode : Rounding) : Monotone mode.nearest := by
  cases mode with
  | floor => exact Int.floor_mono
  | ceiling => exact Int.ceil_mono
  | halfEven => exact nearest_halfEven_mono
  | halfUp =>
      intro x y h
      simp only [nearest]
      split
      · next hx =>
        rw [if_pos (hx.trans h)]
        exact Int.floor_mono (by linarith)
      · next hx =>
        split
        · next hy =>
          have hneg : ⌈x - 1 / 2⌉ ≤ 0 := Int.ceil_le.2 (by push_cast; linarith)
          exact hneg.trans (Int.floor_nonneg.2 (by linarith))
        · exact Int.ceil_mono (by linarith)
  | halfDown =>
      intro x y h
      simp only [nearest]
      split
      · next hx =>
        rw [if_pos (hx.trans h)]
        exact Int.ceil_mono (by linarith)
      · next hx =>
        split
        · next hy =>
          have hneg : ⌊x + 1 / 2⌋ ≤ 0 := Int.floor_le_iff.2 (by push_cast; linarith)
          exact hneg.trans (Int.le_ceil_iff.2 (by push_cast; linarith))
        · exact Int.floor_mono (by linarith)

theorem le_nearest (h : (m : ℚ) ≤ x) : m ≤ mode.nearest x :=
  (mode.nearest_intCast m).symm.trans_le (mode.nearest_mono h)

theorem nearest_le (h : x ≤ m) : mode.nearest x ≤ m :=
  (mode.nearest_mono h).trans_eq (mode.nearest_intCast m)

theorem abs_nearest_sub_le (mode : Rounding) (x : ℚ) : |(mode.nearest x : ℚ) - x| ≤ 1 := by
  have hlow : (⌊x⌋ : ℚ) ≤ mode.nearest x := Int.cast_le.2 (le_nearest (Int.floor_le x))
  have hhigh : (mode.nearest x : ℚ) ≤ ⌈x⌉ := Int.cast_le.2 (nearest_le (Int.le_ceil x))
  have hfloor := Int.lt_floor_add_one x
  have hceil := Int.ceil_lt_add_one x
  exact abs_le.2 ⟨by linarith, by linarith⟩

/-- A number rounded to a multiple of a power of ten. -/
def toPlace (mode : Rounding) (e : Int) (x : ℚ) : ℚ := mode.nearest (x / 10 ^ e) * 10 ^ e

theorem toPlace_mono (mode : Rounding) (e : Int) : Monotone (mode.toPlace e) := by
  intro x y h
  have hpos := ten_zpow_pos e
  exact mul_le_mul_of_nonneg_right (Int.cast_le.2 (mode.nearest_mono
    (div_le_div_of_nonneg_right h hpos.le))) hpos.le

theorem toPlace_int_mul (mode : Rounding) (e : Int) (m : ℤ) :
    mode.toPlace e (m * 10 ^ e) = m * 10 ^ e := by
  rw [toPlace, mul_div_cancel_right₀ _ (ten_zpow_pos e).ne', nearest_intCast]

theorem le_toPlace (h : m * 10 ^ e ≤ x) : m * 10 ^ e ≤ mode.toPlace e x :=
  (mode.toPlace_int_mul e m).symm.trans_le (mode.toPlace_mono e h)

theorem toPlace_le (h : x ≤ m * 10 ^ e) : mode.toPlace e x ≤ m * 10 ^ e :=
  (mode.toPlace_mono e h).trans_eq (mode.toPlace_int_mul e m)

theorem toPlace_nonneg (h : 0 ≤ x) : 0 ≤ mode.toPlace e x := by
  have hzero := mode.toPlace_int_mul e 0
  rw [Int.cast_zero, zero_mul] at hzero
  exact hzero.symm.trans_le (mode.toPlace_mono e h)

theorem toPlace_neg (mode : Rounding) (e : Int) (x : ℚ) :
    mode.toPlace e (-x) = -mode.flip.toPlace e x := by
  rw [toPlace, toPlace, neg_div, nearest_neg]
  push_cast
  ring

theorem abs_toPlace_sub_le (mode : Rounding) (e : Int) (x : ℚ) :
    |mode.toPlace e x - x| ≤ 10 ^ e := by
  have hpos := ten_zpow_pos e
  have hdiff : mode.toPlace e x - x = (mode.nearest (x / 10 ^ e) - x / 10 ^ e) * 10 ^ e := by
    rw [toPlace, sub_mul, div_mul_cancel₀ _ hpos.ne']
  rw [hdiff, abs_mul, abs_of_pos hpos]
  exact mul_le_of_le_one_left hpos.le (mode.abs_nearest_sub_le _)

/-- A multiple of a power of ten is one of every smaller power. -/
theorem exists_int_mul (m : ℤ) (h : e ≤ k) : ∃ n : ℤ, (m : ℚ) * 10 ^ k = n * 10 ^ e := by
  refine ⟨m * 10 ^ (k - e).toNat, ?_⟩
  have hk : k = ((k - e).toNat : Int) + e := by omega
  conv_lhs => rw [hk, zpow_add₀ (by norm_num), zpow_natCast]
  push_cast
  ring

theorem exists_pow (h : e ≤ k) : ∃ n : ℤ, (10 : ℚ) ^ k = n * 10 ^ e := by
  simpa using exists_int_mul 1 h

theorem abs_toPlace_le (hk : e ≤ k) (h : |x| ≤ 10 ^ k) : |mode.toPlace e x| ≤ 10 ^ k := by
  obtain ⟨n, hn⟩ := exists_pow hk
  rw [hn] at h ⊢
  obtain ⟨hlow, hhigh⟩ := abs_le.1 h
  have hneg : ((-n : ℤ) : ℚ) * 10 ^ e = -(n * 10 ^ e) := by push_cast; ring
  exact abs_le.2 ⟨hneg ▸ le_toPlace (hneg.symm ▸ hlow), toPlace_le hhigh⟩

end Rounding

variable {a b d : Decimal} {e : Int} {x : ℚ}

/-- A decimal is known by its sign, its exponent and its value. -/
theorem eq_of_value (hnegative : a.negative = b.negative) (hexponent : a.exponent = b.exponent)
    (hvalue : a.value = b.value) : a = b := by
  obtain ⟨s, n, k⟩ := a
  obtain ⟨t, m, l⟩ := b
  cases hnegative
  cases hexponent
  have habs : (n : ℚ) * 10 ^ k = m * 10 ^ k := by
    rw [← value_mk, ← value_mk]
    cases s with
    | false => exact hvalue
    | true => exact neg_inj.1 (by rwa [value_mk_neg, value_mk_neg m] at hvalue)
  have hcoefficient : n = m := by exact_mod_cast mul_right_cancel₀ (ten_zpow_pos k).ne' habs
  rw [hcoefficient]

theorem digits_le_of_abs_lt {k : Nat} (hk : 0 < k) (h : |d.value| < 10 ^ (d.exponent + k)) :
    d.digits ≤ k := by
  refine digitCount_le ?_ hk
  rw [abs_value, zpow_add₀ (by norm_num), mul_comm] at h
  have hlt := lt_of_mul_lt_mul_left h (ten_zpow_pos d.exponent).le
  rw [zpow_natCast, ← cast_pow10] at hlt
  exact_mod_cast hlt

namespace Context

variable {ctx ca cb : Context}

/-- Nothing is left to do for a number with few enough digits and an exponent within the limits. -/
theorem fit_eq_self (hdigits : d.digits ≤ ctx.precision) (hlow : ctx.tiny ≤ d.exponent)
    (hhigh : d.adjusted ≤ ctx.maxExponent) : ctx.fit d = .ok d := by
  have hpos : 0 < d.digits := digitCount_pos _
  have hle : d.exponent ≤ d.adjusted := by
    rw [adjusted]
    omega
  obtain ⟨s, n, k⟩ := d
  simp only at hlow hle
  unfold fit
  split
  · next hz =>
    have hn : n = 0 := isZero_iff.1 hz
    have hk : max ctx.tiny (min k ctx.maxExponent) = k := by omega
    rw [hk, hn]
  · rw [if_neg hhigh.not_gt]
    extract_lets e c r
    have he : e = k := by
      simp only [e]
      omega
    have hc : c = n := by
      have hcut := cutDigits_mul_pow10 .halfEven s n 0
      have hone : pow10 0 = 1 := rfl
      rw [hone, mul_one] at hcut
      simp only [c, he, sub_self, Int.toNat_zero]
      exact hcut
    have hr : r = ⟨s, n, k⟩ := by
      have hlt : n < pow10 ctx.precision :=
        (lt_pow10_digitCount n).trans_le (Nat.pow_le_pow_right (by decide) hdigits)
      simp only [r, hc, he, if_neg hlt.ne]
    rw [hr, if_neg hhigh.not_gt]

/-- Rounding to a place that the context has room for keeps the sign and gives the place for an
exponent. -/
theorem exists_quantize {mode : Rounding} (hprecision : 0 < ctx.precision)
    (hlow : ctx.tiny ≤ e) (hhigh : e ≤ ctx.maxExponent)
    (hmax : d.isZero = false → d.adjusted ≤ ctx.maxExponent)
    (hdigits : d.isZero = false → d.digits + (d.exponent - e) ≤ ctx.precision)
    (hroom : |mode.toPlace e d.value| < 10 ^ (e + ctx.precision))
    (hsize : |mode.toPlace e d.value| < 10 ^ (ctx.maxExponent + 1)) :
    ∃ r, ctx.quantize mode e d = .ok r ∧ r.value = mode.toPlace e d.value ∧ r.exponent = e ∧
      r.negative = d.negative := by
  have hvalue := value_quantized mode e d
  rw [← Rounding.toPlace] at hvalue
  unfold quantize
  rw [if_neg (by omega)]
  cases hz : d.isZero with
  | true =>
      rw [if_pos rfl]
      have hzero : (⟨d.negative, 0, e⟩ : Decimal).isZero = true := rfl
      refine ⟨_, fit_eq_self ?_ hlow ?_, ?_, rfl, rfl⟩
      · rw [digits_of_isZero hzero]
        exact hprecision
      · rw [adjusted_of_isZero hzero]
        exact hhigh
      · have hnone := mode.toPlace_int_mul e 0
        rw [Int.cast_zero, zero_mul] at hnone
        rw [value_zero, value_eq_zero.2 hz, hnone]
  | false =>
      simp only [Bool.false_eq_true, ↓reduceIte]
      have hadjusted := hmax hz
      have hd := hdigits hz
      rw [if_neg (by omega)]
      generalize hdef : (⟨d.negative, if e ≤ d.exponent then _ else _, e⟩ : Decimal) = r at hvalue ⊢
      have hexponent : r.exponent = e := by rw [← hdef]
      have hfits : r.digits ≤ ctx.precision := by
        refine digits_le_of_abs_lt hprecision ?_
        rw [hvalue, hexponent]
        exact hroom
      have hpos : 0 < r.digits := digitCount_pos _
      have hleast : e ≤ r.adjusted := by
        rw [adjusted, hexponent]
        omega
      have hmost : r.adjusted ≤ ctx.maxExponent := by
        cases hrz : r.isZero with
        | true => rwa [adjusted_of_isZero hrz, hexponent]
        | false => exact (adjusted_le_iff hrz _).2 (hvalue ▸ hsize)
      rw [if_neg (by omega)]
      refine ⟨r, fit_eq_self hfits (hexponent.symm ▸ hlow) hmost, hvalue, hexponent, ?_⟩
      rw [← hdef]

/-- The place of the last digit that a context has room for. -/
def lastPlace (ctx : Context) (d : Decimal) : Int := max (d.adjusted + 1 - ctx.precision) ctx.tiny

/-- The number that a context makes of a decimal. -/
def kept (ctx : Context) (d : Decimal) : ℚ := Rounding.toPlace .halfEven (ctx.lastPlace d) d.value

theorem abs_kept (ctx : Context) (d : Decimal) :
    |ctx.kept d| = Rounding.toPlace .halfEven (ctx.lastPlace d) |d.value| := by
  rcases le_total 0 d.value with h | h
  · rw [kept, abs_of_nonneg h, abs_of_nonneg (Rounding.toPlace_nonneg h)]
  · have hneg := Rounding.toPlace_neg .halfEven (ctx.lastPlace d) (-d.value)
    rw [neg_neg] at hneg
    rw [kept, abs_of_nonpos h, hneg, abs_neg]
    exact abs_of_nonneg (Rounding.toPlace_nonneg (neg_nonneg.2 h))

theorem abs_kept_le (ctx : Context) (d : Decimal) :
    |ctx.kept d| ≤ 10 ^ max (d.adjusted + 1) ctx.tiny := by
  refine Rounding.abs_toPlace_le ?_ ?_
  · rw [lastPlace]
    omega
  · exact (abs_value_lt d).le.trans (zpow_le_zpow_right₀ (by norm_num) (le_max_left _ _))

/-- What is kept grows with the number, also where the last place moves up with the leading digit. -/
theorem abs_kept_mono (ha : a.isZero = false) (h : |a.value| ≤ |b.value|)
    (hplace : ca.lastPlace a = cb.lastPlace b ∨
      a.adjusted < b.adjusted ∧ ca.lastPlace a ≤ b.adjusted ∧ cb.lastPlace b ≤ b.adjusted) :
    |ca.kept a| ≤ |cb.kept b| := by
  rw [abs_kept, abs_kept]
  rcases hplace with heq | ⟨hlt, hla, hlb⟩
  · rw [heq]
    exact Rounding.toPlace_mono _ _ h
  · have hb : b.isZero = false :=
      isZero_of_value_ne (abs_pos.1 ((ten_zpow_pos _).trans_le ((pow_adjusted_le ha).trans h)))
    have hbetween : |a.value| ≤ 10 ^ b.adjusted :=
      (abs_value_lt a).le.trans (zpow_le_zpow_right₀ (by norm_num) hlt)
    -- the power of ten that lies between the two numbers is on both grids
    obtain ⟨n, hn⟩ := Rounding.exists_pow hla
    obtain ⟨m, hm⟩ := Rounding.exists_pow hlb
    calc Rounding.toPlace .halfEven (ca.lastPlace a) |a.value|
        ≤ 10 ^ b.adjusted := hn ▸ Rounding.toPlace_le (hn ▸ hbetween)
      _ ≤ Rounding.toPlace .halfEven (cb.lastPlace b) |b.value| :=
          hm ▸ Rounding.le_toPlace (hm ▸ pow_adjusted_le hb)

/-- The digits that a context cuts a number to, if it has too many, are those that it keeps. -/
theorem value_cut (ctx : Context) (d : Decimal) {e : Int}
    (he : e = max d.exponent (ctx.lastPlace d)) :
    (⟨d.negative, if e ≤ d.exponent then d.coefficient * pow10 (d.exponent - e).toNat
      else cutDigits .halfEven d.negative d.coefficient (e - d.exponent).toNat, e⟩ : Decimal).value =
      ctx.kept d := by
  rw [value_quantized, kept, ← Rounding.toPlace]
  rcases le_total d.exponent (ctx.lastPlace d) with hle | hle
  · rw [he, max_eq_right hle]
  · obtain ⟨m, hm⟩ := exists_int_of_le (le_refl d.exponent)
    obtain ⟨n, hn⟩ := Rounding.exists_int_mul m hle
    rw [he, max_eq_left hle, hm, Rounding.toPlace_int_mul, hn, Rounding.toPlace_int_mul]

/-- What is kept of a number is the result, unless it has become too large. -/
theorem fit_eq (hprecision : 0 < ctx.precision) (hd : d.isZero = false)
    (hmax : d.adjusted ≤ ctx.maxExponent) :
    ∃ r, ctx.fit d = (if ctx.maxExponent < r.adjusted then .error .overflow else .ok r) ∧
      r.value = ctx.kept d ∧ r.digits ≤ ctx.precision ∧ ctx.tiny ≤ r.exponent ∧
      (r.isZero = true → r.exponent = ctx.lastPlace d) := by
  unfold fit
  rw [hd, if_neg Bool.false_ne_true, if_neg hmax.not_gt]
  extract_lets e c r
  have he : e = max d.exponent (ctx.lastPlace d) := by
    simp only [e, lastPlace, adjusted]
    omega
  have hc : c = if e ≤ d.exponent then d.coefficient * pow10 (d.exponent - e).toNat
      else cutDigits .halfEven d.negative d.coefficient (e - d.exponent).toNat := by
    split
    · next hle =>
      have hexponent : e = d.exponent := by omega
      have hcut := cutDigits_mul_pow10 .halfEven d.negative d.coefficient 0
      have hone : pow10 0 = 1 := rfl
      rw [hone, mul_one] at hcut
      simp only [c, hexponent, sub_self, Int.toNat_zero, hone, mul_one]
      exact hcut
    · rfl
  have hvalue : (⟨d.negative, c, e⟩ : Decimal).value = ctx.kept d := hc ▸ ctx.value_cut d he
  have hroom : c ≤ pow10 ctx.precision := by
    have hle := ctx.abs_kept_le d
    rw [← hvalue, abs_value] at hle
    have hpow : (10 : ℚ) ^ max (d.adjusted + 1) ctx.tiny ≤ pow10 ctx.precision * 10 ^ e := by
      rw [cast_pow10, ← zpow_natCast, ← zpow_add₀ (by norm_num)]
      refine zpow_le_zpow_right₀ (by norm_num) ?_
      rw [he, lastPlace]
      omega
    exact_mod_cast le_of_mul_le_mul_right (hle.trans hpow) (ten_zpow_pos e)
  have htiny : ctx.tiny ≤ e := he ▸ le_max_of_le_right (le_max_right _ _)
  refine ⟨r, rfl, ?_⟩
  simp only [r]
  split
  · next hfull =>
    refine ⟨?_, digitCount_le (Nat.pow_lt_pow_right (by decide) (by omega)) hprecision,
      htiny.trans (Int.le_add_one le_rfl), fun hz => absurd (isZero_iff.1 hz) (pow10_pos _).ne'⟩
    have hsucc : pow10 ctx.precision = pow10 (ctx.precision - 1) * pow10 1 := by
      have hp : ctx.precision = ctx.precision - 1 + 1 := by omega
      conv_lhs => rw [hp, pow10_succ]
      rfl
    rw [← hvalue, hfull, hsucc, value_mk_mul_pow10]
    rfl
  · next hfull =>
    refine ⟨hvalue, digitCount_le (lt_of_le_of_ne hroom hfull) hprecision, htiny, fun hz => ?_⟩
    have hcz : c = 0 := isZero_iff.1 hz
    have hne : d.coefficient ≠ 0 := fun h0 => by
      rw [isZero_iff.2 h0] at hd
      cases hd
    have hgt : ¬e ≤ d.exponent := by
      intro hle
      rw [if_pos hle, hcz] at hc
      exact Nat.mul_ne_zero hne (pow10_pos _).ne' hc.symm
    simp only
    omega

/-- A number below the largest exponent is fitted. -/
theorem exists_fit (hs : ctx.Standard) (hprecision : 0 < ctx.precision) (hd : d.isZero = false)
    (hmax : d.adjusted < ctx.maxExponent) :
    ∃ r, ctx.fit d = .ok r ∧ r.value = ctx.kept d := by
  have htiny := tiny_le_maxExponent hs
  obtain ⟨r, hr, hvalue, -, -, hzero⟩ := fit_eq hprecision hd hmax.le
  refine ⟨r, ?_, hvalue⟩
  have hover : r.adjusted ≤ ctx.maxExponent := by
    cases hz : r.isZero with
    | true =>
        rw [adjusted_of_isZero hz, hzero hz, lastPlace]
        omega
    | false =>
        rw [adjusted_le_iff hz, hvalue]
        refine (abs_kept_le ctx d).trans_lt (zpow_lt_zpow_right₀ (by norm_num) ?_)
        omega
  rw [hr, if_neg hover.not_gt]

end Context

end Decimal

end Payroll
