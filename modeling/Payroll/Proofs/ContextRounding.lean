import Mathlib
import Payroll.Proofs.RoundingOrder

/-!
What a context makes of numbers. Rounding to the digits of a context keeps the order of numbers, and
sums, differences and products are the exact ones rounded so, also where a summand far below the other
has been replaced.
-/

namespace Payroll

namespace Decimal

variable {a b d r big small : Decimal} {x y u : ℚ} {e g : Int}

theorem adjusted_eq_log (h : d.isZero = false) : d.adjusted = Int.log 10 |d.value| := by
  have hten : 1 < 10 := by decide
  have hlow : ((10 : ℕ) : ℚ) ^ d.adjusted ≤ |d.value| := pow_adjusted_le h
  have hhigh : |d.value| < ((10 : ℕ) : ℚ) ^ (d.adjusted + 1) := abs_value_lt d
  have hpos : 0 < |d.value| := (ten_zpow_pos d.adjusted).trans_le hlow
  refine le_antisymm ((Int.zpow_le_iff_le_log hten hpos).1 hlow) ?_
  exact Int.lt_add_one_iff.1 ((Int.lt_zpow_iff_log_lt hten hpos).1 hhigh)

theorem pow_log_le (h : x ≠ 0) : (10 : ℚ) ^ Int.log 10 |x| ≤ |x| := by
  exact_mod_cast Int.zpow_log_le_self (b := 10) (by decide) (abs_pos.2 h)

theorem abs_lt_pow_log (x : ℚ) : |x| < 10 ^ (Int.log 10 |x| + 1) := by
  exact_mod_cast Int.lt_zpow_succ_log_self (b := 10) (by decide) |x|

theorem le_log (h : 10 ^ e ≤ |x|) : e ≤ Int.log 10 |x| :=
  (Int.zpow_le_iff_le_log (by decide) ((ten_zpow_pos e).trans_le h)).1 (by exact_mod_cast h)

/-- No multiple of the unit tells the numbers apart. -/
def Beside (u x y : ℚ) : Prop := ∀ m : ℤ, (x < m * u ↔ y < m * u) ∧ (m * u < x ↔ m * u < y)

namespace Beside

theorem symm (h : Beside u x y) : Beside u y x := fun m => ⟨(h m).1.symm, (h m).2.symm⟩

theorem of_between {m : ℤ} (hu : 0 < u) (hx : m * u < x) (hx' : x < (m + 1) * u) (hy : m * u < y)
    (hy' : y < (m + 1) * u) : Beside u x y := by
  intro n
  rcases lt_or_ge m n with h | h
  · have hn : ((m : ℚ) + 1) * u ≤ n * u :=
      mul_le_mul_of_nonneg_right (by exact_mod_cast h) hu.le
    exact ⟨iff_of_true (hx'.trans_le hn) (hy'.trans_le hn),
      iff_of_false (hx'.trans_le hn).not_gt (hy'.trans_le hn).not_gt⟩
  · have hn : (n : ℚ) * u ≤ m * u := mul_le_mul_of_nonneg_right (by exact_mod_cast h) hu.le
    exact ⟨iff_of_false (hn.trans_lt hx).not_gt (hn.trans_lt hy).not_gt,
      iff_of_true (hn.trans_lt hx) (hn.trans_lt hy)⟩

/-- A unit that is a multiple has fewer multiples. -/
theorem widen {v : ℚ} (h : Beside u x y) {j : ℤ} (hv : v = j * u) : Beside v x y := by
  intro m
  have hm : (m : ℚ) * v = (m * j : ℤ) * u := by
    rw [hv]
    push_cast
    ring
  rw [hm]
  exact h (m * j)

theorem scale (h : Beside (x := x) (y := y) u) {c : ℚ} (hc : 0 < c) : Beside (u / c) (x / c) (y / c) := by
  intro m
  rw [← mul_div_assoc, div_lt_div_iff_of_pos_right hc, div_lt_div_iff_of_pos_right hc,
    div_lt_div_iff_of_pos_right hc, div_lt_div_iff_of_pos_right hc]
  exact h m

theorem abs (h : Beside u x y) : Beside u |x| |y| := by
  obtain ⟨hneg, -⟩ := h 0
  rw [Int.cast_zero, zero_mul] at hneg
  intro m
  rcases lt_or_ge x 0 with hx | hx
  · obtain ⟨hlow, hhigh⟩ := h (-m)
    rw [Int.cast_neg, neg_mul] at hlow hhigh
    rw [abs_of_neg hx, abs_of_neg (hneg.1 hx)]
    exact ⟨neg_lt.trans (hhigh.trans neg_lt.symm), lt_neg.trans (hlow.trans lt_neg.symm)⟩
  · rw [abs_of_nonneg hx, abs_of_nonneg (not_lt.1 fun hy => hx.not_gt (hneg.2 hy))]
    exact h m

theorem eq_of_mul {m : ℤ} (h : Beside u x y) (hx : x = m * u) : x = y :=
  hx.trans (le_antisymm (not_lt.1 fun hy => ((h m).1.2 hy).ne hx)
    (not_lt.1 fun hy => ((h m).2.2 hy).ne' hx))

end Beside

namespace Rounding

/-- The halves decide to which integer a number is rounded. -/
theorem nearest_congr (h : Beside (1 / 2) x y) : nearest .halfEven x = nearest .halfEven y := by
  have htie {z : ℚ} (hz : Int.fract z = 1 / 2) : z = ((2 * ⌊z⌋ + 1 : ℤ) : ℚ) * (1 / 2) := by
    have hsplit := Int.floor_add_fract z
    rw [hz] at hsplit
    push_cast
    linarith
  by_cases hx : Int.fract x = 1 / 2
  · rw [h.eq_of_mul (htie hx)]
  · by_cases hy : Int.fract y = 1 / 2
    · rw [h.symm.eq_of_mul (htie hy)]
    · rw [nearest, nearest, if_neg fun hc => hx hc.1, if_neg fun hc => hy hc.1, Int.floor_eq_iff]
      have hlow := Int.floor_le (y + 1 / 2)
      have hhigh := Int.lt_floor_add_one (y + 1 / 2)
      generalize ⌊y + 1 / 2⌋ = n at hlow hhigh ⊢
      have hbelow := (h (2 * n - 1)).1
      have habove := (h (2 * n + 1)).1
      push_cast at hbelow habove
      constructor
      · refine not_lt.1 fun hlt => ?_
        have := hbelow.1 (by linarith)
        linarith
      · have := habove.2 (by linarith)
        linarith

theorem abs_nearest_halfEven_sub_le (x : ℚ) : |(nearest .halfEven x : ℚ) - x| ≤ 1 / 2 := by
  rw [nearest]
  split
  · next h =>
    have hsplit := Int.floor_add_fract x
    rw [h.1] at hsplit
    exact abs_le.2 ⟨by linarith, by linarith⟩
  · have hlow := Int.floor_le (x + 1 / 2)
    have hhigh := Int.lt_floor_add_one (x + 1 / 2)
    exact abs_le.2 ⟨by linarith, by linarith⟩

theorem toPlace_congr {p : Int} (h : Beside u x y) {j : ℤ} (hj : (10 : ℚ) ^ p / 2 = j * u) :
    toPlace .halfEven p x = toPlace .halfEven p y := by
  have hpos := ten_zpow_pos p
  have hhalf : (10 : ℚ) ^ p / 2 / 10 ^ p = 1 / 2 := by
    rw [div_right_comm, div_self hpos.ne']
  have hscaled := (h.widen hj).scale hpos
  rw [hhalf] at hscaled
  rw [toPlace, toPlace, nearest_congr hscaled]

end Rounding

namespace Context

variable {ctx : Context}

theorem rounded_eq (ctx : Context) (x : ℚ) :
    ctx.rounded x = Rounding.toPlace .halfEven (ctx.place x) x := rfl

theorem rounded_zero (ctx : Context) : ctx.rounded 0 = 0 := by
  have hzero := Rounding.toPlace_int_mul .halfEven (ctx.place 0) 0
  rwa [Int.cast_zero, zero_mul] at hzero

theorem rounded_neg (ctx : Context) (x : ℚ) : ctx.rounded (-x) = -ctx.rounded x := by
  rw [rounded_eq, rounded_eq, place, abs_neg, Rounding.toPlace_neg]
  rfl

theorem rounded_nonneg (h : 0 ≤ x) : 0 ≤ ctx.rounded x := Rounding.toPlace_nonneg h

theorem rounded_abs (ctx : Context) (x : ℚ) : ctx.rounded |x| = |ctx.rounded x| := by
  rcases le_total 0 x with h | h
  · rw [abs_of_nonneg h, abs_of_nonneg (rounded_nonneg h)]
  · have hneg : 0 ≤ ctx.rounded (-x) := rounded_nonneg (neg_nonneg.2 h)
    rw [abs_of_nonpos h, rounded_neg]
    rw [rounded_neg] at hneg
    exact (abs_of_nonpos (neg_nonneg.1 hneg)).symm

theorem kept_eq_rounded (ctx : Context) (d : Decimal) : ctx.kept d = ctx.rounded d.value := by
  cases hz : d.isZero with
  | true =>
      rw [value_eq_zero.2 hz, rounded_zero, ← abs_eq_zero, abs_kept, value_eq_zero.2 hz, abs_zero]
      have hzero := Rounding.toPlace_int_mul .halfEven (ctx.lastPlace d) 0
      rwa [Int.cast_zero, zero_mul] at hzero
  | false => rw [kept, rounded_eq, lastPlace, place, adjusted_eq_log hz]

theorem place_mono (hx : x ≠ 0) (h : |x| ≤ |y|) : ctx.place x ≤ ctx.place y := by
  have hlog := le_log ((pow_log_le hx).trans h)
  rw [place, place]
  omega

theorem rounded_le_rounded (hprecision : 0 < ctx.precision) (hx : 0 ≤ x) (h : x ≤ y) :
    ctx.rounded x ≤ ctx.rounded y := by
  rcases hx.eq_or_lt with rfl | hpos
  · rw [rounded_zero]
    exact rounded_nonneg h
  · have habs : |x| ≤ |y| := by rwa [abs_of_nonneg hx, abs_of_nonneg (hx.trans h)]
    rw [rounded_eq, rounded_eq]
    have hplace : ctx.place x ≤ ctx.place y := place_mono hpos.ne' habs
    rcases hplace.eq_or_lt with heq | hlt
    · rw [heq]
      exact Rounding.toPlace_mono _ _ h
    · -- the leading power of ten of the larger number is on both grids
      have hxlog := abs_lt_pow_log x
      have hylog := pow_log_le (hpos.trans_le h).ne'
      rw [abs_of_nonneg (hx.trans h)] at hylog
      have hplaces : ctx.place x ≤ Int.log 10 |y| ∧ ctx.place y ≤ Int.log 10 |y| ∧
          Int.log 10 |x| + 1 ≤ Int.log 10 |y| := by
        rw [place, place] at hlt
        rw [place, place]
        omega
      have hxle : x ≤ 10 ^ Int.log 10 |y| := by
        rw [abs_of_nonneg hx] at hxlog hplaces
        exact hxlog.le.trans (zpow_le_zpow_right₀ (by norm_num) hplaces.2.2)
      rw [abs_of_nonneg (hx.trans h)] at hxle hplaces
      obtain ⟨n, hn⟩ := Rounding.exists_pow hplaces.1
      obtain ⟨m, hm⟩ := Rounding.exists_pow hplaces.2.1
      calc Rounding.toPlace .halfEven (ctx.place x) x ≤ 10 ^ Int.log 10 y :=
            hn ▸ Rounding.toPlace_le (hn ▸ hxle)
        _ ≤ Rounding.toPlace .halfEven (ctx.place y) y :=
            hm ▸ Rounding.le_toPlace (hm ▸ hylog)

theorem rounded_mono (hprecision : 0 < ctx.precision) : Monotone ctx.rounded := by
  intro x y h
  rcases le_total 0 x with hx | hx
  · exact rounded_le_rounded hprecision hx h
  · rcases le_total 0 y with hy | hy
    · have hneg : 0 ≤ ctx.rounded (-x) := rounded_nonneg (neg_nonneg.2 hx)
      rw [rounded_neg] at hneg
      exact (neg_nonneg.1 hneg).trans (rounded_nonneg hy)
    · have hneg := rounded_le_rounded hprecision (neg_nonneg.2 hy) (neg_le_neg h)
      rw [rounded_neg, rounded_neg] at hneg
      exact neg_le_neg_iff.1 hneg

theorem rounded_pow (hprecision : 0 < ctx.precision) (h : ctx.tiny ≤ e) :
    ctx.rounded (10 ^ e) = 10 ^ e := by
  have hlog : Int.log 10 |(10 : ℚ) ^ e| = e := by
    rw [abs_of_pos (ten_zpow_pos e)]
    exact_mod_cast Int.log_zpow (R := ℚ) (b := 10) (by decide) e
  obtain ⟨n, hn⟩ := Rounding.exists_pow (e := ctx.place (10 ^ e)) (k := e) (by rw [place]; omega)
  rw [rounded_eq]
  generalize ctx.place (10 ^ e) = p at hn
  rw [hn, Rounding.toPlace_int_mul]

theorem abs_rounded_le (hprecision : 0 < ctx.precision) (he : ctx.tiny ≤ e) (h : |x| ≤ 10 ^ e) :
    |ctx.rounded x| ≤ 10 ^ e := by
  rw [← rounded_abs, ← rounded_pow hprecision he]
  exact rounded_mono hprecision h

theorem Represents.abs_lt (h : ctx.Represents x) : |x| < 10 ^ (ctx.maxExponent + 1) := by
  obtain ⟨d, rfl, -, -, hmax⟩ := h
  exact (abs_value_lt d).trans_le (zpow_le_zpow_right₀ (by norm_num) (by omega))

/-- A multiple of the last place that a number is rounded to. -/
theorem exists_int_of_represents (h : ctx.Represents x) (hp : g ≤ ctx.place x) :
    ∃ m : ℤ, x = m * 10 ^ g := by
  obtain ⟨d, rfl, hdigits, htiny, -⟩ := h
  cases hz : d.isZero with
  | true => exact ⟨0, by rw [value_eq_zero.2 hz, Int.cast_zero, zero_mul]⟩
  | false =>
      have hplace : ctx.place d.value ≤ d.exponent := by
        rw [place, ← adjusted_eq_log hz, adjusted]
        omega
      exact exists_int_of_le (hp.trans hplace)

theorem rounded_of_represents (h : ctx.Represents x) : ctx.rounded x = x := by
  obtain ⟨m, hm⟩ := exists_int_of_represents h le_rfl
  rw [rounded_eq]
  generalize ctx.place x = p at hm
  rw [hm, Rounding.toPlace_int_mul]

theorem abs_rounded_sub_le (ctx : Context) (x : ℚ) :
    |ctx.rounded x - x| ≤ 10 ^ ctx.place x / 2 := by
  have hpos := ten_zpow_pos (ctx.place x)
  have hdiff : ctx.rounded x - x = (Rounding.nearest .halfEven (x / 10 ^ ctx.place x) -
      x / 10 ^ ctx.place x) * 10 ^ ctx.place x := by
    rw [rounded, sub_mul, div_mul_cancel₀ _ hpos.ne']
  have hhalf := mul_le_mul_of_nonneg_right
    (Rounding.abs_nearest_halfEven_sub_le (x / 10 ^ ctx.place x)) hpos.le
  rw [hdiff, abs_mul, abs_of_pos hpos]
  linarith

/-- Only what is at most half of the least number is rounded away. -/
theorem abs_le_of_rounded_eq_zero (hprecision : 0 < ctx.precision) (h : ctx.rounded x = 0) :
    |x| ≤ 10 ^ ctx.tiny / 2 := by
  rcases eq_or_ne x 0 with rfl | hx
  · rw [abs_zero]
    exact (half_pos (ten_zpow_pos _)).le
  · have hsmall : |x| < ((10 : ℕ) : ℚ) ^ ctx.tiny := by
      refine not_le.1 fun hle => ?_
      have hrounded := rounded_mono hprecision hle
      rw [Nat.cast_ofNat, rounded_pow hprecision le_rfl, rounded_abs, h, abs_zero] at hrounded
      exact hrounded.not_gt (ten_zpow_pos _)
    have hplace : ctx.place x = ctx.tiny := by
      have hlog := (Int.lt_zpow_iff_log_lt (by decide) (abs_pos.2 hx)).1 hsmall
      rw [place]
      omega
    have hnear := ctx.abs_rounded_sub_le x
    rwa [h, zero_sub, abs_neg, hplace] at hnear

/-- A number that is so far from zero that half of the least number is less than half of its last place
stays what it is if no more than that is taken from it. -/
theorem le_rounded_of_near (hprecision : 0 < ctx.precision) (hx : ctx.Represents x)
    (hlarge : 10 ^ (ctx.tiny + ctx.precision + 1) ≤ x) (h : x - 10 ^ ctx.tiny / 2 ≤ y) :
    x ≤ ctx.rounded y := by
  refine le_trans ?_ (rounded_mono hprecision h)
  generalize hz : x - 10 ^ ctx.tiny / 2 = z
  have htiny := ten_zpow_pos ctx.tiny
  have hpow : (10 : ℚ) ^ (ctx.tiny + ctx.precision) ≤ z := by
    have hle : (10 : ℚ) ^ ctx.tiny ≤ 10 ^ (ctx.tiny + ctx.precision) :=
      zpow_le_zpow_right₀ (by norm_num) (by omega)
    rw [zpow_add_one₀ (by norm_num)] at hlarge
    linarith
  have hzpos : 0 < z := (ten_zpow_pos _).trans_le hpow
  have hplace : ctx.tiny + 1 ≤ ctx.place z := by
    have hlog := le_log (x := z) (by rwa [abs_of_pos hzpos])
    rw [place]
    omega
  obtain ⟨m, hm⟩ := exists_int_of_represents hx (g := ctx.place z) (place_mono hzpos.ne' (by
    rw [abs_of_pos hzpos, abs_of_pos (by linarith)]
    linarith))
  have hnear := (abs_le.1 (ctx.abs_rounded_sub_le z)).1
  have hunit : (10 : ℚ) ^ ctx.tiny < 10 ^ ctx.place z :=
    zpow_lt_zpow_right₀ (by norm_num) (by omega)
  rw [rounded_eq, Rounding.toPlace] at hnear ⊢
  have hpos := ten_zpow_pos (ctx.place z)
  generalize (10 : ℚ) ^ ctx.place z = p at hm hnear hunit hpos ⊢
  generalize Rounding.nearest .halfEven (z / p) = n at hnear ⊢
  -- both are multiples of the place, and less than one place apart
  have hlt : ((m - 1 : ℤ) : ℚ) * p < n * p := by
    push_cast
    linarith
  have hle : m ≤ n := Int.le_of_sub_one_lt (by exact_mod_cast lt_of_mul_lt_mul_right hlt hpos.le)
  rw [hm]
  exact mul_le_mul_of_nonneg_right (by exact_mod_cast hle) hpos.le

theorem fit_zero (ctx : Context) (s : Bool) (e : Int) :
    ctx.fit ⟨s, 0, e⟩ = .ok ⟨s, 0, max ctx.tiny (min e ctx.maxExponent)⟩ := if_pos rfl

/-- Digits are cut off, never added. -/
theorem le_exponent_of_fit (h : ctx.fit d = .ok r) : min d.exponent ctx.maxExponent ≤ r.exponent := by
  unfold fit at h
  split at h
  · cases h
    exact le_max_right _ _
  · split at h
    · cases h
    · extract_lets e c x at h
      split at h
      · cases h
      · rw [← Except.ok.inj h]
        have he : d.exponent ≤ e := le_max_left _ _
        simp only [x]
        split <;> simp only <;> omega

theorem adjusted_le_of_fit (hs : ctx.Standard) (h : ctx.fit d = .ok r) :
    r.adjusted ≤ ctx.maxExponent := by
  unfold fit at h
  split at h
  · cases h
    have hzero (s : Bool) (e : Int) : (⟨s, 0, e⟩ : Decimal).adjusted = e := adjusted_of_isZero rfl
    rw [hzero]
    exact max_le (tiny_le_maxExponent hs) (min_le_right _ _)
  · split at h
    · cases h
    · extract_lets e c x at h
      split at h
      · cases h
      · next hover =>
        rw [← Except.ok.inj h]
        exact not_lt.1 hover

theorem adjusted_le_of_quantize {mode : Rounding} (hs : ctx.Standard)
    (h : ctx.quantize mode e d = .ok r) : r.adjusted ≤ ctx.maxExponent := by
  unfold quantize at h
  split at h
  · cases h
  · split at h
    · exact adjusted_le_of_fit hs h
    · split at h
      · cases h
      · extract_lets c x at h
        split at h
        · cases h
        · exact adjusted_le_of_fit hs h

theorem le_exponent_of_quantize {mode : Rounding} (h : ctx.quantize mode e d = .ok r) :
    e ≤ r.exponent := by
  unfold quantize at h
  split at h
  · cases h
  · next hrange =>
    have hfit {d : Decimal} (hd : d.exponent = e) (hr : ctx.fit d = .ok r) : e ≤ r.exponent := by
      have := le_exponent_of_fit hr
      omega
    split at h
    · exact hfit rfl h
    · split at h
      · cases h
      · extract_lets c x at h
        split at h
        · cases h
        · exact hfit rfl h

section Fit

variable (hprecision : 0 < ctx.precision)

include hprecision

theorem fit_cases (h : ctx.fit d = .ok r) : r.value = ctx.rounded d.value ∧
    r.digits ≤ ctx.precision ∧ ctx.tiny ≤ r.exponent ∧ (d.isZero = true → r.isZero = true) := by
  cases hz : d.isZero with
  | true =>
      rw [fit, if_pos hz] at h
      cases h
      have hzero (s : Bool) (e : Int) : (⟨s, 0, e⟩ : Decimal).isZero = true := rfl
      refine ⟨?_, ?_, le_max_left _ _, fun _ => rfl⟩
      · rw [value_zero, value_eq_zero.2 hz, rounded_zero]
      · rw [digits_of_isZero (hzero _ _)]
        exact hprecision
  | false =>
      have hmax : d.adjusted ≤ ctx.maxExponent := by
        by_contra hlarge
        rw [fit, hz, if_neg Bool.false_ne_true, if_pos (not_le.1 hlarge)] at h
        cases h
      obtain ⟨r', hr', hvalue, hdigits, htiny, -⟩ := fit_eq hprecision hz hmax
      rw [hr'] at h
      split at h
      · cases h
      · cases h
        exact ⟨hvalue.trans (ctx.kept_eq_rounded d), hdigits, htiny, nofun⟩

theorem value_of_fit (h : ctx.fit d = .ok r) : r.value = ctx.rounded d.value :=
  (fit_cases hprecision h).1

theorem represents_of_fit (hs : ctx.Standard) (h : ctx.fit d = .ok r) : ctx.Represents r.value :=
  ⟨r, rfl, (fit_cases hprecision h).2.1, (fit_cases hprecision h).2.2.1, adjusted_le_of_fit hs h⟩

/-- What is not rounded beyond the largest exponent is fitted. -/
theorem exists_fit_of_rounded (hs : ctx.Standard)
    (h : |ctx.rounded d.value| < 10 ^ (ctx.maxExponent + 1)) : ∃ r, ctx.fit d = .ok r := by
  cases hz : d.isZero with
  | true => exact ⟨_, if_pos hz⟩
  | false =>
      have htiny := tiny_le_maxExponent hs
      have hmax : d.adjusted ≤ ctx.maxExponent := by
        rw [adjusted_le_iff hz]
        refine not_le.1 fun hlarge => h.not_ge ?_
        rw [← rounded_abs, ← rounded_pow hprecision (e := ctx.maxExponent + 1) (by omega)]
        exact rounded_mono hprecision hlarge
      obtain ⟨r, hr, hvalue, -, -, hzero⟩ := fit_eq hprecision hz hmax
      have hover : r.adjusted ≤ ctx.maxExponent := by
        cases hrz : r.isZero with
        | true =>
            rw [adjusted_of_isZero hrz, hzero hrz, lastPlace]
            omega
        | false => rwa [adjusted_le_iff hrz, hvalue, kept_eq_rounded]
      exact ⟨r, hr.trans (if_neg hover.not_gt)⟩

end Fit

section Sum

theorem rounded_congr (hprecision : 0 < ctx.precision) (h : Beside (10 ^ g / 2) x y)
    (hx : 10 ^ (g + ctx.precision - 1) ≤ |x|) : ctx.rounded x = ctx.rounded y := by
  have hmul {k : Int} (hk : g ≤ k) : ∃ j : ℤ, (10 : ℚ) ^ k = j * (10 ^ g / 2) := by
    obtain ⟨n, hn⟩ := Rounding.exists_pow hk
    refine ⟨n * 2, ?_⟩
    rw [hn]
    push_cast
    ring
  have hlog := le_log hx
  have hpow {k : Int} (hk : g ≤ k) : 10 ^ k ≤ |x| ↔ 10 ^ k ≤ |y| := by
    obtain ⟨j, hj⟩ := hmul hk
    rw [hj, ← not_lt, ← not_lt, (h.abs j).1]
  have hxne : x ≠ 0 := abs_pos.1 ((ten_zpow_pos _).trans_le hx)
  have hyx : Int.log 10 |x| ≤ Int.log 10 |y| := le_log ((hpow (by omega)).1 (pow_log_le hxne))
  have hyne : y ≠ 0 := abs_pos.1 ((ten_zpow_pos _).trans_le ((hpow (by omega)).1 hx))
  have hxy : Int.log 10 |y| ≤ Int.log 10 |x| := le_log ((hpow (by omega)).2 (pow_log_le hyne))
  have hplace : ctx.place x = ctx.place y := by
    rw [place, place, hyx.antisymm hxy]
  obtain ⟨j, hj⟩ : ∃ j : ℤ, (10 : ℚ) ^ ctx.place x / 2 = j * (10 ^ g / 2) := by
    obtain ⟨n, hn⟩ := Rounding.exists_pow (e := g) (k := ctx.place x) (by rw [place]; omega)
    exact ⟨n, by rw [hn, mul_div_assoc]⟩
  rw [rounded_eq, rounded_eq, ← hplace]
  exact Rounding.toPlace_congr h hj

/-- A unit so far below a number takes no more than its leading place. -/
theorem pow_le_abs_add_unit (hbig : big.isZero = false) {e : Int}
    (he : e + 1 + ctx.precision ≤ big.adjusted) (s : Bool) :
    (10 : ℚ) ^ (e + 1 + ctx.precision - 1) ≤ |big.value + (⟨s, 1, e⟩ : Decimal).value| := by
  have hlead : (10 : ℚ) ^ (e + 1 + ctx.precision) ≤ |big.value| :=
    (zpow_le_zpow_right₀ (by norm_num) he).trans (pow_adjusted_le hbig)
  have hstep : (10 : ℚ) ^ (e + 1 + ctx.precision) = 10 * 10 ^ (e + 1 + ctx.precision - 1) := by
    rw [← zpow_one_add₀ (by norm_num)]
    congr 1
    omega
  have hle : (10 : ℚ) ^ e ≤ 10 ^ (e + 1 + ctx.precision - 1) :=
    zpow_le_zpow_right₀ (by norm_num) (by omega)
  have hunit : |(⟨s, 1, e⟩ : Decimal).value| = 10 ^ e := by rw [abs_value, Nat.cast_one, one_mul]
  have htriangle := abs_sub_abs_le_abs_add big.value (⟨s, 1, e⟩ : Decimal).value
  have hpos := ten_zpow_pos e
  rw [hunit] at htriangle
  linarith

/-- A summand far below the other is replaced by one on the same side of all that rounding looks at. -/
theorem rounded_nudge (hprecision : 0 < ctx.precision) (hbig : big.isZero = false) :
    ctx.rounded (big.value + (ctx.nudge big small).value) = ctx.rounded (big.value + small.value) := by
  rw [nudge]
  split
  · next hlow =>
    have hadjusted : big.adjusted = big.exponent + big.digits - 1 := rfl
    generalize he : big.exponent - 1 + min 0 ((big.digits : Int) - ctx.precision - 1) = e at hlow ⊢
    cases hz : small.isZero with
    | true =>
        rw [isZero_iff.1 hz, value_eq_zero.2 hz]
        exact congrArg _ (congrArg _ (value_zero _ _))
    | false =>
        have hunit : min small.coefficient 1 = 1 := by
          have hne : small.coefficient ≠ 0 := by simpa [isZero] using hz
          omega
        obtain ⟨n, hn⟩ := exists_int_of_le (d := big) (e := e + 1) (by omega)
        have hten : (10 : ℚ) ^ (e + 1) = 10 * 10 ^ e := by
          rw [zpow_add_one₀ (by norm_num), mul_comm]
        have hsmall : |small.value| < 10 ^ e :=
          (abs_value_lt small).trans_le (zpow_le_zpow_right₀ (by norm_num) hlow)
        rw [hunit]
        refine rounded_congr hprecision ?_ (pow_le_abs_add_unit hbig (by omega) _)
        rw [hn, hten]
        cases hs : small.negative with
        | false =>
            have hlt : 0 < small.value := lt_of_le_of_ne (value_nonneg hs)
              fun h0 => by simp [value_eq_zero.1 h0.symm] at hz
            rw [abs_of_pos hlt] at hsmall
            rw [value_mk, Nat.cast_one, one_mul]
            refine Beside.of_between (m := 2 * n) (by positivity) ?_ ?_ ?_ ?_ <;> push_cast <;> linarith
        | true =>
            have hlt : small.value < 0 := lt_of_le_of_ne (value_nonpos hs)
              fun h0 => by simp [value_eq_zero.1 h0] at hz
            rw [abs_of_neg hlt] at hsmall
            rw [value_mk_neg, value_mk, Nat.cast_one, one_mul]
            refine Beside.of_between (m := 2 * n - 1) (by positivity) ?_ ?_ ?_ ?_ <;> push_cast <;>
              linarith
  · rfl

/-- A sum is that of the numbers, rounded once. -/
theorem exists_add (ctx : Context) (hprecision : 0 < ctx.precision) (a b : Decimal) :
    ∃ d, ctx.add a b = ctx.fit d ∧ ctx.rounded d.value = ctx.rounded (a.value + b.value) := by
  have hsum {big small : Decimal} (he : small.exponent ≤ big.exponent) :
      ∃ d, (if big.isZero then ctx.fit (sumAligned ⟨big.negative, 0, small.exponent⟩ small)
          else ctx.fit (sumAligned big (ctx.nudge big small))) = ctx.fit d ∧
        ctx.rounded d.value = ctx.rounded (big.value + small.value) := by
    split
    · next hz =>
      refine ⟨_, rfl, ?_⟩
      have hle : small.exponent ≤ (⟨big.negative, 0, small.exponent⟩ : Decimal).exponent := le_rfl
      rw [value_sumAligned hle, value_zero, value_eq_zero.2 hz]
    · next hz =>
      refine ⟨_, rfl, ?_⟩
      have hle : (ctx.nudge big small).exponent ≤ big.exponent := by
        rw [nudge]
        split
        · simp only
          omega
        · exact he
      rw [value_sumAligned hle, rounded_nudge hprecision (by simpa using hz)]
  unfold add
  by_cases he : b.exponent ≤ a.exponent
  · simp only [if_pos he]
    exact hsum he
  · simp only [if_neg he]
    rw [add_comm a.value]
    exact hsum (by omega)

section

variable (hprecision : 0 < ctx.precision)

include hprecision

theorem value_of_add (h : ctx.add a b = .ok r) : r.value = ctx.rounded (a.value + b.value) := by
  obtain ⟨d, hd, hvalue⟩ := ctx.exists_add hprecision a b
  rw [← hvalue]
  exact value_of_fit hprecision (hd ▸ h)

theorem value_of_sub (h : ctx.sub a b = .ok r) : r.value = ctx.rounded (a.value - b.value) := by
  rw [sub_eq_add_neg, ← value_flip]
  exact value_of_add hprecision h

theorem value_of_mul (h : ctx.mul a b = .ok r) : r.value = ctx.rounded (a.value * b.value) := by
  rw [← value_mul]
  exact value_of_fit hprecision h

theorem value_of_neg (h : ctx.neg d = .ok r) : r.value = ctx.rounded (-d.value) := by
  rw [← value_negation]
  exact value_of_fit hprecision h

theorem value_of_abs (h : ctx.abs d = .ok r) : r.value = ctx.rounded |d.value| := by
  rw [abs_value, ← value_mk]
  exact value_of_fit hprecision h

theorem represents_of_add (hs : ctx.Standard) (h : ctx.add a b = .ok r) :
    ctx.Represents r.value := by
  obtain ⟨d, hd, -⟩ := ctx.exists_add hprecision a b
  exact represents_of_fit hprecision hs (hd ▸ h)

end

end Sum

/-- A result that is no larger than a power of ten, and written within the limits. -/
def YieldsWithin (ctx : Context) (r : Except Signal Decimal) (e : Int) : Prop :=
  ∃ d, r = .ok d ∧ |d.value| ≤ 10 ^ e ∧ d.adjusted ≤ ctx.maxExponent

section Within

variable (hs : ctx.Standard) (hprecision : 0 < ctx.precision) (hlow : ctx.tiny ≤ e)
  (hhigh : e ≤ ctx.maxExponent)

include hs hprecision hlow hhigh

theorem yieldsWithin_fit (hx : |x| ≤ 10 ^ e) (h : ctx.rounded d.value = ctx.rounded x) :
    ctx.YieldsWithin (ctx.fit d) e := by
  have hsize := abs_rounded_le hprecision hlow hx
  have hlt : (10 : ℚ) ^ e < 10 ^ (ctx.maxExponent + 1) := zpow_lt_zpow_right₀ (by norm_num) (by omega)
  obtain ⟨r, hr⟩ := exists_fit_of_rounded hprecision hs (h ▸ hsize.trans_lt hlt)
  refine ⟨r, hr, ?_, adjusted_le_of_fit hs hr⟩
  rwa [value_of_fit hprecision hr, h]

theorem yieldsWithin_add (h : |a.value + b.value| ≤ 10 ^ e) : ctx.YieldsWithin (ctx.add a b) e := by
  obtain ⟨d, hd, hvalue⟩ := ctx.exists_add hprecision a b
  exact hd ▸ yieldsWithin_fit hs hprecision hlow hhigh h hvalue

theorem yieldsWithin_sub (h : |a.value - b.value| ≤ 10 ^ e) : ctx.YieldsWithin (ctx.sub a b) e := by
  rw [sub_eq_add_neg, ← value_flip] at h
  exact yieldsWithin_add hs hprecision hlow hhigh h

theorem yieldsWithin_mul (h : |a.value * b.value| ≤ 10 ^ e) : ctx.YieldsWithin (ctx.mul a b) e :=
  yieldsWithin_fit hs hprecision hlow hhigh h (congrArg ctx.rounded (value_mul a b))

end Within

end Context

end Decimal

end Payroll
