import Mathlib
import Payroll.Proofs.FormulaReplay
import Payroll.Proofs.RoundingOrder

/-!
Rounding of any amount below the largest exponent. Four methods round the amount itself. Of a negative
amount `HALF_UP` rounds what the context keeps of it, which is a half where the amount is just below one.
-/

namespace Payroll

open Decimal (Context Rounding ordinary)
open Result

namespace RoundingMethod

variable {x y : ℚ} {places : Nat} {m : ℤ}

/-- Only `HALF_UP` is not the rounding of a context. -/
theorem nearest_cases (method : RoundingMethod) :
    method.nearest = method.mode.nearest ∨ method = .halfUp := by
  cases method with
  | halfUp => exact .inr rfl
  | _ => exact .inl rfl

theorem nearest_mono (method : RoundingMethod) : Monotone method.nearest := by
  obtain hmode | rfl := method.nearest_cases
  · exact hmode ▸ method.mode.nearest_mono
  · intro x y h
    exact Int.floor_mono (by linarith)

theorem nearest_intCast (method : RoundingMethod) (m : ℤ) : method.nearest m = m := by
  obtain hmode | rfl := method.nearest_cases
  · exact hmode ▸ method.mode.nearest_intCast m
  · have h := Decimal.floor_add_half (m := m) (le_refl (0 : ℚ)) one_pos
    rwa [add_zero, if_pos (by norm_num)] at h

theorem abs_floor_half_sub_le (x : ℚ) : |(⌊x + 1 / 2⌋ : ℚ) - x| ≤ 1 / 2 := by
  have hlow := Int.floor_le (x + 1 / 2)
  have hhigh := Int.lt_floor_add_one (x + 1 / 2)
  exact abs_le.2 ⟨by linarith, by linarith⟩

theorem abs_nearest_sub_le (method : RoundingMethod) (x : ℚ) : |(method.nearest x : ℚ) - x| ≤ 1 := by
  obtain hmode | rfl := method.nearest_cases
  · exact hmode ▸ method.mode.abs_nearest_sub_le x
  · exact (abs_floor_half_sub_le x).trans (by norm_num)

theorem exact_mono (method : RoundingMethod) (places : Nat) : Monotone (method.exact places) := by
  intro x y h
  have hpos : (0 : ℚ) < 10 ^ places := by positivity
  exact div_le_div_of_nonneg_right (Int.cast_le.2 (method.nearest_mono
    (mul_le_mul_of_nonneg_right h hpos.le))) hpos.le

theorem exact_int_div (method : RoundingMethod) (places : Nat) (m : ℤ) :
    method.exact places (m / 10 ^ places) = m / 10 ^ places := by
  have hpos : (0 : ℚ) < 10 ^ places := by positivity
  rw [exact, div_mul_cancel₀ _ hpos.ne', nearest_intCast]

theorem abs_exact_sub_le (method : RoundingMethod) (places : Nat) (x : ℚ) :
    |method.exact places x - x| ≤ 1 / 10 ^ places := by
  have hpos : (0 : ℚ) < 10 ^ places := by positivity
  have hdiff : method.exact places x - x =
      (method.nearest (x * 10 ^ places) - x * 10 ^ places) / 10 ^ places := by
    rw [exact, sub_div, mul_div_cancel_right₀ _ hpos.ne']
  rw [hdiff, abs_div, abs_of_pos hpos]
  exact div_le_div_of_nonneg_right (method.abs_nearest_sub_le _) hpos.le

theorem exact_halfUp (places : Nat) (x : ℚ) :
    exact .halfUp places x = ⌊x * 10 ^ places + 1 / 2⌋ / 10 ^ places := rfl

/-- The number that a method rounds. -/
def seen (method : RoundingMethod) (ctx : Context) (d : Decimal) : ℚ :=
  if method = .halfUp ∧ d.value < 0 then ctx.kept d else d.value

end RoundingMethod

namespace Decimal

variable {d : Decimal} {places : Nat} {x : ℚ}

theorem Rounding.toPlace_places (mode : Rounding) (places : Nat) (x : ℚ) :
    mode.toPlace (-places) x = (mode.nearest (x * 10 ^ places) : ℚ) / 10 ^ places := by
  rw [toPlace, zpow_neg, zpow_natCast, div_inv_eq_mul, ← div_eq_mul_inv]

/-- Halves go down on the other side of zero where they go up on this one. -/
theorem Rounding.toPlace_halfDown_neg (h : x ≤ 0) :
    -Rounding.toPlace .halfDown (-places) (-x) = RoundingMethod.exact .halfUp places x := by
  rw [toPlace_places, RoundingMethod.exact_negated h, neg_neg]

namespace Context

variable {ctx outer : Context}

theorem kept_flip (ctx : Context) (d : Decimal) :
    ctx.kept { d with negative := !d.negative } = -ctx.kept d := by
  rw [kept, value_flip, Rounding.toPlace_neg]
  rfl

theorem kept_nonpos (h : d.value ≤ 0) : ctx.kept d ≤ 0 := by
  have hzero := Rounding.toPlace_int_mul .halfEven (ctx.lastPlace d) 0
  rw [Int.cast_zero, zero_mul] at hzero
  exact (Rounding.toPlace_mono _ _ h).trans_eq hzero

theorem kept_eq_self {m : ℤ} {e : Int} (he : ctx.lastPlace d ≤ e) (h : d.value = m * 10 ^ e) :
    ctx.kept d = d.value := by
  obtain ⟨n, hn⟩ := Rounding.exists_int_mul m he
  rw [kept, h, hn, Rounding.toPlace_int_mul]

theorem kept_of_digits (hdigits : d.digits ≤ ctx.precision) (hlow : ctx.tiny ≤ d.exponent) :
    ctx.kept d = d.value := by
  have hplace : ctx.lastPlace d ≤ d.exponent := by
    rw [lastPlace, adjusted]
    omega
  obtain ⟨m, hm⟩ := exists_int_of_le (le_refl d.exponent)
  exact kept_eq_self hplace hm

theorem quantize_eq_self (mode : Rounding) (hdigits : d.digits ≤ ctx.precision)
    (hlow : ctx.tiny ≤ d.exponent) (hhigh : d.adjusted ≤ ctx.maxExponent) :
    ctx.quantize mode d.exponent d = .ok d := by
  have hpos : 0 < d.digits := digitCount_pos _
  obtain ⟨m, hm⟩ := exists_int_of_le (le_refl d.exponent)
  have hvalue : mode.toPlace d.exponent d.value = d.value := by rw [hm, Rounding.toPlace_int_mul]
  have hlt {e : Int} (he : d.adjusted < e) : |mode.toPlace d.exponent d.value| < 10 ^ e :=
    hvalue.symm ▸ (abs_value_lt d).trans_le (zpow_le_zpow_right₀ (by norm_num) he)
  have hroom := hlt (e := d.exponent + ctx.precision) (by rw [adjusted]; omega)
  obtain ⟨r, hr, hrvalue, hexponent, hnegative⟩ := exists_quantize (hpos.trans_le hdigits) hlow
    (by rw [adjusted] at hhigh; omega) (fun _ => hhigh) (fun _ => by omega) hroom (hlt (by omega))
  rw [hr, eq_of_value hnegative hexponent (hrvalue.trans hvalue)]

/-- Places that a context has room for beside the digits of a number before the point. -/
theorem exists_quantize_places (hs : ctx.Standard) (hplaces : places ≤ maxPlaces) (mode : Rounding)
    {k : Int} (hk : |d.value| ≤ 10 ^ k) (hmax : k ≤ ctx.maxExponent)
    (hprecision : k + places + 1 ≤ ctx.precision) (hpos : 0 < ctx.precision) :
    ∃ r, ctx.quantize mode (-places) d = .ok r ∧ r.value = mode.toPlace (-places) d.value ∧
      r.exponent = -places ∧ r.digits ≤ ctx.precision ∧ r.adjusted ≤ ctx.maxExponent := by
  have hmin := hs.minExponent
  have hmax' := hs.maxExponent
  simp only [maxPlaces] at hplaces
  have hsize : |mode.toPlace (-places) d.value| ≤ 10 ^ max k (-places) :=
    Rounding.abs_toPlace_le (le_max_right _ _)
      (hk.trans (zpow_le_zpow_right₀ (by norm_num) (le_max_left _ _)))
  have hbelow {e : Int} (he : max k (-places) < e) : |mode.toPlace (-places) d.value| < 10 ^ e :=
    hsize.trans_lt (zpow_lt_zpow_right₀ (by norm_num) he)
  have hadjusted (hz : d.isZero = false) : d.adjusted ≤ k :=
    (zpow_le_zpow_iff_right₀ (by norm_num)).1 ((pow_adjusted_le hz).trans hk)
  have hroom : |mode.toPlace (-places) d.value| < 10 ^ (-(places : Int) + ctx.precision) :=
    hbelow (by omega)
  have hover : |mode.toPlace (-places) d.value| < 10 ^ (ctx.maxExponent + 1) := hbelow (by omega)
  obtain ⟨r, hr, hvalue, hexponent, -⟩ := exists_quantize (d := d)
    (e := -places) hpos (by rw [tiny]; omega) (by omega) (fun hz => (hadjusted hz).trans hmax)
    (fun hz => by
      have := hadjusted hz
      rw [adjusted] at this
      omega) hroom hover
  refine ⟨r, hr, hvalue, hexponent, ?_, ?_⟩
  · refine digits_le_of_abs_lt hpos ?_
    rw [hvalue, hexponent]
    exact hroom
  · cases hz : r.isZero with
    | true =>
        rw [adjusted_of_isZero hz, hexponent]
        omega
    | false => exact (adjusted_le_iff hz _).2 (hvalue ▸ hover)

end Context

end Decimal

section

variable {outer ctx : Context} {places : Nat} {d : Decimal}

theorem roundingContext_precision (h : roundingContext outer places d = .ok ctx) :
    (ctx.precision : Int) = max (outer.precision : Int) (d.adjusted + places + 2) ∧
      ctx.maxExponent = outer.maxExponent ∧ ctx.minExponent = outer.minExponent := by
  unfold roundingContext at h
  extract_lets precision at h
  split at h
  · cases h
  · cases h
    refine ⟨?_, rfl, rfl⟩
    simp only [precision]
    omega

/-- The last place that a context keeps is below the place that is rounded to. -/
theorem lastPlace_lt (hs : outer.Standard) (hplaces : places ≤ maxPlaces)
    (h : roundingContext outer places d = .ok ctx) : ctx.lastPlace d < -places := by
  obtain ⟨hprecision, -, hmin⟩ := roundingContext_precision h
  have hmin' := hs.minExponent
  simp only [maxPlaces] at hplaces
  rw [Context.lastPlace, Context.tiny]
  omega

section

variable (hs : outer.Standard) (hpos : 0 < outer.precision) (hplaces : places ≤ maxPlaces)
  (hctx : roundingContext outer places d = .ok ctx)
  (hd : d.isZero = false → d.adjusted < outer.maxExponent)

include hs hpos hplaces hctx hd

/-- The context for a number has room for it with the given places. -/
theorem exists_quantize_of_context (mode : Rounding) :
    ∃ r, ctx.quantize mode (-places) d = .ok r ∧ r.value = mode.toPlace (-places) d.value ∧
      r.exponent = -places ∧ r.adjusted ≤ outer.maxExponent := by
  obtain ⟨hprecision, hmax, -⟩ := roundingContext_precision hctx
  obtain ⟨k, hk, hkmax, hkprecision⟩ : ∃ k : Int, |d.value| ≤ 10 ^ k ∧ k ≤ ctx.maxExponent ∧
      k + places + 1 ≤ ctx.precision := by
    have hmax' := hs.maxExponent
    cases hz : d.isZero with
    | true =>
        refine ⟨-places, ?_, by omega, by omega⟩
        rw [Decimal.value_eq_zero.2 hz, abs_zero]
        exact (Decimal.ten_zpow_pos _).le
    | false =>
        have := hd hz
        exact ⟨d.adjusted + 1, (Decimal.abs_value_lt d).le, by omega, by omega⟩
  obtain ⟨r, hr, hvalue, hexponent, -, hadjusted⟩ := Context.exists_quantize_places
    (standard_roundingContext hs hctx) hplaces mode hk hkmax hkprecision (by omega)
  exact ⟨r, hr, hvalue, hexponent, hmax ▸ hadjusted⟩

/-- A negative number is negated, as the context keeps it, rounded, and negated again. -/
theorem exists_quantize_negated (hneg : d.value < 0) :
    ∃ m q r, ctx.neg d = .ok m ∧ ctx.quantize .halfDown (-places) m = .ok q ∧ ctx.neg q = .ok r ∧
      r.value = RoundingMethod.halfUp.exact places (ctx.kept d) ∧ r.exponent = -places ∧
      r.adjusted ≤ outer.maxExponent := by
  obtain ⟨hprecision, hmax, -⟩ := roundingContext_precision hctx
  have hs' := standard_roundingContext hs hctx
  have hpos' : 0 < ctx.precision := by omega
  have hz : d.isZero = false := Decimal.isZero_of_value_ne hneg.ne
  have hadjusted := hd hz
  have htiny : ctx.tiny + places + 1 ≤ ctx.precision ∧ ctx.tiny ≤ -places := by
    have hmin := hs'.minExponent
    simp only [maxPlaces] at hplaces
    rw [Context.tiny]
    omega
  obtain ⟨m, hm, hmvalue⟩ := Context.exists_fit (d := { d with negative := !d.negative })
    hs' hpos' hz (hmax ▸ hadjusted)
  rw [Context.kept_flip] at hmvalue
  have hkept : |m.value| ≤ 10 ^ max (d.adjusted + 1) ctx.tiny := by
    rw [hmvalue, abs_neg]
    exact ctx.abs_kept_le d
  have hmax' := hs.maxExponent
  obtain ⟨q, hq, hqvalue, hqexponent, hqdigits, hqadjusted⟩ :=
    Context.exists_quantize_places hs' hplaces .halfDown hkept (by omega) (by omega) hpos'
  have hnegation := Context.fit_eq_self (d := { q with negative := !q.isZero && !q.negative })
    hqdigits (hqexponent.symm ▸ htiny.2) hqadjusted
  refine ⟨m, q, _, ?_, hq, hnegation, ?_, hqexponent, hmax ▸ hqadjusted⟩
  · rw [← hm, Context.neg, hz]
    rfl
  · rw [Context.value_negation, hqvalue, hmvalue,
      Rounding.toPlace_halfDown_neg (Context.kept_nonpos hneg.le)]

end

/-- Rounding has a result whenever there is a context for it, with the given places. -/
theorem exists_roundTo (hs : outer.Standard) (hpos : 0 < outer.precision)
    (hplaces : places ≤ maxPlaces) (method : RoundingMethod)
    (hctx : roundingContext outer places d = .ok ctx)
    (hd : d.isZero = false → d.adjusted < outer.maxExponent) :
    ∃ r, roundTo outer places method d = .ok r ∧
      r.value = method.exact places (method.seen ctx d) ∧ r.exponent = -places ∧
      r.adjusted ≤ outer.maxExponent := by
  by_cases hm : method = .halfUp ∧ d.value < 0
  · rw [RoundingMethod.seen, if_pos hm]
    obtain ⟨rfl, hneg⟩ := hm
    obtain ⟨m, q, r, hm, hq, hr, hrest⟩ := exists_quantize_negated hs hpos hplaces hctx hd hneg
    exact ⟨r, (roundTo_negated_eq_ok hctx hneg).2 ⟨m, q, hm, hq, hr⟩, hrest⟩
  · rw [RoundingMethod.seen, if_neg hm, RoundingMethod.exact_direct hm, ← Rounding.toPlace_places]
    obtain ⟨r, hr, hrest⟩ := exists_quantize_of_context hs hpos hplaces hctx hd method.mode
    exact ⟨r, (roundTo_direct hctx hm).trans (signal_eq_ok.2 hr), hrest⟩

/-- What has the given places stays as it is. -/
theorem roundTo_self (hs : outer.Standard) (hplaces : places ≤ maxPlaces) (method : RoundingMethod)
    (hexponent : d.exponent = -places) (hd : d.adjusted ≤ outer.maxExponent) :
    roundTo outer places method d = .ok d := by
  obtain ⟨ctx, hctx, -, hprecision, hmax, hmin⟩ := roundingContext_eq_ok hs hplaces hd
  have hdigits : d.digits ≤ ctx.precision := by
    rw [Decimal.adjusted, hexponent] at hprecision
    omega
  have hlow : ctx.tiny ≤ d.exponent := by
    have hmin' := hs.minExponent
    simp only [maxPlaces] at hplaces
    rw [Context.tiny, hexponent]
    omega
  have hhigh : d.adjusted ≤ ctx.maxExponent := hmax ▸ hd
  by_cases hm : method = .halfUp ∧ d.value < 0
  · obtain ⟨rfl, hneg⟩ := hm
    rw [roundTo_negated_eq_ok hctx hneg]
    obtain ⟨hnegative, hz⟩ := Bool.and_eq_true_iff.1 (Decimal.value_neg_iff.1 hneg)
    obtain ⟨s, n, e⟩ := d
    obtain rfl : s = true := hnegative
    rw [Bool.not_eq_true'] at hz
    refine ⟨⟨false, n, e⟩, ⟨false, n, e⟩, ?_, ?_, ?_⟩
    · rw [Context.neg, hz]
      exact Context.fit_eq_self (d := ⟨false, n, e⟩) hdigits hlow hhigh
    · exact hexponent ▸
        Context.quantize_eq_self (d := ⟨false, n, e⟩) .halfDown hdigits hlow hhigh
    · have hz' : (⟨false, n, e⟩ : Decimal).isZero = false := hz
      rw [Context.neg, hz']
      exact Context.fit_eq_self (d := ⟨true, n, e⟩) hdigits hlow hhigh
  · rw [roundTo_direct hctx hm, signal_eq_ok, ← hexponent]
    exact Context.quantize_eq_self method.mode hdigits hlow hhigh

section Halves

variable {x : ℚ} {e : Int}

theorem exists_half (h : e < -places) (n : ℤ) :
    ∃ k : ℤ, ((n : ℚ) - 1 / 2) / 10 ^ places = k * 10 ^ e := by
  obtain ⟨k, hk⟩ := Rounding.exists_int_mul ((2 * n - 1) * 5) (Int.le_sub_one_of_lt h)
  refine ⟨k, hk ▸ ?_⟩
  rw [zpow_sub_one₀ (by norm_num), zpow_neg, zpow_natCast, div_eq_mul_inv]
  push_cast
  ring

/-- A rounding below the places moves a number no further than to the next half. -/
theorem floor_half_toPlace (h : e < -places) :
    ⌊Rounding.toPlace .halfEven e x * 10 ^ places + 1 / 2⌋ = ⌊x * 10 ^ places + 1 / 2⌋ ∨
      ⌊Rounding.toPlace .halfEven e x * 10 ^ places + 1 / 2⌋ = ⌊x * 10 ^ places + 1 / 2⌋ + 1 ∧
      x < Rounding.toPlace .halfEven e x ∧
      ∃ n : ℤ, Rounding.toPlace .halfEven e x * 10 ^ places + 1 / 2 = n := by
  have hpos : (0 : ℚ) < 10 ^ places := by positivity
  have hfloor := Int.floor_le (x * 10 ^ places + 1 / 2)
  have hnext := Int.lt_floor_add_one (x * 10 ^ places + 1 / 2)
  generalize ⌊x * 10 ^ places + 1 / 2⌋ = k at hfloor hnext ⊢
  -- the halves below and above the number are on the grid
  obtain ⟨a, ha⟩ := exists_half h k
  obtain ⟨b, hb⟩ := exists_half h (k + 1)
  have hlow : ((k : ℚ) - 1 / 2) / 10 ^ places ≤ Rounding.toPlace .halfEven e x := by
    rw [ha]
    refine Rounding.le_toPlace (ha ▸ ?_)
    rw [div_le_iff₀ hpos]
    linarith
  have hhigh : Rounding.toPlace .halfEven e x ≤ (((k + 1 : ℤ) : ℚ) - 1 / 2) / 10 ^ places := by
    rw [hb]
    refine Rounding.toPlace_le (hb ▸ ?_)
    rw [le_div_iff₀ hpos]
    push_cast
    linarith
  rw [div_le_iff₀ hpos] at hlow
  rw [le_div_iff₀ hpos] at hhigh
  push_cast at hhigh
  generalize Rounding.toPlace .halfEven e x = w at hlow hhigh ⊢
  rcases hhigh.lt_or_eq with hlt | heq
  · left
    rw [Int.floor_eq_iff]
    constructor <;> linarith
  · have htie : w * 10 ^ places + 1 / 2 = ((k + 1 : ℤ) : ℚ) := by
      push_cast
      linarith
    refine .inr ⟨?_, ?_, k + 1, htie⟩
    · rw [htie, Int.floor_intCast]
    · refine lt_of_mul_lt_mul_right ?_ hpos.le
      linarith

/-- A negative number just below a half, which a context makes that half. -/
def RaisedToHalf (ctx : Context) (places : Nat) (d : Decimal) : Prop :=
  d.value < 0 ∧ d.value < ctx.kept d ∧ ∃ n : ℤ, ctx.kept d * 10 ^ places + 1 / 2 = n

theorem exact_seen_of_raised (h : ctx.lastPlace d < -places) (hd : RaisedToHalf ctx places d) :
    RoundingMethod.exact .halfUp places (RoundingMethod.seen .halfUp ctx d) =
      (⌊d.value * 10 ^ places + 1 / 2⌋ + 1) / 10 ^ places := by
  obtain ⟨hneg, hlt, n, hn⟩ := hd
  rw [RoundingMethod.seen, if_pos ⟨rfl, hneg⟩, RoundingMethod.exact_halfUp]
  rcases floor_half_toPlace (x := d.value) h with hfloor | ⟨hfloor, -⟩
  · have hpos : (0 : ℚ) < 10 ^ places := by positivity
    rw [← Context.kept, hn, Int.floor_intCast] at hfloor
    have hle := Int.floor_le (d.value * 10 ^ places + 1 / 2)
    rw [← hfloor, ← hn] at hle
    have hmul := mul_lt_mul_of_pos_right hlt hpos
    exact absurd hle (by linarith)
  · rw [← Context.kept] at hfloor
    rw [hfloor]
    push_cast
    rfl

theorem exact_seen_of_not_raised (h : ctx.lastPlace d < -places)
    (hd : ¬RaisedToHalf ctx places d) :
    RoundingMethod.exact .halfUp places (RoundingMethod.seen .halfUp ctx d) =
      ⌊d.value * 10 ^ places + 1 / 2⌋ / 10 ^ places := by
  rw [RoundingMethod.seen, RoundingMethod.exact_halfUp]
  split
  · next hneg =>
    rcases floor_half_toPlace (x := d.value) h with hfloor | ⟨-, hlt, hhalf⟩
    · rw [← Context.kept] at hfloor
      rw [hfloor]
    · exact absurd ⟨hneg.2, hlt, hhalf⟩ hd
  · rfl

theorem abs_exact_seen_sub_le (method : RoundingMethod) (h : ctx.lastPlace d < -places) :
    |method.exact places (method.seen ctx d) - d.value| ≤ 1 / 10 ^ places := by
  rw [RoundingMethod.seen]
  split
  · next hneg =>
    rw [hneg.1]
    have hpos : (0 : ℚ) < 10 ^ places := by positivity
    have hkept : |ctx.kept d - d.value| ≤ 1 / 10 ^ places / 10 := by
      refine (Rounding.abs_toPlace_sub_le _ _ _).trans
        ((zpow_le_zpow_right₀ (by norm_num) (Int.le_sub_one_of_lt h)).trans_eq ?_)
      rw [zpow_sub_one₀ (by norm_num), zpow_neg, zpow_natCast, one_div, div_eq_mul_inv]
    have hhalf : |RoundingMethod.exact .halfUp places (ctx.kept d) - ctx.kept d| ≤
        1 / 10 ^ places / 2 := by
      have hdiff : RoundingMethod.exact .halfUp places (ctx.kept d) - ctx.kept d =
          (⌊ctx.kept d * 10 ^ places + 1 / 2⌋ - ctx.kept d * 10 ^ places) / 10 ^ places := by
        rw [RoundingMethod.exact_halfUp, sub_div, mul_div_cancel_right₀ _ hpos.ne']
      rw [hdiff, abs_div, abs_of_pos hpos, div_right_comm]
      exact div_le_div_of_nonneg_right (RoundingMethod.abs_floor_half_sub_le _) hpos.le
    have hunit : (0 : ℚ) < 1 / 10 ^ places := by positivity
    calc |RoundingMethod.exact .halfUp places (ctx.kept d) - d.value|
        ≤ |RoundingMethod.exact .halfUp places (ctx.kept d) - ctx.kept d| + |ctx.kept d - d.value| :=
          abs_sub_le _ _ _
      _ ≤ 1 / 10 ^ places := by linarith
  · exact method.abs_exact_sub_le places d.value

end Halves

/-- A number with the given places is the number that any method sees, and gives. -/
theorem exact_seen_eq_self (method : RoundingMethod) (h : ctx.lastPlace d < -places) {m : ℤ}
    (hd : d.value = m / 10 ^ places) : method.exact places (method.seen ctx d) = d.value := by
  have hseen : method.seen ctx d = d.value := by
    have hgrid : d.value = m * 10 ^ (-(places : Int)) := by
      rw [hd, zpow_neg, zpow_natCast, div_eq_mul_inv]
    rw [RoundingMethod.seen, Context.kept_eq_self h.le hgrid, ite_self]
  rw [hseen, hd, RoundingMethod.exact_int_div]

theorem seen_mono (method : RoundingMethod) {a b : Decimal} {ca cb : Context}
    (hs : outer.Standard) (hpos : 0 < outer.precision) (hplaces : places ≤ maxPlaces)
    (ha : roundingContext outer places a = .ok ca) (hb : roundingContext outer places b = .ok cb)
    (h : a.value ≤ b.value) : method.seen ca a ≤ method.seen cb b := by
  rw [RoundingMethod.seen, RoundingMethod.seen]
  split
  · next hneg =>
    split
    · next hneg' =>
      have hz := Decimal.isZero_of_value_ne hneg'.2.ne
      have habs : |b.value| ≤ |a.value| := by
        rw [abs_of_neg hneg.2, abs_of_neg hneg'.2]
        linarith
      have hle : b.adjusted ≤ a.adjusted := by
        have hlt := (Decimal.pow_adjusted_le hz).trans_lt (habs.trans_lt (Decimal.abs_value_lt a))
        have := (zpow_lt_zpow_iff_right₀ (by norm_num)).1 hlt
        omega
      have hkept : |cb.kept b| ≤ |ca.kept a| := by
        refine Context.abs_kept_mono hz habs ?_
        obtain ⟨hpa, -, hma⟩ := roundingContext_precision ha
        obtain ⟨hpb, -, hmb⟩ := roundingContext_precision hb
        have hmin := hs.minExponent
        simp only [maxPlaces] at hplaces
        simp only [Context.lastPlace, Context.tiny]
        omega
      rw [abs_of_nonpos (Context.kept_nonpos hneg.2.le),
        abs_of_nonpos (Context.kept_nonpos hneg'.2.le)] at hkept
      linarith
    · next hpositive =>
      have hnonneg : 0 ≤ b.value := not_lt.1 fun hb => hpositive ⟨hneg.1, hb⟩
      exact (Context.kept_nonpos hneg.2.le).trans hnonneg
  · next hpositive =>
    rw [if_neg fun hneg => hpositive ⟨hneg.1, h.trans_lt hneg.2⟩]
    exact h

end

end Payroll
