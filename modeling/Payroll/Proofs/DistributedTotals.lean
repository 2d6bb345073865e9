import Mathlib
import Payroll.Proofs.ContextRounding
import Payroll.Proofs.DecimalQuotient
import Payroll.Proofs.RoundedValues
import Payroll.Proofs.SummaryTotals

/-!
A total in equal rounded parts. The quotient is rounded twice, once to the digits of the context and once
to the places, and neither rounding takes it past a multiple of the place.
-/

namespace Payroll

open Decimal (Context Rounding ordinary)
open Result

namespace Decimal

variable {a b d r : Decimal} {e k : Int} {x y z : ℚ} {places : Nat}

namespace Within

theorem trans (h : Within e x y) (h' : Within e y z) : Within e x z := fun m =>
  ⟨fun hx => (h' m).1 ((h m).1 hx), fun hx => (h' m).2 ((h m).2 hx)⟩

/-- A larger power has fewer multiples. -/
theorem widen (h : Within e x y) (hk : e ≤ k) : Within k x y := by
  intro m
  obtain ⟨n, hn⟩ := Rounding.exists_int_mul m hk
  rw [hn]
  exact h n

theorem abs (h : Within e x y) : Within e |x| |y| := by
  rcases le_total 0 x with hx | hx
  · have hy : 0 ≤ y := by simpa using (h 0).1 (by simpa using hx)
    rwa [abs_of_nonneg hx, abs_of_nonneg hy]
  · have hy : y ≤ 0 := by simpa using (h 0).2 (by simpa using hx)
    rw [abs_of_nonpos hx, abs_of_nonpos hy]
    exact h.neg

theorem abs_sub_le (h : Within e x y) : |y - x| ≤ 10 ^ e := by
  have hpos := ten_zpow_pos e
  have hfloor : (⌊x / 10 ^ e⌋ : ℚ) * 10 ^ e ≤ x := (le_div_iff₀ hpos).1 (Int.floor_le _)
  have hnext : x ≤ ((⌊x / 10 ^ e⌋ + 1 : ℤ) : ℚ) * 10 ^ e := by
    push_cast
    exact (div_le_iff₀ hpos).1 (Int.lt_floor_add_one _).le
  have hlow := (h _).1 hfloor
  have hhigh := (h _).2 hnext
  push_cast at hnext hhigh
  exact abs_le.2 ⟨by linarith, by linarith⟩

end Within

theorem Rounding.within_toPlace (mode : Rounding) (e : Int) (x : ℚ) :
    Within e x (mode.toPlace e x) := fun _ => ⟨le_toPlace, toPlace_le⟩

namespace Context

variable {ctx : Context}

theorem within_kept (ctx : Context) (d : Decimal) : Within (ctx.lastPlace d) d.value (ctx.kept d) :=
  Rounding.within_toPlace _ _ _

/-- A quotient of no more digits down to a place than the context has stays between the same multiples
of the place. -/
theorem exists_div_within (hs : ctx.Standard) (hpos : 0 < ctx.precision) (hb : b.isZero = false)
    (hlow : ctx.tiny ≤ e) (hhigh : e + ctx.precision ≤ ctx.maxExponent) {m : ℤ}
    (hm : |a.value / b.value| ≤ m * 10 ^ e) (hm' : m < 10 ^ ctx.precision) :
    ∃ q, ctx.div a b = .ok q ∧ Within e (a.value / b.value) q.value ∧
      q.adjusted ≤ ctx.maxExponent := by
  cases ha : a.isZero with
  | true =>
      have hfit := ctx.fit_zero (a.negative != b.negative) (a.exponent - b.exponent)
      refine ⟨_, (div_of_isZero ha hb).trans hfit, ?_, adjusted_le_of_fit hs hfit⟩
      rw [value_eq_zero.2 ha, zero_div, value_zero]
      exact Within.refl e 0
  | false =>
      obtain ⟨d, hdiv, hwithin⟩ := ctx.exists_div ha hb
      have hbound : (m : ℚ) * 10 ^ e < 10 ^ (e + ctx.precision) := by
        rw [zpow_add₀ (by norm_num), zpow_natCast, mul_comm]
        exact mul_lt_mul_of_pos_left (by exact_mod_cast hm') (ten_zpow_pos e)
      have hleast : (10 : ℚ) ^ (a.adjusted - b.adjusted - 1) < |a.value / b.value| := by
        rw [abs_div]
        exact pow_lt_quotient ha hb
      have hplace : a.adjusted - b.adjusted - ctx.precision - 1 ≤ e := by
        have := (zpow_lt_zpow_iff_right₀ (by norm_num)).1 (hleast.trans (hm.trans_lt hbound))
        omega
      have hd : d.isZero = false := by
        obtain ⟨n, hn⟩ := Rounding.exists_pow (e := a.adjusted - b.adjusted - ctx.precision - 1)
          (k := a.adjusted - b.adjusted - 1) (by omega)
        have hle := (hwithin.abs n).1 (hn ▸ hleast.le)
        exact isZero_of_value_ne (abs_pos.1 ((ten_zpow_pos _).trans_le (hn ▸ hle)))
      have hadjusted : d.adjusted < e + ctx.precision :=
        (zpow_lt_zpow_iff_right₀ (by norm_num)).1 ((pow_adjusted_le hd).trans_lt
          (((hwithin.widen hplace).abs m).2 hm |>.trans_lt hbound))
      obtain ⟨q, hq, hqvalue⟩ := exists_fit hs hpos hd (hadjusted.trans_le hhigh)
      have hkept : ctx.lastPlace d ≤ e := by
        rw [lastPlace]
        omega
      refine ⟨q, hdiv.trans hq, ?_, adjusted_le_of_fit hs hq⟩
      rw [hqvalue]
      exact (hwithin.widen hplace).trans ((ctx.within_kept d).widen hkept)

end Context

theorem value_ofInt (n : Int) : (ofInt n).value = n := by
  have hsigned : (ofInt n).signed = n := by
    simp only [signed, ofInt, decide_eq_true_eq]
    split <;> omega
  have hexponent : (ofInt n).exponent = 0 := rfl
  rw [value, hsigned, hexponent, zpow_zero, mul_one]

end Decimal

section

variable {outer ctx : Context} {places : Nat} {method : RoundingMethod} {d r T : Decimal}

theorem mul_zpow_places (x : ℚ) (places : Nat) : x * 10 ^ (-(places : Int)) = x / 10 ^ places := by
  rw [zpow_neg, zpow_natCast, div_eq_mul_inv]

theorem exists_div_places (h : -(places : Int) ≤ d.exponent) :
    ∃ k : ℤ, d.value = k / 10 ^ places := by
  obtain ⟨k, hk⟩ := Decimal.exists_int_of_le h
  exact ⟨k, by rw [hk, mul_zpow_places]⟩

theorem RoundingMethod.within_exact (method : RoundingMethod) (places : Nat) (x : ℚ) :
    Decimal.Within (-places) x (method.exact places x) := by
  intro m
  rw [mul_zpow_places]
  constructor
  · intro h
    exact (method.exact_int_div places m).symm.trans_le (method.exact_mono places h)
  · intro h
    exact (method.exact_mono places h).trans_eq (method.exact_int_div places m)

theorem within_seen (method : RoundingMethod) (h : ctx.lastPlace d < -places) :
    Decimal.Within (-places) d.value (method.seen ctx d) := by
  rw [RoundingMethod.seen]
  split
  · exact (ctx.within_kept d).widen h.le
  · exact .refl _ _

theorem le_exponent_of_roundTo (hs : outer.Standard) (h : roundTo outer places method d = .ok r) :
    -(places : Int) ≤ r.exponent := by
  obtain ⟨ctx, hctx, ⟨mode, hr⟩ | ⟨m, q, -, hq, hr⟩⟩ := roundTo_eq_ok h
  · exact Context.le_exponent_of_quantize hr
  · have hmax := (standard_roundingContext hs hctx).maxExponent
    have hexponent := Context.le_exponent_of_quantize hq
    have hfit := Context.le_exponent_of_fit hr
    simp only at hfit
    omega

/-- The share is between the multiples of the place that the exact quotient is between. -/
theorem exists_share (hplaces : places ≤ maxPlaces) (method : RoundingMethod) {n : Nat} (hn : 1 ≤ n)
    {k : ℤ} (hT : T.value = k / 10 ^ places) (hk : |k| < 10 ^ 28) :
    ∃ q share, ordinary.div T (.ofInt n) = .ok q ∧ roundTo ordinary places method q = .ok share ∧
      Decimal.Within (-places) (T.value / n) share.value ∧
      ∃ j : ℤ, share.value = j / 10 ^ places := by
  have hs := Context.standard_ordinary
  have hone : (1 : ℚ) ≤ n := by exact_mod_cast hn
  have hvalue : (Decimal.ofInt n).value = n := by rw [Decimal.value_ofInt, Int.cast_natCast]
  have hzero : (Decimal.ofInt n).isZero = false :=
    Decimal.isZero_of_value_ne (by rw [hvalue]; linarith)
  simp only [maxPlaces] at hplaces
  have hbound : |T.value / (Decimal.ofInt n).value| ≤ ((|k| : ℤ) : ℚ) * 10 ^ (-(places : Int)) := by
    rw [hvalue, mul_zpow_places, hT, abs_div, abs_div, Nat.abs_cast, Int.cast_abs,
      abs_of_pos (by positivity : (0 : ℚ) < 10 ^ places)]
    exact div_le_self (by positivity) hone
  obtain ⟨q, hq, hwithin, hadjusted⟩ := Context.exists_div_within hs (by decide) hzero
    (e := -places) (by change (-1000026 : Int) ≤ _; omega) (by change _ + 28 ≤ (999999 : Int); omega)
    hbound hk
  have hsize : |q.value| < 10 ^ ordinary.maxExponent := by
    refine ((hwithin.abs |k|).2 hbound).trans_lt ?_
    have hlt : ((|k| : ℤ) : ℚ) < 10 ^ (28 : Int) := by exact_mod_cast hk
    calc ((|k| : ℤ) : ℚ) * 10 ^ (-(places : Int))
        < 10 ^ (28 : Int) * 10 ^ (-(places : Int)) :=
          mul_lt_mul_of_pos_right hlt (Decimal.ten_zpow_pos _)
      _ ≤ 10 ^ ordinary.maxExponent := by
          rw [← zpow_add₀ (by norm_num)]
          refine zpow_le_zpow_right₀ (by norm_num) ?_
          change _ ≤ (999999 : Int)
          omega
  have hbeyond : ¬BeyondContexts places q := by
    change q.adjusted ≤ 999999 at hadjusted
    simp only [BeyondContexts, maxPrecision]
    omega
  obtain ⟨ctx, hctx⟩ := exists_roundingContext hbeyond
  obtain ⟨share, hshare, hsvalue, hexponent, -⟩ :=
    exists_roundTo hs (by decide) hplaces method hctx (adjusted_lt_of_abs_lt hsize)
  refine ⟨q, share, hq, hshare, ?_, ?_⟩
  · rw [hsvalue, ← hvalue]
    exact (hwithin.trans (within_seen method (lastPlace_lt hs hplaces hctx))).trans
      (method.within_exact places _)
  · exact exists_div_places hexponent.ge

/-- As many digits as a context has are held wherever the point stands among the last ten. -/
theorem Decimal.Context.represents_places (hs : ctx.Standard) (hpos : 0 < ctx.precision)
    (hmax : ctx.precision ≤ 999999) (hplaces : places ≤ maxPlaces) {m : ℤ}
    (hm : |(m : ℚ)| < 10 ^ ctx.precision) : ctx.Represents (m / 10 ^ places) := by
  have habs : m.natAbs < pow10 ctx.precision := by
    change m.natAbs < 10 ^ ctx.precision
    rw [← Int.cast_abs, Int.abs_eq_natAbs, Int.cast_natCast] at hm
    exact_mod_cast hm
  have hmin := hs.minExponent
  have hmax' := hs.maxExponent
  simp only [maxPlaces] at hplaces
  rw [← mul_zpow_places]
  refine Context.represents_of_lt habs hpos ?_ ?_
  · rw [Context.tiny]
    omega
  · omega

theorem represents_places (hplaces : places ≤ maxPlaces) {m : ℤ} (hm : |(m : ℚ)| < 10 ^ 28) :
    ordinary.Represents (m / 10 ^ places) :=
  Context.represents_places Context.standard_ordinary (by decide) (by decide) hplaces hm

/-- Shares of a number in units: all but the last are within one unit of the exact share, so that they
and what is left have no more digits than the number and the count of shares. -/
theorem shares_bounds {x j n k : ℚ} (hn : 1 ≤ n) (hx : n * x = k) (hj : |j - x| ≤ 1) :
    |j * (n - 1)| < |k| + n ∧ |k - j * (n - 1)| < |k| + n ∧ |k - j * (n - 1) - x| ≤ n - 1 := by
  have hrest : 0 ≤ n - 1 := by linarith
  have hxk : n * |x| = |k| := by rw [← hx, abs_mul, abs_of_pos (by linarith : 0 < n)]
  have hxle : |x| ≤ |k| := hxk ▸ le_mul_of_one_le_left (abs_nonneg x) hn
  have hleft : k - j * (n - 1) - x = (x - j) * (n - 1) := by
    rw [← hx]
    ring
  have hoff : |k - j * (n - 1) - x| ≤ n - 1 := by
    rw [hleft, abs_mul, abs_of_nonneg hrest, abs_sub_comm]
    exact mul_le_of_le_one_left hrest hj
  have htotal : |k - j * (n - 1)| ≤ |k - j * (n - 1) - x| + |x| := by
    simpa using abs_add_le (k - j * (n - 1) - x) x
  have hjle : |j| ≤ 1 + |x| := by
    have := abs_add_le (j - x) x
    rw [sub_add_cancel] at this
    linarith
  refine ⟨?_, by linarith, hoff⟩
  calc |j * (n - 1)| = |j| * (n - 1) := by rw [abs_mul, abs_of_nonneg hrest]
    _ ≤ (1 + |x|) * (n - 1) := mul_le_mul_of_nonneg_right hjle hrest
    _ = |k| - |x| + (n - 1) := by rw [← hxk]; ring
    _ < |k| + n := by linarith [abs_nonneg x]

/-- In units, a share between the same multiples of the place as the exact share is within one of it. -/
theorem abs_units_sub_le {share : Decimal} {n : Nat} {j k : ℤ} (hT : T.value = k / 10 ^ places)
    (hshare : share.value = j / 10 ^ places)
    (h : Decimal.Within (-places) (T.value / n) share.value) : |(j : ℚ) - k / n| ≤ 1 := by
  have hpos : (0 : ℚ) < 10 ^ places := by positivity
  have hnear := h.abs_sub_le
  have hdiff : share.value - T.value / n = (j - (k : ℚ) / n) / 10 ^ places := by
    rw [hshare, hT, sub_div, div_right_comm]
  rw [hdiff, abs_div, abs_of_pos hpos, zpow_neg, zpow_natCast, ← one_div] at hnear
  exact (div_le_div_iff_of_pos_right hpos).1 hnear

/-- What is left for the last share is computed without rounding. -/
theorem exists_last (hplaces : places ≤ maxPlaces) {share : Decimal} {n : Nat} {j k : ℤ}
    (hT : T.value = k / 10 ^ places) (hshare : share.value = j / 10 ^ places)
    (hproduct : |(j : ℚ) * n| < 10 ^ 28) (hrest : |(k : ℚ) - j * n| < 10 ^ 28) :
    ∃ taken last, ordinary.mul share (.ofInt n) = .ok taken ∧ ordinary.sub T taken = .ok last ∧
      last.value = ((k - j * n : ℤ) : ℚ) / 10 ^ places := by
  have hs := Context.standard_ordinary
  have hmul : share.value * (Decimal.ofInt n).value = ((j * n : ℤ) : ℚ) / 10 ^ places := by
    rw [Decimal.value_ofInt, hshare, Int.cast_mul]
    ring
  have hheld : ordinary.Represents (share.value * (Decimal.ofInt n).value) := by
    rw [hmul]
    exact represents_places hplaces (by push_cast; exact hproduct)
  obtain ⟨taken, htaken, htvalue, -⟩ := Context.yields_mul hs hheld
  have hsub : T.value - taken.value = ((k - j * n : ℤ) : ℚ) / 10 ^ places := by
    rw [htvalue, hmul, hT, Int.cast_sub, sub_div]
  have hheld : ordinary.Represents (T.value - taken.value) := by
    rw [hsub]
    exact represents_places hplaces (by push_cast; exact hrest)
  obtain ⟨last, hlast, hlvalue, -⟩ := Context.yields_sub hs hheld
  exact ⟨taken, last, htaken, hlast, hlvalue.trans hsub⟩

/-- Rounding a total and splitting it into parts gives as many shares of whole units as there are parts,
which sum to the rounded total: equal ones within a unit of the exact share, and a last one that is off
by no more than all the others together. -/
theorem distribute_exact {total : Json} {parts : Nat} (hparts : 1 ≤ parts)
    (hplaces : places ≤ maxPlaces)
    (hT : roundValue total (.int places) (.text method.name) = .ok T)
    (hsize : |T.value| * 10 ^ places + parts < 10 ^ 28) :
    ∃ share last shares, distribute total (.int parts) (.int places) (.text method.name) = .ok shares ∧
      shares = List.replicate (parts - 1) share ++ [last] ∧ shares.length = parts ∧
      (∀ s ∈ shares, ∃ m : ℤ, s.value = m / 10 ^ places) ∧
      (shares.map Decimal.value).sum = T.value ∧
      |share.value - T.value / parts| ≤ 1 / 10 ^ places ∧
      |last.value - T.value / parts| ≤ (parts - 1) / 10 ^ places := by
  have hpos : (0 : ℚ) < 10 ^ places := by positivity
  have hone : (1 : ℚ) ≤ parts := by exact_mod_cast hparts
  have hcount : ((parts - 1 : ℕ) : ℚ) = parts - 1 := by
    rw [Nat.cast_sub hparts, Nat.cast_one]
  obtain ⟨d, hround⟩ : ∃ d, roundTo ordinary places method d = .ok T := by
    obtain ⟨_, -, hrest⟩ := bind_eq_ok.1 hT
    obtain ⟨_, -, hrest⟩ := bind_eq_ok.1 hrest
    obtain ⟨d, hd, -⟩ := bind_eq_ok.1 hrest
    exact ⟨d, (roundValue_eq hd hplaces).symm.trans hT⟩
  obtain ⟨k, hk⟩ := exists_div_places (le_exponent_of_roundTo Context.standard_ordinary hround)
  rw [hk, abs_div, abs_of_pos hpos, div_mul_cancel₀ _ hpos.ne'] at hsize
  have hksize : |k| < 10 ^ 28 := by
    have : |(k : ℚ)| < 10 ^ 28 := by linarith
    exact_mod_cast this
  obtain ⟨q, share, hq, hshare, hwithin, j, hj⟩ := exists_share hplaces method hparts hk hksize
  have hnear : |share.value - T.value / parts| ≤ 1 / 10 ^ places := by
    refine hwithin.abs_sub_le.trans_eq ?_
    rw [zpow_neg, zpow_natCast, one_div]
  obtain ⟨hproduct, hrest, hoff⟩ := shares_bounds hone (mul_div_cancel₀ (k : ℚ) (by linarith))
    (abs_units_sub_le hk hj hwithin)
  obtain ⟨taken, last, htaken, hlast, hlvalue⟩ := exists_last (n := parts - 1) hplaces hk hj
    (by rw [hcount]; linarith) (by rw [hcount]; linarith)
  have hleft : last.value = (k - j * (parts - 1)) / 10 ^ places := by
    rw [hlvalue, Int.cast_sub, Int.cast_mul, Int.cast_natCast, hcount]
  refine ⟨share, last, _, ?_, rfl, ?_, ?_, ?_, hnear, ?_⟩
  · have hpartsOf : partsOf (.int parts) = .ok parts := by
      rw [partsOf, if_pos (by exact_mod_cast hparts), Int.toNat_natCast]
    exact bind_of_eq_ok hpartsOf (bind_of_eq_ok hT (bind_of_eq_ok (placesOf_int hplaces)
      (bind_of_eq_ok method.ofJson_name (bind_of_eq_ok (signal_eq_ok.2 hq)
        (bind_of_eq_ok hshare (bind_of_eq_ok (signal_eq_ok.2 htaken)
          (bind_of_eq_ok (signal_eq_ok.2 hlast) rfl)))))))
  · rw [List.length_append, List.length_replicate, List.length_singleton]
    omega
  · intro s hs
    rcases List.mem_append.1 hs with hs | hs
    · exact ⟨j, List.eq_of_mem_replicate hs ▸ hj⟩
    · exact ⟨_, List.mem_singleton.1 hs ▸ hlvalue⟩
  · rw [List.map_append, List.map_replicate, List.sum_append, List.sum_replicate, List.map_singleton,
      List.sum_singleton, nsmul_eq_mul, hcount, hleft, hj, hk]
    ring
  · have hdiff : last.value - T.value / parts =
        ((k - j * (parts - 1)) - (k : ℚ) / parts) / 10 ^ places := by
      rw [hleft, hk, sub_div _ ((k : ℚ) / parts), div_right_comm]
    rw [hdiff, abs_div, abs_of_pos hpos]
    exact div_le_div_of_nonneg_right hoff hpos.le

/-- A hundred in three parts. -/
theorem hundred_distributed : ∃ share last shares,
    distribute (.text "100") (.int 3) (.int 2) (.text "ROUND") = .ok shares ∧
      shares = [share, share, last] ∧ (shares.map Decimal.value).sum = 100 ∧
      |share.value - 100 / 3| ≤ 1 / 100 ∧ |last.value - 100 / 3| ≤ 2 / 100 := by
  have hvalue : (100.00 : Decimal).value = 100 := by
    change (⟨false, 10000, -2⟩ : Decimal).value = 100
    rw [Decimal.value_mk]
    norm_num
  have hparts : 1 ≤ 3 := by decide
  have hrounded : roundValue (.text "100") (.int (2 : ℕ)) (.text RoundingMethod.round.name) =
      .ok 100.00 := ok_of_toOption (by decide +kernel)
  obtain ⟨share, last, shares, hshares, hlist, -, -, hsum, hnear, hlast⟩ :=
    distribute_exact hparts (by decide) hrounded (by rw [hvalue]; norm_num)
  rw [hvalue] at hsum hnear hlast
  refine ⟨share, last, shares, hshares, hlist, hsum, ?_, ?_⟩
  · norm_num at hnear ⊢
    exact hnear
  · norm_num at hlast ⊢
    exact hlast

end

end Payroll
