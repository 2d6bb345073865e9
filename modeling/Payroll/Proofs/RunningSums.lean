import Mathlib
import Payroll.Proofs.RoundedValues
import Payroll.Proofs.RoundingOutcomes

/-!
Sums that are rounded after every number. The sum of a list is its running sum, which is the exact sum as
long as the context holds every number on the way, and then the order of the numbers does not matter.
-/

namespace Payroll

open Decimal (Context Rounding ordinary)
open Result

namespace Decimal.Context

variable {ctx : Context} {xs ys : List ℚ} {ds : List Decimal} {x : ℚ} {t : Decimal}

@[simp] theorem runningSum_nil (ctx : Context) : ctx.runningSum [] = 0 := rfl

@[simp] theorem runningSum_concat (ctx : Context) (xs : List ℚ) (x : ℚ) :
    ctx.runningSum (xs ++ [x]) = ctx.rounded (ctx.runningSum xs + x) := by
  rw [runningSum, List.foldl_append]
  rfl

theorem sum_concat (ctx : Context) (ds : List Decimal) (d : Decimal) :
    ctx.sum (ds ++ [d]) = ctx.sum ds >>= fun t => ctx.add t d := by
  rw [sum, List.foldlM_append]
  change ctx.sum ds >>= (fun t => List.foldlM ctx.add t [d]) = _
  congr 1
  funext t
  rw [List.foldlM_cons]
  exact bind_pure (ctx.add t d)

/-- Nothing is rounded as long as the context holds the sums on the way. -/
theorem runningSum_eq_sum (h : ∀ ys, ys <+: xs → ctx.Represents ys.sum) :
    ctx.runningSum xs = xs.sum := by
  induction xs using List.reverseRecOn with
  | nil => rfl
  | append_singleton xs x ih =>
      have hbefore := ih fun ys hys => h ys (hys.trans (List.prefix_append xs [x]))
      have hall := h (xs ++ [x]) List.prefix_rfl
      rw [List.sum_append, List.sum_singleton] at hall ⊢
      rw [runningSum_concat, hbefore, rounded_of_represents hall]

/-- Each number makes the sum longer by one digit at most. -/
theorem abs_runningSum_le (hprecision : 0 < ctx.precision) {k : Int} (hk : ctx.tiny ≤ k)
    (h : ∀ x ∈ xs, |x| ≤ 10 ^ k) : |ctx.runningSum xs| ≤ 10 ^ (k + xs.length) := by
  induction xs using List.reverseRecOn with
  | nil =>
      rw [runningSum_nil, abs_zero]
      exact (ten_zpow_pos _).le
  | append_singleton xs x ih =>
      have hbefore := ih fun y hy => h y (List.mem_append_left _ hy)
      have hlast := (h x (by simp)).trans
        (zpow_le_zpow_right₀ (by norm_num) (Int.le_add_of_nonneg_right (Int.natCast_nonneg xs.length)))
      have hstep : (10 : ℚ) ^ (k + (xs ++ [x]).length) = 10 * 10 ^ (k + xs.length) := by
        rw [List.length_append, List.length_singleton, Nat.cast_add, Nat.cast_one, ← add_assoc,
          zpow_add_one₀ (by norm_num), mul_comm]
      rw [runningSum_concat]
      refine abs_rounded_le hprecision (by omega) ?_
      rw [hstep]
      have htriangle := abs_add_le (ctx.runningSum xs) x
      have hpos := ten_zpow_pos (k + xs.length)
      linarith

/-- A decimal that the context has made. -/
structure Made (ctx : Context) (t : Decimal) : Prop where
  digits : t.digits ≤ ctx.precision
  exponent : ctx.tiny ≤ t.exponent
  adjusted : t.adjusted ≤ ctx.maxExponent

theorem made_of_fit (hs : ctx.Standard) (hprecision : 0 < ctx.precision) {d : Decimal}
    (h : ctx.fit d = .ok t) : ctx.Made t :=
  ⟨(fit_cases hprecision h).2.1, (fit_cases hprecision h).2.2.1, adjusted_le_of_fit hs h⟩

theorem made_zero (hs : ctx.Standard) (hprecision : 0 < ctx.precision) : ctx.Made 0 := by
  have hmin := hs.minExponent
  have hmax := hs.maxExponent
  have hdigits : (0 : Decimal).digits = 1 := digits_of_isZero rfl
  have hexponent : (0 : Decimal).exponent = 0 := rfl
  have hadjusted : (0 : Decimal).adjusted = 0 := (adjusted_of_isZero rfl).trans hexponent
  refine ⟨hdigits.trans_le hprecision, ?_, ?_⟩
  · rw [hexponent, tiny]
    omega
  · omega

/-- The sum is the running sum, if that stays within the exponents. -/
theorem exists_sum (hs : ctx.Standard) (hprecision : 0 < ctx.precision)
    (h : ∀ xs, xs <+: ds.map value → |ctx.runningSum xs| < 10 ^ (ctx.maxExponent + 1)) :
    ∃ t, ctx.sum ds = .ok t ∧ t.value = ctx.runningSum (ds.map value) ∧ ctx.Made t := by
  induction ds using List.reverseRecOn with
  | nil => exact ⟨0, rfl, value_zero _ _, made_zero hs hprecision⟩
  | append_singleton ds d ih =>
      rw [List.map_append, List.map_singleton] at h ⊢
      obtain ⟨t, ht, htvalue, -⟩ := ih fun xs hxs => h xs (hxs.trans (List.prefix_append _ _))
      obtain ⟨s, hs', hsvalue⟩ := ctx.exists_add hprecision t d
      have hlast := h _ List.prefix_rfl
      rw [runningSum_concat, ← htvalue, ← hsvalue] at hlast
      obtain ⟨r, hr⟩ := exists_fit_of_rounded hprecision hs hlast
      refine ⟨r, ?_, ?_, made_of_fit hs hprecision hr⟩
      · rw [sum_concat]
        exact bind_of_eq_ok ht (hs'.trans hr)
      · rw [value_of_fit hprecision hr, hsvalue, htvalue, runningSum_concat]

/-- Sums of smaller numbers stay within the exponents, and below, after every number. -/
theorem exists_foldlM_le (hs : ctx.Standard) (hprecision : 0 < ctx.precision) {es : List Decimal}
    (h : List.Forall₂ (fun d e => 0 ≤ d.value ∧ d.value ≤ e.value) ds es) {a b r : Decimal}
    (ha : 0 ≤ a.value) (hab : a.value ≤ b.value) (hr : es.foldlM ctx.add b = .ok r) :
    ∃ t, ds.foldlM ctx.add a = .ok t ∧ 0 ≤ t.value ∧ t.value ≤ r.value := by
  induction h generalizing a b with
  | nil =>
      cases hr
      exact ⟨a, rfl, ha, hab⟩
  | @cons d e ds es hde hrest ih =>
      rw [List.foldlM_cons] at hr ⊢
      obtain ⟨u, hu, hr⟩ := bind_eq_ok.1 hr
      obtain ⟨x, hx, hxvalue⟩ := ctx.exists_add hprecision a d
      have huvalue := value_of_add hprecision hu
      have hnonneg : 0 ≤ ctx.rounded (a.value + d.value) := rounded_nonneg (add_nonneg ha hde.1)
      have hle : ctx.rounded (a.value + d.value) ≤ u.value := by
        rw [huvalue]
        exact rounded_mono hprecision (add_le_add hab hde.2)
      have hsize : |ctx.rounded x.value| < 10 ^ (ctx.maxExponent + 1) := by
        rw [hxvalue, abs_of_nonneg hnonneg]
        exact (hle.trans (le_abs_self _)).trans_lt (represents_of_add hprecision hs hu).abs_lt
      obtain ⟨t, ht⟩ := exists_fit_of_rounded hprecision hs hsize
      have htvalue := (value_of_fit hprecision ht).trans hxvalue
      obtain ⟨t', ht', hbounds⟩ := ih (htvalue ▸ hnonneg) (htvalue ▸ hle) hr
      exact ⟨t', bind_of_eq_ok (hx.trans ht) ht', hbounds⟩

theorem exists_sum_le (hs : ctx.Standard) (hprecision : 0 < ctx.precision) {es : List Decimal}
    (h : List.Forall₂ (fun d e => 0 ≤ d.value ∧ d.value ≤ e.value) ds es) {r : Decimal}
    (hr : ctx.sum es = .ok r) : ∃ t, ctx.sum ds = .ok t ∧ 0 ≤ t.value ∧ t.value ≤ r.value :=
  exists_foldlM_le hs hprecision h (value_zero _ _).ge le_rfl hr

/-- Sums that the context holds have the same value in every order. -/
theorem runningSum_perm (h : ctx.Sums xs) (hp : xs.Perm ys) :
    ctx.runningSum ys = ctx.runningSum xs := by
  have hheld {zs : List ℚ} (hzs : zs.Perm xs) : ctx.runningSum zs = zs.sum :=
    runningSum_eq_sum fun ys hys => h ys (hys.sublist.subperm.trans hzs.subperm)
  rw [hheld (.refl xs), hheld hp.symm, hp.sum_eq]

end Decimal.Context

section

variable {values values' : List Json} {ds ds' : List Decimal} {places : Nat} {method : RoundingMethod}
  {a t : Decimal}

theorem add_values (hds : values.mapM Json.toDecimal = .ok ds)
    (ht : ds.foldlM ordinary.add a = .ok t) :
    values.foldlM (fun acc v => do ordinary.add acc (← v.toDecimal)) a =
      (.ok t : Except Fault Decimal) := by
  induction values generalizing ds a with
  | nil =>
      cases hds
      cases ht
      rfl
  | cons v values ih =>
      obtain ⟨d, ds, hd, hrest, rfl⟩ := mapM_cons_eq_ok.1 hds
      rw [List.foldlM_cons] at ht ⊢
      obtain ⟨s, hs, ht⟩ := bind_eq_ok.1 ht
      exact bind_of_eq_ok (bind_of_eq_ok hd (signal_eq_ok.2 hs)) (ih hrest ht)

/-- The total has no more digits than the context, so rounding it once is exact. -/
theorem exists_sumAndRound (hds : values.mapM Json.toDecimal = .ok ds) (hplaces : places ≤ maxPlaces)
    (method : RoundingMethod)
    (hsteps : ∀ xs, xs <+: ds.map Decimal.value →
      |ordinary.runningSum xs| < 10 ^ (ordinary.maxExponent + 1))
    (hsize : |ordinary.runningSum (ds.map Decimal.value)| < 10 ^ ordinary.maxExponent) :
    ∃ r, sumAndRound values (.int places) (.text method.name) = .ok r ∧ r.exponent = -places ∧
      r.value = method.exact places (ordinary.runningSum (ds.map Decimal.value)) := by
  have hs := Context.standard_ordinary
  obtain ⟨t, ht, htvalue, hdigits, htiny, hadjusted⟩ := Context.exists_sum hs (by decide) hsteps
  have hbeyond : ¬BeyondContexts places t := by
    change t.adjusted ≤ 999999 at hadjusted
    simp only [BeyondContexts, maxPrecision, maxPlaces] at *
    omega
  obtain ⟨ctx, hctx⟩ := exists_roundingContext hbeyond
  obtain ⟨hprecision, -, hmin⟩ := roundingContext_precision hctx
  obtain ⟨r, hr, hvalue, hexponent, -⟩ := exists_roundTo hs (by decide) hplaces method hctx
    (adjusted_lt_of_abs_lt (htvalue ▸ hsize))
  have hseen : method.seen ctx t = t.value := by
    have hkept : ctx.kept t = t.value := by
      refine Context.kept_of_digits (by omega) ?_
      rw [Context.tiny] at htiny ⊢
      omega
    rw [RoundingMethod.seen, hkept, ite_self]
  refine ⟨r, ?_, hexponent, by rw [hvalue, hseen, htvalue]⟩
  exact bind_of_eq_ok (add_values hds ht) (bind_of_eq_ok (placesOf_int hplaces)
    (bind_of_eq_ok method.ofJson_name hr))

/-- Values are added from left to right in the context of ordinary arithmetic, and the sum is rounded
once. It is the exact sum if the context holds the sums on the way. If the context holds every sum of
some of the values, their order does not matter. -/
theorem sumAndRound_runningSum (hds : values.mapM Json.toDecimal = .ok ds)
    (hplaces : places ≤ maxPlaces)
    (hsteps : ∀ xs, xs <+: ds.map Decimal.value →
      |ordinary.runningSum xs| < 10 ^ (ordinary.maxExponent + 1))
    (hsize : |ordinary.runningSum (ds.map Decimal.value)| < 10 ^ ordinary.maxExponent) :
    ∃ r, sumAndRound values (.int places) (.text method.name) = .ok r ∧ r.exponent = -places ∧
      r.value = method.exact places (ordinary.runningSum (ds.map Decimal.value)) ∧
      ((∀ xs, xs <+: ds.map Decimal.value → ordinary.Represents xs.sum) →
        r.value = method.exact places (ds.map Decimal.value).sum) ∧
      (ordinary.Sums (ds.map Decimal.value) → ∀ values', values.Perm values' →
        ∃ r', sumAndRound values' (.int places) (.text method.name) = .ok r' ∧
          r'.exponent = r.exponent ∧ r'.value = r.value) := by
  obtain ⟨r, hr, hexponent, hvalue⟩ := exists_sumAndRound hds hplaces method hsteps hsize
  refine ⟨r, hr, hexponent, hvalue, fun hheld => ?_, fun hsums values' hp => ?_⟩
  · rw [hvalue, Context.runningSum_eq_sum hheld]
  · obtain ⟨ds', hds', hp⟩ := exists_mapM_of_perm hds hp
    have hvalues := hp.map Decimal.value
    have htotal := Context.runningSum_perm hsums hvalues
    have hsteps' : ∀ xs, xs <+: ds'.map Decimal.value →
        |ordinary.runningSum xs| < 10 ^ (ordinary.maxExponent + 1) := by
      intro xs hxs
      have hsub : xs.Subperm (ds.map Decimal.value) :=
        hxs.sublist.subperm.trans hvalues.symm.subperm
      rw [Context.runningSum_eq_sum fun ys hys => hsums ys (hys.sublist.subperm.trans hsub)]
      exact (hsums xs hsub).abs_lt
    obtain ⟨r', hr', hexponent', hvalue'⟩ := exists_sumAndRound hds' hplaces method hsteps'
      (htotal ▸ hsize)
    exact ⟨r', hr', hexponent'.trans hexponent.symm, by rw [hvalue', hvalue, htotal]⟩

/-- A cent between two large numbers is lost; behind them it is kept. -/
theorem cent_lost_between :
    (∃ r, sumAndRound [.text "1E+28", .text "0.01", .text "-1E+28"] (.int 2) (.text "ROUND") = .ok r ∧
      r.value = 0 ∧
      r.value = RoundingMethod.round.exact 2 (ordinary.runningSum [10 ^ 28, 1 / 100, -10 ^ 28])) ∧
    RoundingMethod.round.exact 2 [(10 : ℚ) ^ 28, 1 / 100, -10 ^ 28].sum = 1 / 100 ∧
    sumAndRound [.text "1E+28", .text "-1E+28", .text "0.01"] (.int 2) (.text "ROUND") = .ok 0.01 := by
  have hds : [Json.text "1E+28", .text "0.01", .text "-1E+28"].mapM Json.toDecimal =
      .ok [⟨false, 1, 28⟩, ⟨false, 1, -2⟩, ⟨true, 1, 28⟩] := ok_of_toOption (by decide +kernel)
  have hvalues : [(⟨false, 1, 28⟩ : Decimal), ⟨false, 1, -2⟩, ⟨true, 1, 28⟩].map Decimal.value =
      [10 ^ 28, 1 / 100, -10 ^ 28] := by
    simp only [List.map_cons, List.map_nil, Decimal.value_mk_neg, Decimal.value_mk]
    norm_num
  have hsum : RoundingMethod.round.exact 2 [(10 : ℚ) ^ 28, 1 / 100, -10 ^ 28].sum = 1 / 100 := by
    have hexact := RoundingMethod.round.exact_int_div 2 1
    norm_num at hexact ⊢
    exact hexact
  have hbound : ∀ xs, xs <+: [(10 : ℚ) ^ 28, 1 / 100, -10 ^ 28] →
      |ordinary.runningSum xs| < 10 ^ (32 : Int) := by
    intro xs hxs
    have hlength := hxs.length_le
    refine (Context.abs_runningSum_le (k := 28) (by decide) (by decide) fun x hx => ?_).trans_lt
      (zpow_lt_zpow_right₀ (by norm_num) ?_)
    · have hmem := hxs.subset hx
      simp only [List.mem_cons, List.not_mem_nil, or_false] at hmem
      rcases hmem with rfl | rfl | rfl <;> norm_num [abs_le]
    · simp only [List.length_cons, List.length_nil] at hlength
      omega
  have hwide {e : Int} (he : 32 ≤ e) : ∀ xs, xs <+: [(10 : ℚ) ^ 28, 1 / 100, -10 ^ 28] →
      |ordinary.runningSum xs| < 10 ^ e := fun xs hxs =>
    (hbound xs hxs).trans_le (zpow_le_zpow_right₀ (by norm_num) he)
  have hplaces : 2 ≤ maxPlaces := by decide
  obtain ⟨r, hr, -, hvalue, -, -⟩ : ∃ r,
      sumAndRound [.text "1E+28", .text "0.01", .text "-1E+28"] (.int (2 : ℕ))
        (.text RoundingMethod.round.name) = .ok r ∧ _ :=
    sumAndRound_runningSum hds hplaces (by rw [hvalues]; exact hwide (by decide))
      (by rw [hvalues]; exact hwide (by decide) _ List.prefix_rfl)
  rw [hvalues] at hvalue
  have hzero : sumAndRound [.text "1E+28", .text "0.01", .text "-1E+28"] (.int (2 : ℕ))
      (.text RoundingMethod.round.name) = .ok ⟨false, 0, -2⟩ := ok_of_toOption (by decide +kernel)
  obtain rfl : ⟨false, 0, -2⟩ = r := Except.ok.inj (hzero.symm.trans hr)
  exact ⟨⟨_, hr, Decimal.value_zero _ _, hvalue⟩, hsum, ok_of_toOption (by decide +kernel)⟩

end

end Payroll
