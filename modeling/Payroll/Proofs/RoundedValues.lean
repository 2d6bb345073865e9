import Mathlib
import Payroll.Proofs.RoundedAmounts
import Payroll.Proofs.TableRecords

/-!
What is promised of a rounded value: its places, its distance from the value, that it rounds to itself
and keeps the order. Zeros with an exponent beyond every context are the only values that are refused.
-/

namespace Payroll

open Decimal (Context Rounding ordinary)
open Result

variable {value other : Json} {d e r : Decimal} {places : Nat} {method : RoundingMethod}

/-- No context has room for the places beside the leading exponent. -/
def BeyondContexts (places : Nat) (d : Decimal) : Prop := maxPrecision < d.adjusted + places + 2

instance : Decidable (BeyondContexts places d) := inferInstanceAs (Decidable (_ < _))

/-- A decimal that is rounded to places. -/
structure RoundsTo (method : RoundingMethod) (places : Nat) (d r : Decimal) : Prop where
  exponent : r.exponent = -places
  exact : method ≠ .halfUp → r.value = method.exact places d.value
  near : |r.value - d.value| ≤ 1 / 10 ^ places
  again : roundValue (.ofDecimal r) (.int places) (.text method.name) = .ok r

theorem placesOf_int (h : places ≤ maxPlaces) : placesOf (.int places) = .ok places := by
  rw [placesOf, if_pos ⟨Int.natCast_nonneg _, Int.ofNat_le.2 h⟩, Int.toNat_natCast]

theorem RoundingMethod.ofJson_name (m : RoundingMethod) : ofJson (.text m.name) = .ok m := by
  simp [ofJson, Json.text?, ofName?_name]

theorem roundValue_eq (hd : value.toDecimal = .ok d) (hplaces : places ≤ maxPlaces) :
    roundValue value (.int places) (.text method.name) = roundTo ordinary places method d := by
  rw [roundValue, placesOf_int hplaces]
  exact bind_of_eq_ok rfl (bind_of_eq_ok method.ofJson_name (bind_of_eq_ok hd rfl))

theorem fitsPlaces_eq (hd : value.toDecimal = .ok d) (hplaces : places ≤ maxPlaces) :
    fitsPlaces value (.int places) = (do
      let ctx ← roundingContext ordinary places d
      let q ← ctx.quantize .halfEven (-places) d
      pure (d.same q)) := by
  rw [fitsPlaces, placesOf_int hplaces]
  exact bind_of_eq_ok rfl (bind_of_eq_ok hd rfl)

theorem adjusted_lt_of_abs_lt (h : |d.value| < 10 ^ ordinary.maxExponent) (hz : d.isZero = false) :
    d.adjusted < ordinary.maxExponent := by
  have hle := (Decimal.adjusted_le_iff hz (ordinary.maxExponent - 1)).2 (by rwa [sub_add_cancel])
  omega

/-- Below the largest exponent only zeros are beyond all contexts. -/
theorem isZero_of_beyond (h : |d.value| < 10 ^ ordinary.maxExponent) (hplaces : places ≤ maxPlaces)
    (hd : BeyondContexts places d) : d.isZero = true := by
  by_contra hz
  have hlt := adjusted_lt_of_abs_lt h (by simpa using hz)
  have hmax : ordinary.maxExponent = 999999 := rfl
  simp only [BeyondContexts, maxPrecision, maxPlaces] at *
  omega

theorem BeyondContexts.mono {places' : Nat} (h : BeyondContexts places d) (hle : places ≤ places') :
    BeyondContexts places' d := by
  simp only [BeyondContexts] at *
  omega

theorem roundTo_of_beyond {outer : Context} (h : BeyondContexts places d) :
    roundTo outer places method d = .error .digitLimit := by
  rw [roundTo, roundingContext, if_pos (h.trans_le (le_max_right _ _))]
  rfl

theorem roundingContext_of_beyond (h : BeyondContexts places d) :
    roundingContext ordinary places d = .error .digitLimit := by
  rw [roundingContext, if_pos (h.trans_le (le_max_right _ _))]

theorem exists_roundingContext (h : ¬BeyondContexts places d) :
    ∃ ctx, roundingContext ordinary places d = .ok ctx := by
  have hprecision : (ordinary.precision : Int) ≤ maxPrecision := by decide
  rw [roundingContext, if_neg (max_le hprecision (not_lt.1 h)).not_gt]
  exact ⟨_, rfl⟩

theorem exists_roundTo_of_abs_lt (hadjusted : d.adjusted ≤ ordinary.maxExponent)
    (hsize : |d.value| < 10 ^ ordinary.maxExponent) (hplaces : places ≤ maxPlaces)
    (method : RoundingMethod) : ∃ r, roundTo ordinary places method d = .ok r := by
  have hbeyond : ¬BeyondContexts places d := by
    have hmax : ordinary.maxExponent = 999999 := rfl
    simp only [BeyondContexts, maxPrecision, maxPlaces] at *
    omega
  obtain ⟨ctx, hctx⟩ := exists_roundingContext hbeyond
  obtain ⟨r, hr, -⟩ := exists_roundTo Context.standard_ordinary (by decide) hplaces method hctx
    (adjusted_lt_of_abs_lt hsize)
  exact ⟨r, hr⟩

theorem exists_rounded (hd : value.toDecimal = .ok d) (hsize : |d.value| < 10 ^ ordinary.maxExponent)
    (hplaces : places ≤ maxPlaces) {ctx : Context}
    (hctx : roundingContext ordinary places d = .ok ctx) (method : RoundingMethod) :
    ∃ r, roundValue value (.int places) (.text method.name) = .ok r ∧
      r.value = method.exact places (method.seen ctx d) ∧ RoundsTo method places d r := by
  have hs := Context.standard_ordinary
  obtain ⟨r, hr, hvalue, hexponent, hadjusted⟩ := exists_roundTo hs (by decide) hplaces method hctx
    (adjusted_lt_of_abs_lt hsize)
  have hagain := roundTo_self hs hplaces method hexponent hadjusted
  refine ⟨r, (roundValue_eq hd hplaces).trans hr, hvalue, hexponent, fun hmethod => ?_, ?_, ?_⟩
  · rw [hvalue, RoundingMethod.seen, if_neg fun h => hmethod h.1]
  · rw [hvalue]
    exact abs_exact_seen_sub_le method (lastPlace_lt hs hplaces hctx)
  · exact (roundValue_eq (Json.toDecimal_ofDecimal (readable_of_roundTo hs hr)) hplaces).trans hagain

/-- A decimal fits the places if rounding leaves it as it is. -/
theorem exists_fits (hd : value.toDecimal = .ok d) (hsize : |d.value| < 10 ^ ordinary.maxExponent)
    (hplaces : places ≤ maxPlaces) {ctx : Context}
    (hctx : roundingContext ordinary places d = .ok ctx) :
    ∃ fits, fitsPlaces value (.int places) = .ok fits ∧
      (fits = true ↔ RoundingMethod.exact .halfEven places d.value = d.value) := by
  obtain ⟨r, hr, hvalue, -⟩ := exists_roundTo Context.standard_ordinary (by decide) hplaces .halfEven
    hctx (adjusted_lt_of_abs_lt hsize)
  obtain ⟨ctx', hctx', hr⟩ := bind_eq_ok.1 hr
  obtain rfl : ctx = ctx' := Except.ok.inj (hctx.symm.trans hctx')
  refine ⟨d.same r, ?_, ?_⟩
  · rw [fitsPlaces_eq hd hplaces]
    exact bind_eq_ok.2 ⟨ctx, hctx, bind_eq_ok.2 ⟨r, hr, rfl⟩⟩
  · rw [Decimal.same_iff, hvalue, RoundingMethod.seen, if_neg fun h => absurd h.1 (by decide)]
    exact eq_comm

/-- Every value below the largest exponent, of however many digits, is rounded to the given places by
every method. The result is near, rounds to itself and keeps the order, and it is the exact one for all
methods but `HALF_UP`; a value fits the places if no method changes it. Only a zero with an exponent
beyond every context is refused, by the check of the places too. -/
theorem roundValue_wellBehaved (hd : value.toDecimal = .ok d)
    (hsize : |d.value| < 10 ^ ordinary.maxExponent) (hplaces : places ≤ maxPlaces) :
    BeyondContexts places d ∧ d.isZero = true ∧
      (∀ method : RoundingMethod,
        roundValue value (.int places) (.text method.name) = .error .digitLimit) ∧
      fitsPlaces value (.int places) = .error .digitLimit ∨
    ¬BeyondContexts places d ∧ ∃ rounded : RoundingMethod → Decimal,
      (∀ method, roundValue value (.int places) (.text method.name) = .ok (rounded method) ∧
        RoundsTo method places d (rounded method)) ∧
      (∀ (method : RoundingMethod) (other : Json) (e r : Decimal), other.toDecimal = .ok e →
        |e.value| < 10 ^ ordinary.maxExponent → d.value ≤ e.value →
        roundValue other (.int places) (.text method.name) = .ok r →
        (rounded method).value ≤ r.value) ∧
      ∃ fits, fitsPlaces value (.int places) = .ok fits ∧
        (fits = true ↔ ∀ method, (rounded method).value = d.value) := by
  have hs := Context.standard_ordinary
  by_cases hbeyond : BeyondContexts places d
  · have hctx := roundingContext_of_beyond hbeyond
    refine .inl ⟨hbeyond, isZero_of_beyond hsize hplaces hbeyond, fun method => ?_, ?_⟩
    · rw [roundValue_eq hd hplaces, roundTo, hctx]
      rfl
    · rw [fitsPlaces_eq hd hplaces, hctx]
      rfl
  · obtain ⟨ctx, hctx⟩ := exists_roundingContext hbeyond
    choose rounded hrounded hvalue hsound using exists_rounded hd hsize hplaces hctx
    have hplace := lastPlace_lt hs hplaces hctx
    refine .inr ⟨hbeyond, rounded, fun method => ⟨hrounded method, hsound method⟩, ?_, ?_⟩
    · intro method other e r he hesize hle hr
      have hother : ¬BeyondContexts places e := by
        intro hbeyond'
        rw [roundValue_eq he hplaces, roundTo, roundingContext_of_beyond hbeyond'] at hr
        cases hr
      obtain ⟨ctx', hctx'⟩ := exists_roundingContext hother
      obtain ⟨r', hr', hrvalue, -⟩ := exists_rounded he hesize hplaces hctx' method
      obtain rfl : r = r' := Except.ok.inj (hr.symm.trans hr')
      rw [hvalue, hrvalue]
      exact method.exact_mono places (seen_mono method hs (by decide) hplaces hctx hctx' hle)
    · obtain ⟨fits, hfits, hiff⟩ := exists_fits hd hsize hplaces hctx
      refine ⟨fits, hfits, hiff.trans ⟨fun h method => ?_, fun h => ?_⟩⟩
      · rw [hvalue]
        exact exact_seen_eq_self method hplace h.symm
      · rw [← (hsound .halfEven).exact (by decide)]
        exact h .halfEven

theorem abs_value_lt_of_adjusted (h : d.adjusted < ordinary.maxExponent) :
    |d.value| < 10 ^ ordinary.maxExponent :=
  (Decimal.abs_value_lt d).trans_le (zpow_le_zpow_right₀ (by norm_num) h)

/-- A carry into a new digit is rounded as any value, a zero beyond the contexts is refused. -/
theorem carry_rounded_zero_refused :
    (∃ rounded : RoundingMethod → Decimal, ∀ method,
      roundValue (.text "9.995") (.int 2) (.text method.name) = .ok (rounded method) ∧
        RoundsTo method 2 9.995 (rounded method)) ∧
    ∀ method : RoundingMethod,
      roundValue (.text "0E+999999999999999999") (.int 2) (.text method.name) =
        .error .digitLimit := by
  have hplaces : 2 ≤ maxPlaces := by decide
  constructor
  · have hd : (Json.text "9.995").toDecimal = .ok 9.995 := ok_of_toOption (by decide +kernel)
    rcases roundValue_wellBehaved hd (abs_value_lt_of_adjusted (by decide +kernel)) hplaces
      with ⟨hbeyond, -⟩ | ⟨-, rounded, hrounded, -⟩
    · exact absurd hbeyond (by decide +kernel)
    · exact ⟨rounded, hrounded⟩
  · have hd : (Json.text "0E+999999999999999999").toDecimal =
        .ok ⟨false, 0, 999999999999999999⟩ := ok_of_toOption (by decide +kernel)
    have hsize : |(⟨false, 0, 999999999999999999⟩ : Decimal).value| < 10 ^ ordinary.maxExponent := by
      rw [Decimal.value_zero, abs_zero]
      exact Decimal.ten_zpow_pos _
    rcases roundValue_wellBehaved hd hsize hplaces with ⟨-, -, hrefused, -⟩ | ⟨hbeyond, -⟩
    · exact hrefused
    · exact absurd (by decide +kernel) hbeyond

/-- `HALF_UP` gives the integer below the value and a half, in units of the last place. A negative
value just below a half that its context makes this half comes out one unit higher; it has more digits
than the context, or is below the least exponent. -/
theorem roundValue_halfUp (hd : value.toDecimal = .ok d)
    (hsize : |d.value| < 10 ^ ordinary.maxExponent) (hplaces : places ≤ maxPlaces) :
    BeyondContexts places d ∧ d.isZero = true ∧
      roundValue value (.int places) (.text RoundingMethod.halfUp.name) = .error .digitLimit ∨
    ∃ ctx r, roundingContext ordinary places d = .ok ctx ∧
      roundValue value (.int places) (.text RoundingMethod.halfUp.name) = .ok r ∧
      r.exponent = -places ∧
      (¬RaisedToHalf ctx places d → r.value = ⌊d.value * 10 ^ places + 1 / 2⌋ / 10 ^ places) ∧
      (RaisedToHalf ctx places d → r.value = (⌊d.value * 10 ^ places + 1 / 2⌋ + 1) / 10 ^ places) ∧
      (0 ≤ d.value ∨ d.digits ≤ ctx.precision ∧ ctx.tiny ≤ d.exponent →
        ¬RaisedToHalf ctx places d) := by
  by_cases hbeyond : BeyondContexts places d
  · refine .inl ⟨hbeyond, isZero_of_beyond hsize hplaces hbeyond, ?_⟩
    rw [roundValue_eq hd hplaces, roundTo, roundingContext_of_beyond hbeyond]
    rfl
  · obtain ⟨ctx, hctx⟩ := exists_roundingContext hbeyond
    obtain ⟨r, hr, hvalue, hsound⟩ := exists_rounded hd hsize hplaces hctx .halfUp
    have hplace := lastPlace_lt Context.standard_ordinary hplaces hctx
    refine .inr ⟨ctx, r, hctx, hr, hsound.exponent, ?_, ?_, ?_⟩
    · exact fun h => hvalue.trans (exact_seen_of_not_raised hplace h)
    · exact fun h => hvalue.trans (exact_seen_of_raised hplace h)
    · rintro (hnonneg | ⟨hdigits, hlow⟩) ⟨hneg, hlt, -⟩
      · exact hneg.not_ge hnonneg
      · exact hlt.ne (Context.kept_of_digits hdigits hlow).symm

/-- A number below minus a half, of more digits than its context has, is rounded as that half. -/
theorem below_half_raised :
    ⌊(⟨true, 5000000000000000000000000000001, -31⟩ : Decimal).value * 10 ^ 0 + 1 / 2⌋ = -1 ∧
      roundValue (.text "-0.5000000000000000000000000000001") (.int 0) (.text "HALF_UP") = .ok 0 ∧
      ∃ ctx, roundingContext ordinary 0 ⟨true, 5000000000000000000000000000001, -31⟩ = .ok ctx ∧
        RaisedToHalf ctx 0 ⟨true, 5000000000000000000000000000001, -31⟩ := by
  have hfloor :
      ⌊(⟨true, 5000000000000000000000000000001, -31⟩ : Decimal).value * 10 ^ 0 + 1 / 2⌋ = -1 := by
    rw [Int.floor_eq_iff, Decimal.value_mk_neg, Decimal.value_mk]
    norm_num
  have hresult : roundValue (.text "-0.5000000000000000000000000000001") (.int 0)
      (.text RoundingMethod.halfUp.name) = .ok 0 := ok_of_toOption (by decide +kernel)
  refine ⟨hfloor, hresult, ?_⟩
  have hd : (Json.text "-0.5000000000000000000000000000001").toDecimal =
      .ok ⟨true, 5000000000000000000000000000001, -31⟩ := ok_of_toOption (by decide +kernel)
  have hplaces : 0 ≤ maxPlaces := by decide
  rcases roundValue_halfUp hd (abs_value_lt_of_adjusted (by decide +kernel)) hplaces
    with ⟨hbeyond, -⟩ | ⟨ctx, r, hctx, hr, -, hexact, -, -⟩
  · exact absurd hbeyond (by decide +kernel)
  · refine ⟨ctx, hctx, not_not.1 fun h => ?_⟩
    obtain rfl : 0 = r := Except.ok.inj (hresult.symm.trans hr)
    have hone := hexact h
    rw [hfloor, Decimal.value_zero'] at hone
    norm_num at hone

end Payroll
