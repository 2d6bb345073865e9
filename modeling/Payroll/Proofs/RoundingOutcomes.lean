import Mathlib
import Payroll.Proofs.ContextRounding
import Payroll.Proofs.RoundedAmounts

/-!
What rounding has done whenever it gives a result. Numbers of any size that are rounded at all are rounded
as their method says; the results are ordered as the numbers and have their signs.
-/

namespace Payroll

open Decimal (Context Rounding ordinary)
open Result

/-- A number that is not negative has one that is not negative, and the other way around. -/
def KeepsSign (x y : ℚ) : Prop := (0 ≤ x → 0 ≤ y) ∧ (x ≤ 0 → y ≤ 0)

namespace KeepsSign

variable {x y z : ℚ}

theorem refl (x : ℚ) : KeepsSign x x := ⟨id, id⟩

theorem trans (h : KeepsSign x y) (h' : KeepsSign y z) : KeepsSign x z :=
  ⟨h'.1 ∘ h.1, h'.2 ∘ h.2⟩

theorem neg (h : KeepsSign x y) : KeepsSign (-x) (-y) :=
  ⟨fun hx => neg_nonneg.2 (h.2 (neg_nonneg.1 hx)), fun hx => neg_nonpos.2 (h.1 (neg_nonpos.1 hx))⟩

theorem neg_iff : KeepsSign (-x) (-y) ↔ KeepsSign x y :=
  ⟨fun h => by simpa using h.neg, neg⟩

theorem of_mono {f : ℚ → ℚ} (hf : Monotone f) (hzero : f 0 = 0) (x : ℚ) : KeepsSign x (f x) :=
  ⟨fun h => hzero.symm.trans_le (hf h), fun h => (hf h).trans_eq hzero⟩

theorem mul_of_nonneg {c : ℚ} (hc : 0 ≤ c) (x : ℚ) : KeepsSign x (x * c) :=
  of_mono (fun _ _ h => mul_le_mul_of_nonneg_right h hc) (zero_mul c) x

end KeepsSign

namespace Decimal.Context

variable {ctx : Context} {d r : Decimal} {e : Int}

theorem keepsSign_rounded (hprecision : 0 < ctx.precision) (x : ℚ) : KeepsSign x (ctx.rounded x) :=
  .of_mono (rounded_mono hprecision) ctx.rounded_zero x

/-- A number is written with an exponent for which the context has room. -/
theorem value_of_quantize {mode : Rounding} (hs : ctx.Standard) (hprecision : 0 < ctx.precision)
    (h : ctx.quantize mode e d = .ok r)
    (hroom : |mode.toPlace e d.value| < 10 ^ (e + ctx.precision)) :
    r.value = mode.toPlace e d.value ∧ ctx.Represents r.value := by
  have hvalue := value_quantized mode e d
  rw [← Rounding.toPlace] at hvalue
  unfold quantize at h
  split at h
  · cases h
  · next hrange =>
    split at h
    · next hz =>
      have hnone := mode.toPlace_int_mul e 0
      rw [Int.cast_zero, zero_mul] at hnone
      refine ⟨?_, represents_of_fit hprecision hs h⟩
      rw [value_of_fit hprecision h, value_zero, rounded_zero, value_eq_zero.2 hz, hnone]
    · split at h
      · cases h
      · extract_lets c x at h
        have hx : x.value = mode.toPlace e d.value := hvalue
        have hdigits : x.digits ≤ ctx.precision := by
          refine digits_le_of_abs_lt hprecision ?_
          rw [hx]
          exact hroom
        split at h
        · cases h
        · next hadjusted =>
          have hlow : ctx.tiny ≤ x.exponent := not_lt.1 fun hlow => hrange (.inr hlow)
          have hself : ctx.fit x = .ok x :=
            fit_eq_self hdigits hlow (not_lt.1 fun hhigh => hadjusted (.inl hhigh))
          obtain rfl : x = r := Except.ok.inj (hself.symm.trans h)
          exact ⟨hx, represents_of_fit hprecision hs h⟩

end Decimal.Context

section

variable {outer ctx : Context} {places : Nat} {method : RoundingMethod} {a b d r s : Decimal}

theorem exact_zero (method : RoundingMethod) (places : Nat) : method.exact places 0 = 0 := by
  simpa using method.exact_int_div places 0

/-- The context for a number has room for its rounded value. -/
theorem abs_toPlace_lt (mode : Rounding) {x : ℚ} {k : Int} (hx : |x| ≤ 10 ^ k)
    (hroom : k + places + 1 ≤ ctx.precision) (hprecision : 0 < ctx.precision) :
    |mode.toPlace (-places) x| < 10 ^ (-(places : Int) + ctx.precision) := by
  have hsize : |mode.toPlace (-places) x| ≤ 10 ^ max k (-places) :=
    Rounding.abs_toPlace_le (le_max_right _ _)
      (hx.trans (zpow_le_zpow_right₀ (by norm_num) (le_max_left _ _)))
  exact hsize.trans_lt (zpow_lt_zpow_right₀ (by norm_num) (by omega))

theorem value_of_roundTo (hs : outer.Standard) (hpos : 0 < outer.precision)
    (hplaces : places ≤ maxPlaces) (h : roundTo outer places method d = .ok r) :
    ∃ ctx, roundingContext outer places d = .ok ctx ∧
      r.value = method.exact places (method.seen ctx d) := by
  obtain ⟨ctx, hctx, -⟩ := bind_eq_ok.1 h
  refine ⟨ctx, hctx, ?_⟩
  have hs' := standard_roundingContext hs hctx
  obtain ⟨hprecision, -, hmin⟩ := roundingContext_precision hctx
  have hpos' : 0 < ctx.precision := by omega
  by_cases hm : method = .halfUp ∧ d.value < 0
  · rw [RoundingMethod.seen, if_pos hm]
    obtain ⟨rfl, hneg⟩ := hm
    obtain ⟨m, q, hm, hq, hr⟩ := (roundTo_negated_eq_ok hctx hneg).1 h
    have hmvalue : m.value = -ctx.kept d := by
      rw [Context.value_of_neg hpos' hm, Context.rounded_neg, Context.kept_eq_rounded]
    have hmsize : |m.value| ≤ 10 ^ max (d.adjusted + 1) ctx.tiny := by
      rw [hmvalue, abs_neg]
      exact ctx.abs_kept_le d
    have hroom : max (d.adjusted + 1) ctx.tiny + places + 1 ≤ ctx.precision := by
      have hmin' := hs.minExponent
      simp only [maxPlaces] at hplaces
      rw [Context.tiny]
      omega
    obtain ⟨hqvalue, hheld⟩ := Context.value_of_quantize hs' hpos' hq
      (abs_toPlace_lt .halfDown hmsize hroom hpos')
    rw [Context.value_of_neg hpos' hr, Context.rounded_of_represents hheld.neg, hqvalue, hmvalue,
      Rounding.toPlace_halfDown_neg (Context.kept_nonpos hneg.le)]
  · rw [roundTo_direct hctx hm, signal_eq_ok] at h
    have hsize : |d.value| ≤ 10 ^ (d.adjusted + 1) := (Decimal.abs_value_lt d).le
    rw [RoundingMethod.seen, if_neg hm, RoundingMethod.exact_direct hm, ← Rounding.toPlace_places]
    exact (Context.value_of_quantize hs' hpos' h
      (abs_toPlace_lt method.mode hsize (by omega) hpos')).1

theorem adjusted_le_of_roundTo (hs : outer.Standard) (h : roundTo outer places method d = .ok r) :
    r.adjusted ≤ outer.maxExponent := by
  obtain ⟨ctx, hctx, hsteps⟩ := roundTo_eq_ok h
  have hs' := standard_roundingContext hs hctx
  rw [hs.maxExponent, ← hs'.maxExponent]
  obtain ⟨mode, hr⟩ | ⟨m, q, -, -, hr⟩ := hsteps
  · exact Context.adjusted_le_of_quantize hs' hr
  · exact Context.adjusted_le_of_fit hs' hr

theorem roundTo_mono (hs : outer.Standard) (hpos : 0 < outer.precision) (hplaces : places ≤ maxPlaces)
    (ha : roundTo outer places method a = .ok r) (hb : roundTo outer places method b = .ok s)
    (h : a.value ≤ b.value) : r.value ≤ s.value := by
  obtain ⟨ca, hca, hr⟩ := value_of_roundTo hs hpos hplaces ha
  obtain ⟨cb, hcb, hs'⟩ := value_of_roundTo hs hpos hplaces hb
  rw [hr, hs']
  exact method.exact_mono places (seen_mono method hs hpos hplaces hca hcb h)

theorem keepsSign_seen (method : RoundingMethod) (ctx : Context) (d : Decimal) :
    KeepsSign d.value (method.seen ctx d) := by
  rw [RoundingMethod.seen]
  split
  · next hneg => exact ⟨fun h => absurd h hneg.2.not_ge, fun h => Context.kept_nonpos h⟩
  · exact .refl _

theorem keepsSign_roundTo (hs : outer.Standard) (hpos : 0 < outer.precision)
    (hplaces : places ≤ maxPlaces) (h : roundTo outer places method d = .ok r) :
    KeepsSign d.value r.value := by
  obtain ⟨ctx, -, hr⟩ := value_of_roundTo hs hpos hplaces h
  rw [hr]
  exact (keepsSign_seen method ctx d).trans
    (.of_mono (method.exact_mono places) (exact_zero method places) _)

end

end Payroll
