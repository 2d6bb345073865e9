import Mathlib
import Payroll.Proofs.DistributedTotals
import Payroll.Proofs.RoundingOutcomes

/-!
Numbers with no more than so many decimal places. Rounding to these places leaves them as they are, and a
context adds and subtracts them exactly as long as it has the digits.
-/

namespace Payroll

open Decimal (Context ordinary)

/-- A multiple of the unit in the last of so many places. -/
def Whole (places : Nat) (x : ℚ) : Prop := ∃ k : ℤ, x = k / 10 ^ places

namespace Whole

variable {places : Nat} {x y : ℚ}

theorem zero (places : Nat) : Whole places 0 := ⟨0, by rw [Int.cast_zero, zero_div]⟩

theorem add (hx : Whole places x) (hy : Whole places y) : Whole places (x + y) := by
  obtain ⟨j, rfl⟩ := hx
  obtain ⟨k, rfl⟩ := hy
  exact ⟨j + k, by rw [Int.cast_add, add_div]⟩

theorem sub (hx : Whole places x) (hy : Whole places y) : Whole places (x - y) := by
  obtain ⟨j, rfl⟩ := hx
  obtain ⟨k, rfl⟩ := hy
  exact ⟨j - k, by rw [Int.cast_sub, sub_div]⟩

/-- A context cuts whole places down to its digits, or leaves them as they are. -/
theorem rounded (ctx : Context) (h : Whole places x) : Whole places (ctx.rounded x) := by
  obtain ⟨k, hk⟩ := h
  rw [← mul_zpow_places] at hk
  rw [Context.rounded_eq]
  rcases le_total (ctx.place x) (-places) with hplace | hplace
  · obtain ⟨n, hn⟩ := Decimal.Rounding.exists_int_mul k hplace
    have hself := Decimal.Rounding.toPlace_int_mul .halfEven (ctx.place x) n
    rw [← hn, ← hk] at hself
    exact ⟨k, by rw [hself, hk, mul_zpow_places]⟩
  · obtain ⟨n, hn⟩ := Decimal.Rounding.exists_int_mul
      (Decimal.Rounding.nearest .halfEven (x / 10 ^ ctx.place x)) hplace
    exact ⟨n, by rw [← mul_zpow_places, ← hn, Decimal.Rounding.toPlace]⟩

theorem exact (method : RoundingMethod) (h : Whole places x) : method.exact places x = x := by
  obtain ⟨k, rfl⟩ := h
  exact method.exact_int_div places k

end Whole

namespace RoundingPolicy

variable {policy : RoundingPolicy} {d r : Decimal}

theorem whole_of_apply (h : policy.apply d = .ok r) : Whole policy.places r.value :=
  exists_div_places (le_exponent_of_roundTo Context.standard_ordinary h)

theorem apply_of_whole (hd : Whole policy.places d.value) (h : policy.apply d = .ok r) :
    r.value = d.value := by
  obtain ⟨k, hk⟩ := hd
  have hs := Context.standard_ordinary
  obtain ⟨ctx, hctx, hr⟩ := value_of_roundTo hs (by decide) policy.bounded h
  rw [hr]
  exact exact_seen_eq_self _ (lastPlace_lt hs policy.bounded hctx) hk

theorem value_of_apply_zero (h : policy.apply 0 = .ok r) : r.value = 0 := by
  rw [apply_of_whole ?_ h, Decimal.value_zero']
  rw [Decimal.value_zero']
  exact .zero _

end RoundingPolicy

namespace Decimal.Context

/-- Whole places that a context has digits for, not negative. -/
structure Fitting (ctx : Context) (places : Nat) (x : ℚ) : Prop where
  whole : Whole places x
  nonneg : 0 ≤ x
  small : x < 10 ^ (ctx.precision - places : ℤ)

namespace Fitting

variable {ctx : Context} {places : Nat} {x y : ℚ} {a b r : Decimal}

theorem sub (hx : ctx.Fitting places x) (hy : ctx.Fitting places y) (hle : y ≤ x) :
    ctx.Fitting places (x - y) where
  whole := hx.whole.sub hy.whole
  nonneg := sub_nonneg.2 hle
  small := (sub_le_self x hy.nonneg).trans_lt hx.small

variable (hs : ctx.Standard) (hpos : 0 < ctx.precision) (hmax : ctx.precision ≤ 999999)
  (hplaces : places ≤ maxPlaces)

include hs hpos hmax hplaces

theorem represents (h : ctx.Fitting places x) : ctx.Represents x := by
  obtain ⟨k, hk⟩ := h.whole
  have hunit : (0 : ℚ) < 10 ^ places := by positivity
  have hnonneg := hk ▸ h.nonneg
  have hsmall := hk ▸ h.small
  rw [le_div_iff₀ hunit, zero_mul] at hnonneg
  rw [div_lt_iff₀ hunit, ← zpow_natCast, ← zpow_add₀ (by norm_num), sub_add_cancel] at hsmall
  rw [hk]
  refine represents_places hs hpos hmax hplaces ?_
  rw [abs_of_nonneg hnonneg]
  exact_mod_cast hsmall

theorem value_of_add (h : ctx.Fitting places (a.value + b.value)) (hr : ctx.add a b = .ok r) :
    r.value = a.value + b.value := by
  rw [Context.value_of_add hpos hr, rounded_of_represents (h.represents hs hpos hmax hplaces)]

theorem value_of_sub (h : ctx.Fitting places (a.value - b.value)) (hr : ctx.sub a b = .ok r) :
    r.value = a.value - b.value := by
  rw [Context.value_of_sub hpos hr, rounded_of_represents (h.represents hs hpos hmax hplaces)]

end Fitting

end Decimal.Context

namespace RoundingPolicy

variable {policy : RoundingPolicy} {a b r : Decimal}

theorem value_of_add (ha : Whole policy.places a.value) (hb : Whole policy.places b.value)
    (hnonneg : 0 ≤ a.value + b.value) (hsmall : a.value + b.value < 10 ^ (28 - policy.places : ℤ))
    (h : ordinary.add a b = .ok r) : Whole policy.places r.value ∧ r.value = a.value + b.value := by
  have hvalue := Context.Fitting.value_of_add Context.standard_ordinary (by decide) (by decide)
    policy.bounded ⟨ha.add hb, hnonneg, hsmall⟩ h
  exact ⟨hvalue ▸ ha.add hb, hvalue⟩

theorem value_of_sub (ha : Whole policy.places a.value) (hb : Whole policy.places b.value)
    (hle : b.value ≤ a.value) (hsmall : a.value - b.value < 10 ^ (28 - policy.places : ℤ))
    (h : ordinary.sub a b = .ok r) : Whole policy.places r.value ∧ r.value = a.value - b.value := by
  have hvalue := Context.Fitting.value_of_sub Context.standard_ordinary (by decide) (by decide)
    policy.bounded ⟨ha.sub hb, sub_nonneg.2 hle, hsmall⟩ h
  exact ⟨hvalue ▸ ha.sub hb, hvalue⟩

end RoundingPolicy

end Payroll
