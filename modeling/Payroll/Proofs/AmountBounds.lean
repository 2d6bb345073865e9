import Mathlib
import Payroll.Proofs.DistributedSigns
import Payroll.Proofs.TaxProgression
import Payroll.Proofs.WholePlaces

/-!
Amounts between zero and a power of ten. Arithmetic on them succeeds with a bounded result as long as the
power stays within the exponents, and so does rounding.
-/

namespace Payroll

open Decimal (Context Signal ordinary)

open Result

namespace Decimal

variable {a b d : Decimal} {i j k : Nat} {places : Nat}

namespace Context

variable {ctx : Context} {e : Int}

theorem yieldsWithin_div (hs : ctx.Standard) (hprecision : 0 < ctx.precision) (hlow : ctx.tiny ≤ e)
    (hhigh : e ≤ ctx.maxExponent) (hb : b.isZero = false) (h : |a.value / b.value| ≤ 10 ^ e) :
    ctx.YieldsWithin (ctx.div a b) e := by
  cases ha : a.isZero with
  | true =>
      have hzero : |(0 : ℚ)| ≤ 10 ^ e := abs_zero.trans_le (ten_zpow_pos e).le
      rw [div_of_isZero ha hb]
      exact yieldsWithin_fit hs hprecision hlow hhigh hzero (congrArg _ (value_zero _ _))
  | false =>
      obtain ⟨d, hdiv, hwithin⟩ := ctx.exists_div ha hb
      have hlead := (pow_lt_quotient ha hb).trans_le (abs_div a.value b.value ▸ h)
      have hplace := (zpow_lt_zpow_iff_right₀ (by norm_num : (1 : ℚ) < 10)).1 hlead
      obtain ⟨n, hn⟩ := Rounding.exists_pow
        (show a.adjusted - b.adjusted - ctx.precision - 1 ≤ e by omega)
      have hsize : |d.value| ≤ 10 ^ e := hn ▸ (hwithin.abs n).2 (hn ▸ h)
      exact hdiv ▸ yieldsWithin_fit hs hprecision hlow hhigh hsize rfl

end Context

/-- Not negative, and at most a power of ten. -/
structure Upto (k : Nat) (d : Decimal) : Prop where
  nonneg : 0 ≤ d.value
  le : d.value ≤ 10 ^ k

/-- Such a number with an exponent that arithmetic gives. -/
structure FittedUpto (k : Nat) (d : Decimal) : Prop extends Upto k d where
  adjusted : d.adjusted ≤ ordinary.maxExponent

namespace Upto

theorem mono (h : d.Upto j) (hjk : j ≤ k) : d.Upto k :=
  ⟨h.nonneg, h.le.trans (pow_le_pow_right₀ (by norm_num) hjk)⟩

theorem zero (k : Nat) : (0 : Decimal).Upto k := by
  rw [show (0 : Decimal) = ⟨false, 0, 0⟩ from rfl]
  exact ⟨(value_zero _ _).ge, (value_zero _ _).trans_le (by positivity)⟩

theorem min (ha : a.Upto k) (hb : 0 ≤ b.value) : (min2 a b).Upto k := by
  constructor
  · rw [value_min2]
    exact le_min ha.nonneg hb
  · rw [value_min2]
    exact (min_le_left _ _).trans ha.le

theorem ofNat {n : Nat} (h : n ≤ 10 ^ k) : (ofInt n).Upto k := by
  rw [← Nat.cast_le (α := ℚ)] at h
  constructor <;> rw [value_ofInt]
  · exact_mod_cast n.cast_nonneg (α := ℚ)
  · exact_mod_cast h

theorem abs_lt (h : d.Upto k) (hk : k < 999999) : |d.value| < 10 ^ ordinary.maxExponent := by
  have hhigh : (k : Int) < ordinary.maxExponent := Int.ofNat_lt.2 hk
  rw [abs_of_nonneg h.nonneg]
  exact (zpow_natCast (10 : ℚ) k ▸ h.le).trans_lt (zpow_lt_zpow_right₀ (by norm_num) hhigh)

end Upto

theorem FittedUpto.mono (h : d.FittedUpto j) (hjk : j ≤ k) : d.FittedUpto k :=
  ⟨h.toUpto.mono hjk, h.adjusted⟩

section Operations

variable (hmax : k ≤ 999999)

include hmax

theorem exponent_range : ordinary.tiny ≤ k ∧ (k : Int) ≤ ordinary.maxExponent := by
  have htiny : ordinary.tiny = -1000026 := rfl
  have hhigh : ordinary.maxExponent = 999999 := rfl
  omega

/-- What an operation gives whose exact result is not negative and bounded. -/
theorem fittedUpto_of_within {r : Except Signal Decimal} {x : ℚ} (hx : 0 ≤ x) (hle : x ≤ 10 ^ k)
    (h : ordinary.tiny ≤ k → (k : Int) ≤ ordinary.maxExponent → |x| ≤ 10 ^ (k : Int) →
      ordinary.YieldsWithin r k)
    (hsign : ∀ d, r = .ok d → KeepsSign x d.value) :
    Succeeds (FittedUpto k) (liftM r : Except Fault _) := by
  obtain ⟨hlow, hhigh⟩ := exponent_range hmax
  have hsize : |x| ≤ 10 ^ (k : Int) := by rwa [abs_of_nonneg hx, zpow_natCast]
  obtain ⟨d, hd, hbound, hadjusted⟩ := h hlow hhigh hsize
  refine .signal ⟨d, hd, ⟨⟨(hsign d hd).1 hx, ?_⟩, hadjusted⟩⟩
  exact_mod_cast (le_abs_self _).trans hbound

theorem mul_upto (ha : a.Upto i) (hb : b.Upto j) (hk : i + j ≤ k) :
    Succeeds (FittedUpto k) (liftM (ordinary.mul a b) : Except Fault _) := by
  have hle : a.value * b.value ≤ 10 ^ k := calc
    a.value * b.value ≤ 10 ^ i * 10 ^ j := mul_le_mul ha.le hb.le hb.nonneg (by positivity)
    _ = 10 ^ (i + j) := (pow_add _ _ _).symm
    _ ≤ 10 ^ k := pow_le_pow_right₀ (by norm_num) hk
  refine fittedUpto_of_within hmax (mul_nonneg ha.nonneg hb.nonneg) hle
    (Context.yieldsWithin_mul Context.standard_ordinary (by decide)) fun d hd => ?_
  rw [Context.value_of_mul (by decide) hd]
  exact Context.keepsSign_rounded (by decide) _

theorem add_upto (ha : a.Upto j) (hb : b.Upto j) (hk : j + 1 ≤ k) :
    Succeeds (FittedUpto k) (liftM (ordinary.add a b) : Except Fault _) := by
  have hpos : (0 : ℚ) < 10 ^ j := by positivity
  have hle : a.value + b.value ≤ 10 ^ k := calc
    a.value + b.value ≤ 10 ^ j * 10 := by linarith [ha.le, hb.le]
    _ = 10 ^ (j + 1) := (pow_succ _ _).symm
    _ ≤ 10 ^ k := pow_le_pow_right₀ (by norm_num) hk
  refine fittedUpto_of_within hmax (add_nonneg ha.nonneg hb.nonneg) hle
    (Context.yieldsWithin_add Context.standard_ordinary (by decide)) fun d hd => ?_
  rw [Context.value_of_add (by decide) hd]
  exact Context.keepsSign_rounded (by decide) _

theorem sub_upto (ha : a.Upto k) (hb : 0 ≤ b.value) (hle : b.value ≤ a.value) :
    Succeeds (FittedUpto k) (liftM (ordinary.sub a b) : Except Fault _) := by
  refine fittedUpto_of_within hmax (sub_nonneg.2 hle) ((sub_le_self _ hb).trans ha.le)
    (Context.yieldsWithin_sub Context.standard_ordinary (by decide)) fun d hd => ?_
  rw [Context.value_of_sub (by decide) hd]
  exact Context.keepsSign_rounded (by decide) _

theorem div_upto (ha : 0 ≤ a.value) (hb : 0 < b.value) (hle : a.value ≤ 10 ^ k * b.value) :
    Succeeds (FittedUpto k) (liftM (ordinary.div a b) : Except Fault _) :=
  fittedUpto_of_within hmax (div_nonneg ha hb.le) ((div_le_iff₀ hb).2 hle)
    (fun hlow hhigh hsize => Context.yieldsWithin_div Context.standard_ordinary (by decide) hlow hhigh
      (isZero_of_value_ne hb.ne') hsize)
    fun _ => Context.keepsSign_div (by decide)

/-- A difference of either sign. -/
theorem sub_within (ha : a.Upto k) (hb : b.Upto k) :
    ordinary.YieldsWithin (ordinary.sub a b) k := by
  obtain ⟨hlow, hhigh⟩ := exponent_range hmax
  refine Context.yieldsWithin_sub Context.standard_ordinary (by decide) hlow hhigh ?_
  rw [zpow_natCast, abs_le]
  constructor <;> linarith [ha.nonneg, ha.le, hb.nonneg, hb.le]

theorem exists_sub (ha : a.Upto k) (hb : b.Upto k) :
    ∃ d, (liftM (ordinary.sub a b) : Except Fault _) = .ok d := by
  obtain ⟨d, hd, -⟩ := sub_within hmax ha hb
  exact ⟨d, signal_eq_ok.2 hd⟩

end Operations

end Decimal

section Rounding

variable {method : RoundingMethod} {places k : Nat} {d : Decimal} {x : ℚ}

theorem RoundingMethod.exact_nonneg (method : RoundingMethod) (places : Nat) (h : 0 ≤ x) :
    0 ≤ method.exact places x := exact_zero method places ▸ method.exact_mono places h

theorem RoundingMethod.exact_le_pow (method : RoundingMethod) (places : Nat) (h : x ≤ 10 ^ k) :
    method.exact places x ≤ 10 ^ k := by
  refine (method.exact_mono places h).trans_eq (Whole.exact method ⟨10 ^ (k + places), ?_⟩)
  rw [Int.cast_pow, Int.cast_ofNat, pow_add, mul_div_assoc, div_self (by positivity), mul_one]

theorem Decimal.FittedUpto.not_beyond (hd : d.FittedUpto k) (hplaces : places ≤ maxPlaces) :
    ¬BeyondContexts places d := by
  have hadjusted := hd.adjusted
  have hhigh : ordinary.maxExponent = 999999 := rfl
  unfold BeyondContexts maxPrecision
  unfold maxPlaces at hplaces
  omega

theorem roundTo_upto (hplaces : places ≤ maxPlaces) (method : RoundingMethod) (hd : d.Upto k)
    (hbeyond : ¬BeyondContexts places d) (hk : k < 999999) :
    Succeeds (fun r => r.FittedUpto k ∧ r.value = method.exact places d.value)
      (roundTo ordinary places method d) := by
  have hs := Context.standard_ordinary
  obtain ⟨ctx, hctx⟩ := exists_roundingContext hbeyond
  obtain ⟨r, hr, hvalue, -, hadjusted⟩ :=
    exists_roundTo hs (by decide) hplaces method hctx (adjusted_lt_of_abs_lt (hd.abs_lt hk))
  rw [RoundingMethod.seen_of_nonneg method hd.nonneg] at hvalue
  refine ⟨r, hr, ⟨⟨?_, ?_⟩, hadjusted⟩, hvalue⟩
  · exact hvalue ▸ method.exact_nonneg places hd.nonneg
  · exact hvalue ▸ method.exact_le_pow places hd.le

end Rounding

namespace RoundingPolicy

variable {policy : RoundingPolicy} {j k : Nat} {a b d : Decimal}

/-- A bounded amount of whole places. -/
structure Paid (policy : RoundingPolicy) (k : Nat) (d : Decimal) : Prop extends Decimal.FittedUpto k d where
  whole : Whole policy.places d.value

theorem apply_given (hd : d.Upto k) (hbeyond : ¬BeyondContexts policy.places d) (hk : k < 999999) :
    Succeeds (fun r => policy.Paid k r ∧ r.value = policy.method.exact policy.places d.value)
      (policy.apply d) := by
  obtain ⟨r, hr, hfitted, hvalue⟩ := roundTo_upto policy.bounded policy.method hd hbeyond hk
  exact ⟨r, hr, ⟨hfitted, whole_of_apply hr⟩, hvalue⟩

theorem apply_upto (hd : d.FittedUpto k) (hk : k < 999999) :
    Succeeds (fun r => policy.Paid k r ∧ r.value = policy.method.exact policy.places d.value)
      (policy.apply d) := apply_given hd.toUpto (hd.not_beyond policy.bounded) hk

namespace Paid

theorem zero (policy : RoundingPolicy) (k : Nat) : policy.Paid k 0 :=
  ⟨⟨.zero k, by decide +kernel⟩, Decimal.value_zero' ▸ .zero _⟩

theorem mono (h : policy.Paid j d) (hjk : j ≤ k) : policy.Paid k d :=
  ⟨h.toFittedUpto.mono hjk, h.whole⟩

theorem add (ha : policy.Paid j a) (hb : policy.Paid j b) (hk : j + 1 ≤ k) (hmax : k ≤ 999999) :
    Succeeds (policy.Paid k) (liftM (ordinary.add a b) : Except Fault _) := by
  obtain ⟨d, hd, hfitted⟩ := Decimal.add_upto hmax ha.toUpto hb.toUpto hk
  refine ⟨d, hd, hfitted, ?_⟩
  rw [Context.value_of_add (by decide) (signal_eq_ok.1 hd)]
  exact (ha.whole.add hb.whole).rounded _

theorem sub (ha : policy.Paid k a) (hb : policy.Paid j b) (hle : b.value ≤ a.value)
    (hmax : k ≤ 999999) : Succeeds (policy.Paid k) (liftM (ordinary.sub a b) : Except Fault _) := by
  obtain ⟨d, hd, hfitted⟩ := Decimal.sub_upto hmax ha.toUpto hb.nonneg hle
  refine ⟨d, hd, hfitted, ?_⟩
  rw [Context.value_of_sub (by decide) (signal_eq_ok.1 hd)]
  exact (ha.whole.sub hb.whole).rounded _

theorem apply (hd : policy.Paid k d) (hk : k < 999999) :
    Succeeds (fun r => policy.Paid k r ∧ r.value = d.value) (policy.apply d) := by
  obtain ⟨r, hr, hpaid, -⟩ := apply_upto hd.toFittedUpto hk
  exact ⟨r, hr, hpaid, apply_of_whole hd.whole hr⟩

end Paid

end RoundingPolicy

end Payroll
