import Mathlib
import Payroll.Formula.Exemption
import Payroll.Proofs.FormulaExact
import Payroll.Proofs.WholePlaces

/-!
The taxable and the exempt part of a value. They make up the value exactly, and the taxable part grows with
the value and shrinks as the limit grows.
-/

namespace Payroll.Formula

open Decimal (Context ordinary)
open Result

/-- What a limit leaves exempt of a value. -/
def exemptUpTo (limit x : ℚ) : ℚ := max 0 (min x limit)

section

variable {limit limit' x x' : ℚ}

theorem exemptUpTo_nonneg (limit x : ℚ) : 0 ≤ exemptUpTo limit x := le_max_left _ _

theorem exemptUpTo_le (hx : 0 ≤ x) : exemptUpTo limit x ≤ x := max_le hx (min_le_left _ _)

theorem exemptUpTo_of_nonneg (hx : 0 ≤ x) (h : 0 ≤ limit) : exemptUpTo limit x = min x limit :=
  max_eq_right (le_min hx h)

theorem exemptUpTo_of_nonpos (h : limit ≤ 0) : exemptUpTo limit x = 0 :=
  max_eq_left ((min_le_right _ _).trans h)

/-- What is left is the value, or what it has above the limit, whichever is less. -/
theorem sub_exemptUpTo (hx : 0 ≤ x) : x - exemptUpTo limit x = min x (max 0 (x - limit)) := by
  rw [exemptUpTo]
  rcases le_total x limit with hlimit | hlimit
  · rw [min_eq_left hlimit, max_eq_right hx, sub_self, max_eq_left (by linarith), min_eq_right hx]
  · rw [min_eq_right hlimit, max_eq_right (by linarith : 0 ≤ x - limit)]
    rcases le_total 0 limit with hzero | hzero
    · rw [max_eq_right hzero, min_eq_right (by linarith)]
    · rw [max_eq_left hzero, sub_zero, min_eq_left (by linarith)]

theorem sub_exemptUpTo_mono (hx : 0 ≤ x) (h : x ≤ x') (hlimit : limit' ≤ limit) :
    x - exemptUpTo limit x ≤ x' - exemptUpTo limit' x' := by
  rw [sub_exemptUpTo hx, sub_exemptUpTo (hx.trans h)]
  exact min_le_min h (max_le_max le_rfl (by linarith))

end

/-- Whether a rule makes the whole value exempt. -/
def ExemptionRule.Whole (rule : ExemptionRule) : Prop := rule.taxable = false ∨ rule.exempt = true

section

variable {policy : RoundingPolicy} {reading : Reading} {rule : ExemptionRule}
  {fiscal : Option FiscalValues} {value d r : Decimal} {parts : Parts} {s : String} {o : Outcome}

theorem fitting_exemptUpTo {x limit : ℚ} (hx : arithmetic.Fitting policy.places x)
    (hlimit : Whole policy.places limit) : arithmetic.Fitting policy.places (exemptUpTo limit x) where
  whole := by
    rw [Formula.exemptUpTo]
    rcases max_choice 0 (min x limit) with h | h
    · rw [h]
      exact .zero _
    · rw [h]
      rcases min_choice x limit with h | h
      · rw [h]
        exact hx.whole
      · rw [h]
        exact hlimit
  nonneg := exemptUpTo_nonneg _ _
  small := (exemptUpTo_le hx.nonneg).trans_lt hx.small

/-- The amount that a limit of so many units comes to. -/
def LimitAmount (policy : RoundingPolicy) (limit unit amount : Decimal) : Prop :=
  ∃ product, ordinary.mul limit unit = .ok product ∧ policy.apply product = .ok amount

theorem LimitAmount.mono {limit limit' unit amount amount' : Decimal}
    (h : LimitAmount policy limit unit amount) (h' : LimitAmount policy limit' unit amount')
    (hunit : 0 ≤ unit.value) (hle : limit'.value ≤ limit.value) : amount'.value ≤ amount.value := by
  obtain ⟨product, hproduct, hamount⟩ := h
  obtain ⟨product', hproduct', hamount'⟩ := h'
  have hpos : 0 < ordinary.precision := by decide
  refine roundTo_mono Context.standard_ordinary hpos policy.bounded hamount' hamount ?_
  rw [Context.value_of_mul hpos hproduct, Context.value_of_mul hpos hproduct']
  exact Context.rounded_mono hpos (mul_le_mul_of_nonneg_right hle hunit)

/-- The amount is on the side of zero that the unit is on. -/
theorem LimitAmount.keepsSign {limit unit amount : Decimal} (h : LimitAmount policy limit unit amount)
    (hlimit : 0 ≤ limit.value) : KeepsSign unit.value amount.value := by
  obtain ⟨product, hproduct, hamount⟩ := h
  have hpos : 0 < ordinary.precision := by decide
  have hscaled : KeepsSign unit.value (unit.value * limit.value) := .mul_of_nonneg hlimit _
  have hrounded : KeepsSign (unit.value * limit.value) product.value := by
    rw [Context.value_of_mul hpos hproduct, mul_comm]
    exact Context.keepsSign_rounded hpos _
  exact (hscaled.trans hrounded).trans
    (keepsSign_roundTo Context.standard_ordinary hpos policy.bounded hamount)

/-- How a value is divided: all of it exempt, all of it taxable, or exempt up to the amount of a limit. -/
inductive Divided (policy : RoundingPolicy) (reading : Reading) (rule : ExemptionRule)
    (fiscal : Option FiscalValues) (x : ℚ) (parts : Parts) : Prop
  | whole (hrule : rule.Whole) (htaxable : parts.taxable.value = 0) (hexempt : parts.exempt.value = x)
  | unlimited {limit : Decimal} (hrule : ¬rule.Whole) (hlimit : rule.limitNumber = .ok limit)
      (hnonpos : limit.value ≤ 0) (htaxable : parts.taxable.value = x)
      (hexempt : parts.exempt.value = 0)
  | limited {limit unit amount : Decimal} (hrule : ¬rule.Whole)
      (hlimit : rule.limitNumber = .ok limit) (hpos : 0 < limit.value)
      (hunit : limitUnitValue reading fiscal rule.limitUnit = .ok unit)
      (hamount : LimitAmount policy limit unit amount) (hseen : parts.limitAmount = some amount)
      (htaxable : parts.taxable.value = x - exemptUpTo amount.value x)
      (hexempt : parts.exempt.value = exemptUpTo amount.value x)

theorem divided_of_divide (hvalue : arithmetic.Fitting policy.places value.value)
    (h : divide policy reading rule fiscal value = .ok parts) :
    Divided policy reading rule fiscal value.value parts := by
  unfold divide at h
  split at h
  · next hwhole =>
    obtain ⟨zero, hzero, h⟩ := bind_eq_ok.1 h
    cases h
    refine .whole ?_ (RoundingPolicy.value_of_apply_zero hzero) rfl
    simpa [ExemptionRule.Whole] using hwhole
  · next hwhole =>
    have hrule : ¬rule.Whole := by simpa [ExemptionRule.Whole] using hwhole
    obtain ⟨limit, hlimit, h⟩ := bind_eq_ok.1 h
    split at h
    · next hle =>
      obtain ⟨zero, hzero, h⟩ := bind_eq_ok.1 h
      cases h
      refine .unlimited hrule hlimit ?_ rfl (RoundingPolicy.value_of_apply_zero hzero)
      rw [← Decimal.value_zero']
      exact Decimal.le_iff.1 hle
    · next hle =>
      obtain ⟨unit, hunit, h⟩ := bind_eq_ok.1 h
      obtain ⟨product, hproduct, h⟩ := bind_eq_ok.1 h
      obtain ⟨amount, hamount, h⟩ := bind_eq_ok.1 h
      obtain ⟨rest, hrest, h⟩ := bind_eq_ok.1 h
      obtain ⟨taxable, htaxable, h⟩ := bind_eq_ok.1 h
      obtain ⟨exempt, hexempt, h⟩ := bind_eq_ok.1 h
      cases h
      have hamount := mapError_eq_ok.1 hamount
      have hfits := fitting_exemptUpTo hvalue (RoundingPolicy.whole_of_apply hamount)
      have hdifference := hvalue.sub hfits (exemptUpTo_le hvalue.nonneg)
      have hmax : (Decimal.max2 0 (Decimal.min2 value amount)).value =
          exemptUpTo amount.value value.value := by
        rw [Decimal.value_max2, Decimal.value_min2, Decimal.value_zero', exemptUpTo]
      have hleft : (Decimal.max2 0 rest).value = value.value - exemptUpTo amount.value value.value := by
        rw [← hmax] at hdifference ⊢
        rw [Decimal.value_max2, Decimal.value_zero', hdifference.value_of_sub standard_arithmetic
          (by decide) (by decide) policy.bounded (signal_eq_ok.1 hrest), max_eq_right hdifference.nonneg]
      refine .limited hrule hlimit ?_ hunit ⟨product, signal_eq_ok.1 hproduct, hamount⟩ rfl ?_ ?_
      · rw [Bool.not_eq_true] at hle
        rw [← Decimal.value_zero', ← not_le, ← Decimal.le_iff, hle]
        exact Bool.false_ne_true
      · exact (RoundingPolicy.apply_of_whole (hleft ▸ hdifference.whole) htaxable).trans hleft
      · exact (RoundingPolicy.apply_of_whole (hmax ▸ hfits.whole) hexempt).trans hmax

namespace Divided

variable {x : ℚ}

theorem balance (h : Divided policy reading rule fiscal x parts) (hx : 0 ≤ x) :
    parts.exempt.value + parts.taxable.value = x ∧ 0 ≤ parts.exempt.value ∧ 0 ≤ parts.taxable.value := by
  cases h with
  | whole _ htaxable hexempt =>
      rw [htaxable, hexempt]
      exact ⟨add_zero x, hx, le_rfl⟩
  | unlimited _ _ _ htaxable hexempt =>
      rw [htaxable, hexempt]
      exact ⟨zero_add x, le_rfl, hx⟩
  | limited _ _ _ _ _ _ htaxable hexempt =>
      rw [htaxable, hexempt]
      exact ⟨add_sub_cancel _ x, exemptUpTo_nonneg _ _, sub_nonneg.2 (exemptUpTo_le hx)⟩

/-- More value is taxed under a lower limit. A negative unit makes every limit one of nothing. -/
theorem taxable_mono {reading' : Reading} {rule' : ExemptionRule} {fiscal' : Option FiscalValues}
    {parts' : Parts} {x' : ℚ} (h : Divided policy reading rule fiscal x parts)
    (h' : Divided policy reading' rule' fiscal' x' parts') (hrule : rule'.Whole ↔ rule.Whole)
    (hunit : limitUnitValue reading' fiscal' rule'.limitUnit = limitUnitValue reading fiscal rule.limitUnit)
    (hlimit : ∀ limit limit', rule.limitNumber = .ok limit → rule'.limitNumber = .ok limit' →
      limit'.value ≤ limit.value) (hx : 0 ≤ x) (hle : x ≤ x') :
    parts.taxable.value ≤ parts'.taxable.value := by
  cases h with
  | whole hwhole htaxable _ => exact htaxable.trans_le (h'.balance (hx.trans hle)).2.2
  | @unlimited limit hwhole hnumber hnonpos htaxable _ =>
      rw [htaxable]
      cases h' with
      | whole hwhole' => exact absurd (hrule.1 hwhole') hwhole
      | unlimited _ _ _ htaxable' _ => exact hle.trans htaxable'.ge
      | @limited limit' _ _ _ hnumber' hpos =>
          exact absurd (hlimit _ _ hnumber hnumber') (not_le.2 (hnonpos.trans_lt hpos))
  | @limited limit unit amount hwhole hnumber hpos hunit' hamount _ htaxable _ =>
      rw [htaxable]
      cases h' with
      | whole hwhole' => exact absurd (hrule.1 hwhole') hwhole
      | unlimited _ _ _ htaxable' _ =>
          rw [htaxable']
          exact (sub_le_self x (exemptUpTo_nonneg _ _)).trans hle
      | @limited limit' unit' amount' _ hnumber' hpos' hunit'' hamount' _ htaxable' _ =>
          obtain rfl : unit = unit' :=
            Except.ok.inj (hunit'.symm.trans (hunit.symm.trans hunit''))
          rw [htaxable']
          rcases le_total 0 unit.value with hsign | hsign
          · exact sub_exemptUpTo_mono hx hle (hamount.mono hamount' hsign (hlimit _ _ hnumber hnumber'))
          · rw [exemptUpTo_of_nonpos ((hamount.keepsSign hpos.le).2 hsign),
              exemptUpTo_of_nonpos ((hamount'.keepsSign hpos'.le).2 hsign)]
            exact sub_le_sub_right hle 0

end Divided

theorem divided_of_evaluate (h : evaluateWithExemption policy reading rule fiscal s = .ok o)
    (hnonneg : 0 ≤ o.value.value) (hsize : o.value.value < 10 ^ (34 - policy.places : ℤ)) :
    Divided policy reading rule fiscal o.value.value ⟨o.taxable, o.exempt, o.limitAmount⟩ := by
  obtain ⟨tree, -, h⟩ := bind_eq_ok.1 h
  obtain ⟨raw, -, h⟩ := bind_eq_ok.1 h
  obtain ⟨value, hvalue, h⟩ := bind_eq_ok.1 h
  obtain ⟨inputs, -, h⟩ := bind_eq_ok.1 h
  obtain ⟨parts, hparts, h⟩ := bind_eq_ok.1 h
  cases h
  exact divided_of_divide ⟨RoundingPolicy.whole_of_apply (mapError_eq_ok.1 hvalue), hnonneg, hsize⟩ hparts

/-- The parts of a value that is not negative and has digits enough left make it up exactly. Of a taxable
concept with a positive limit the lesser of the value and the amount of the limit is exempt, and nothing
if that is negative, as it is in a negative unit only. Another evaluation with at least the value and at
most the limit, in units that come to the same amount, has at least the taxable part. -/
theorem evaluateWithExemption_conserves
    (h : evaluateWithExemption policy reading rule fiscal s = .ok o)
    (hnonneg : 0 ≤ o.value.value) (hsize : o.value.value < 10 ^ (34 - policy.places : ℤ)) :
    o.exempt.value + o.taxable.value = o.value.value ∧
    0 ≤ o.exempt.value ∧ 0 ≤ o.taxable.value ∧
    (∀ limit, rule.taxable = true → rule.exempt = false → rule.limitNumber = .ok limit →
      0 < limit.value → ∃ unit amount, limitUnitValue reading fiscal rule.limitUnit = .ok unit ∧
        o.limitAmount = some amount ∧ o.exempt.value = max 0 (min o.value.value amount.value) ∧
        (0 ≤ unit.value → o.exempt.value = min o.value.value amount.value)) ∧
    ∀ (reading' : Reading) (rule' : ExemptionRule) (fiscal' : Option FiscalValues) (s' : String)
      (o' : Outcome), evaluateWithExemption policy reading' rule' fiscal' s' = .ok o' →
      o'.value.value < 10 ^ (34 - policy.places : ℤ) →
      rule'.taxable = rule.taxable → rule'.exempt = rule.exempt →
      limitUnitValue reading' fiscal' rule'.limitUnit = limitUnitValue reading fiscal rule.limitUnit →
      (∀ limit limit', rule.limitNumber = .ok limit → rule'.limitNumber = .ok limit' →
        limit'.value ≤ limit.value) →
      o.value.value ≤ o'.value.value → o.taxable.value ≤ o'.taxable.value := by
  have hdivided := divided_of_evaluate h hnonneg hsize
  obtain ⟨hsum, hexempt, htaxable⟩ := hdivided.balance hnonneg
  refine ⟨hsum, hexempt, htaxable, fun limit htaxed hnotExempt hnumber hpos => ?_, ?_⟩
  · cases hdivided with
    | whole hwhole =>
        rcases hwhole with hwhole | hwhole
        · exact absurd (htaxed.symm.trans hwhole) (by decide)
        · exact absurd (hnotExempt.symm.trans hwhole) (by decide)
    | unlimited _ hnumber' hnonpos =>
        obtain rfl := Except.ok.inj (hnumber.symm.trans hnumber')
        exact absurd hpos (not_lt.2 hnonpos)
    | limited _ _ hpos' hunit hamount hseen _ hexempt =>
        refine ⟨_, _, hunit, hseen, hexempt, fun hsign => ?_⟩
        rw [hexempt, exemptUpTo_of_nonneg hnonneg ((hamount.keepsSign hpos'.le).1 hsign)]
  · intro reading' rule' fiscal' s' o' h' hsize' htaxed hexempted hunit hlimit hle
    have hdivided' := divided_of_evaluate h' (hnonneg.trans hle) hsize'
    have hrule : rule'.Whole ↔ rule.Whole := by
      rw [ExemptionRule.Whole, ExemptionRule.Whole, htaxed, hexempted]
    -- against the goal the parts would be matched by unfolding the evaluations
    have hmono := hdivided.taxable_mono hdivided' hrule hunit hlimit hnonneg hle
    exact hmono

end

def thirtyDays : ExemptionRule := { limit := some (.given (.int 30)), limitUnit := .text "UMA" }

/-- A bonus of which thirty times the daily reference value is exempt. -/
theorem bonus_divided : ∃ o,
    evaluateWithExemption .standard (.ofFields [("custom1", .int 5000), ("umaDaily", .text "113.14")])
      thirtyDays none "custom1" = .ok o ∧
    0 ≤ o.value.value ∧ o.value.value < 10 ^ (34 - RoundingPolicy.standard.places : ℤ) ∧
    o.exempt = 3394.20 ∧ o.taxable = 1605.80 ∧ o.exempt.value + o.taxable.value = o.value.value := by
  have hrun : ((evaluateWithExemption .standard
      (.ofFields [("custom1", .int 5000), ("umaDaily", .text "113.14")]) thirtyDays none
      "custom1").toOption.map fun o => (o.value, o.exempt, o.taxable)) =
      some (5000.00, 3394.20, 1605.80) := by
    decide +kernel
  obtain ⟨o, ho, hparts⟩ := Option.map_eq_some_iff.1 hrun
  simp only [Prod.mk.injEq] at hparts
  obtain ⟨hvalue, hexempt, htaxable⟩ := hparts
  have hnumber : o.value.value = 5000 := by
    rw [hvalue]
    exact (Decimal.value_mk 500000 (-2)).trans (by norm_num)
  have hnonneg : 0 ≤ o.value.value := by rw [hnumber]; norm_num
  have hsize : o.value.value < 10 ^ (34 - RoundingPolicy.standard.places : ℤ) := by
    rw [hnumber, show (34 - RoundingPolicy.standard.places : ℤ) = 32 from rfl]
    norm_num
  obtain ⟨hsum, -⟩ := evaluateWithExemption_conserves (ok_of_toOption ho) hnonneg hsize
  exact ⟨o, ok_of_toOption ho, hnonneg, hsize, hexempt, htaxable, hsum⟩

/-- In a negative unit the amount of a limit is negative, and nothing is exempt. -/
theorem negative_unit_exempts_nothing : ∃ o limit amount,
    evaluateWithExemption .standard (.ofFields [("umaDaily", .int (-1))]) thirtyDays none "100" = .ok o ∧
    0 ≤ o.value.value ∧ o.value.value < 10 ^ (34 - RoundingPolicy.standard.places : ℤ) ∧
    thirtyDays.taxable = true ∧ thirtyDays.exempt = false ∧ thirtyDays.limitNumber = .ok limit ∧
    0 < limit.value ∧ o.limitAmount = some amount ∧
    o.exempt.value ≠ min o.value.value amount.value := by
  have hrun : ((evaluateWithExemption .standard (.ofFields [("umaDaily", .int (-1))]) thirtyDays none
      "100").toOption.map fun o => (o.value, o.exempt, o.limitAmount)) =
      some (100.00, 0.00, some ⟨true, 3000, -2⟩) := by
    decide +kernel
  obtain ⟨o, ho, hparts⟩ := Option.map_eq_some_iff.1 hrun
  simp only [Prod.mk.injEq] at hparts
  obtain ⟨hvalue, hexempt, hamount⟩ := hparts
  have hnumber : o.value.value = 100 := by
    rw [hvalue]
    exact (Decimal.value_mk 10000 (-2)).trans (by norm_num)
  have hlimit : (⟨true, 3000, -2⟩ : Decimal).value = -30 := by
    rw [Decimal.value_mk_neg, Decimal.value_mk]
    norm_num
  have hzero : o.exempt.value = 0 := hexempt ▸ Decimal.value_zero _ _
  refine ⟨o, 30, _, ok_of_toOption ho, ?_, ?_, rfl, rfl, ok_of_toOption (by decide +kernel), ?_,
    hamount, ?_⟩
  · rw [hnumber]
    norm_num
  · rw [hnumber, show (34 - RoundingPolicy.standard.places : ℤ) = 32 from rfl]
    norm_num
  · exact (Decimal.value_mk 30 0).symm ▸ by norm_num
  · rw [hnumber, hlimit, hzero]
    norm_num

end Payroll.Formula
