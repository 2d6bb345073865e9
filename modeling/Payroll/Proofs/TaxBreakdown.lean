import Mathlib
import Payroll.Proofs.DistributedTotals
import Payroll.Proofs.PublishedTariffs

/-!
When the rounded tax is the fixed fee and the rounded tax on the excess. A fee in whole places moves the
second rounding by whole places, but for a half that an odd fee takes to the other even neighbour. Before
that, ordinary arithmetic may bring the sum onto a boundary of the method; it takes no sum past a multiple
of half a place, and the figures are never more than one place off.
-/

namespace Payroll

open Decimal (Context ordinary)
open Result

namespace RoundingMethod

variable {method : RoundingMethod} {n k : ℤ} {f g x y z : ℚ}

/-- Whether a number is taken down to the integer `n`, above which it has the fraction `f`. -/
def Lowers : RoundingMethod → ℤ → ℚ → Prop
  | .floor, _, _ => True
  | .ceil, _, f => f = 0
  | .round, _, f | .halfUp, _, f => f < 1 / 2
  | .halfEven, n, f => f < 1 / 2 ∨ f = 1 / 2 ∧ Even n

instance : Decidable (method.Lowers n f) :=
  match method with
  | .floor => .isTrue trivial
  | .ceil => inferInstanceAs (Decidable (f = 0))
  | .round | .halfUp => inferInstanceAs (Decidable (f < 1 / 2))
  | .halfEven => inferInstanceAs (Decidable (f < 1 / 2 ∨ f = 1 / 2 ∧ Even n))

theorem nearest_add (method : RoundingMethod) (hn : 0 ≤ n) (h₀ : 0 ≤ f) (h₁ : f < 1) :
    method.nearest (n + f) = if method.Lowers n f then n else n + 1 := by
  have hnonneg : 0 ≤ (n : ℚ) + f := add_nonneg (by exact_mod_cast hn) h₀
  have hlowers : method.mode.Lowers n f ↔ method.Lowers n f := by cases method <;> rfl
  rw [nearest_direct fun h => h.2.not_ge hnonneg, Decimal.Rounding.nearest_add _ hn h₀ h₁]
  exact if_congr hlowers rfl rfl

/-- Above one integer numbers are rounded alike if they are taken down alike. -/
theorem nearest_add_eq_iff (method : RoundingMethod) {m : ℤ} (hn : 0 ≤ n) (hm : 0 ≤ m) (h₀ : 0 ≤ f)
    (h₁ : f < 1) (h₀' : 0 ≤ g) (h₁' : g < 1) : method.nearest (n + g) - n = method.nearest (m + f) - m ↔
      (method.Lowers n g ↔ method.Lowers m f) := by
  rw [nearest_add method hn h₀' h₁', nearest_add method hm h₀ h₁]
  split <;> split <;> simp_all

/-- An odd multiple of the unit makes even what is halfway to an odd one. -/
def TiesOdd (method : RoundingMethod) (k : ℤ) (x : ℚ) : Prop :=
  method = .halfEven ∧ Int.fract x = 1 / 2 ∧ Odd k

theorem nearest_int_add_iff (hk : 0 ≤ k) (hx : 0 ≤ x) :
    method.nearest (k + x) = k + method.nearest x ↔ ¬method.TiesOdd k x := by
  have hn : 0 ≤ ⌊x⌋ := Int.floor_nonneg.2 hx
  have h₀ := Int.fract_nonneg x
  have h₁ := Int.fract_lt_one x
  have hsum : (k : ℚ) + x = ((k + ⌊x⌋ : ℤ) : ℚ) + Int.fract x := by
    push_cast
    rw [add_assoc, Int.floor_add_fract]
  have hshift : method.nearest (k + x) = k + method.nearest x ↔
      (method.Lowers (k + ⌊x⌋) (Int.fract x) ↔ method.Lowers ⌊x⌋ (Int.fract x)) := by
    rw [← nearest_add_eq_iff method (add_nonneg hk hn) hn h₀ h₁ h₀ h₁, ← hsum, Int.floor_add_fract]
    omega
  rw [hshift, TiesOdd]
  cases method with
  | halfEven =>
      simp only [Lowers, true_and]
      rcases eq_or_ne (Int.fract x) (1 / 2) with h | h
      · simp only [h, lt_irrefl, true_and, false_or, Int.even_add]
        rw [← Int.not_even_iff_odd]
        tauto
      · simp only [h, false_and, not_false_eq_true]
  | _ => simp [Lowers]

/-- `x` has been brought to `y`, a boundary of the method, from the side on which numbers are rounded
otherwise than the boundary itself. -/
def Crosses : RoundingMethod → ℚ → ℚ → Prop
  | .floor, x, y => x < y ∧ Int.fract y = 0
  | .ceil, x, y => y < x ∧ Int.fract y = 0
  | .round, x, y | .halfUp, x, y => x < y ∧ Int.fract y = 1 / 2
  | .halfEven, x, y => Int.fract y = 1 / 2 ∧ (x < y ∧ Odd ⌊y⌋ ∨ y < x ∧ Even ⌊y⌋)

/-- `y` is not past any multiple of a half that `x` is not past. -/
def BetweenHalves (x y : ℚ) : Prop :=
  ∀ m : ℤ, ((m : ℚ) / 2 ≤ x → (m : ℚ) / 2 ≤ y) ∧ (x ≤ (m : ℚ) / 2 → y ≤ (m : ℚ) / 2)

theorem BetweenHalves.exists_add (h₀ : 0 ≤ f) (h₁ : f < 1) (h : BetweenHalves (n + f) y) :
    ∃ g, y = n + g ∧ 0 ≤ g ∧ g ≤ 1 ∧ (f = 0 → g = 0) ∧ (f ≤ 1 / 2 → g ≤ 1 / 2) ∧
      (1 / 2 ≤ f → 1 / 2 ≤ g) := by
  obtain ⟨hstart, hstart'⟩ := h (2 * n)
  obtain ⟨hmid, hmid'⟩ := h (2 * n + 1)
  obtain ⟨-, hend⟩ := h (2 * n + 2)
  push_cast at hstart hstart' hmid hmid' hend
  have hlow := hstart (by linarith)
  have hhigh := hend (by linarith)
  refine ⟨y - n, by ring, by linarith, by linarith, fun hf => ?_, fun hf => ?_, fun hf => ?_⟩
  · linarith [hstart' (by linarith)]
  · linarith [hmid' (by linarith)]
  · linarith [hmid (by linarith)]

theorem nearest_eq_iff (hx : 0 ≤ x) (h : BetweenHalves x y) :
    method.nearest y = method.nearest x ↔ ¬method.Crosses x y := by
  obtain ⟨n, f, hn, h₀, h₁, rfl⟩ : ∃ (n : ℤ) (f : ℚ), 0 ≤ n ∧ 0 ≤ f ∧ f < 1 ∧ x = n + f :=
    ⟨⌊x⌋, Int.fract x, Int.floor_nonneg.2 hx, Int.fract_nonneg x, Int.fract_lt_one x,
      (Int.floor_add_fract x).symm⟩
  obtain ⟨g, rfl, hg₀, hg₁, hzero, hlow, hhigh⟩ := h.exists_add h₀ h₁
  -- above the same integer only the fractions count; the next integer is itself a boundary
  rcases hg₁.eq_or_lt with rfl | hg₁
  · have hf : 1 / 2 < f := by
      by_contra hf
      linarith [hlow (not_lt.1 hf)]
    have hnext : ((n : ℚ) + 1) = ((n + 1 : ℤ) : ℚ) := by push_cast; rfl
    rw [hnext, nearest_intCast, nearest_add method hn h₀ h₁]
    have hbelow : (n : ℚ) + f < (n + 1 : ℤ) := by
      push_cast
      linarith
    cases method <;> simp only [Crosses, Lowers, Int.fract_intCast] <;> grind
  · have hfloor := Decimal.floor_add (m := n) hg₀ hg₁
    have hfract : Int.fract ((n : ℚ) + g) = g := by
      rw [Int.fract_intCast_add]
      exact Int.fract_eq_self.2 ⟨hg₀, hg₁⟩
    have hsame := nearest_add_eq_iff method hn hn h₀ h₁ hg₀ hg₁
    rw [sub_left_inj] at hsame
    rw [hsame]
    cases method <;> simp only [Crosses, Lowers, hfract, hfloor, add_lt_add_iff_left] <;> grind

/-- What a sum in units is rounded to, against the rounded part of it that is not in whole units. -/
theorem nearest_eq_add_iff (method : RoundingMethod) (hk : 0 ≤ k) (hx : 0 ≤ x)
    (h : BetweenHalves (k + x) y) : method.nearest y = k + method.nearest x ↔
      ¬method.TiesOdd k x ∧ ¬method.Crosses (k + x) y := by
  have hsum : 0 ≤ (k : ℚ) + x := add_nonneg (by exact_mod_cast hk) hx
  by_cases hties : method.TiesOdd k x
  · -- a half is kept by the context
    have hhalf : y = k + x := by
      obtain ⟨hle, hge⟩ := h (2 * (k + ⌊x⌋) + 1)
      have hsplit := Int.floor_add_fract x
      rw [hties.2.1] at hsplit
      push_cast at hle hge
      linarith [hle (by linarith), hge (by linarith)]
    have hne := (nearest_int_add_iff hk hx).not.2 (not_not.2 hties)
    rw [hhalf]
    exact iff_of_false hne fun hnot => hnot.1 hties
  · rw [← (nearest_int_add_iff hk hx).2 hties, nearest_eq_iff hsum h, and_iff_right hties]

theorem abs_nearest_sub_add_le (method : RoundingMethod) (h : BetweenHalves (k + x) y) :
    |method.nearest y - (k + method.nearest x)| ≤ 1 := by
  have hbounds {n : ℤ} {z : ℚ} (hlow : (n : ℚ) ≤ z) (hhigh : z ≤ (n + 1 : ℤ)) :
      n ≤ method.nearest z ∧ method.nearest z ≤ n + 1 := by
    have hlow := method.nearest_mono hlow
    have hhigh := method.nearest_mono hhigh
    rw [nearest_intCast] at hlow hhigh
    exact ⟨hlow, hhigh⟩
  have hfloor := Int.floor_le x
  have hnext := (Int.lt_floor_add_one x).le
  obtain ⟨hlow, -⟩ := h (2 * (k + ⌊x⌋))
  obtain ⟨-, hhigh⟩ := h (2 * (k + ⌊x⌋ + 1))
  push_cast at hlow hhigh
  obtain ⟨hxlow, hxhigh⟩ := hbounds hfloor (by push_cast; exact hnext)
  obtain ⟨hylow, hyhigh⟩ := hbounds (n := k + ⌊x⌋) (z := y)
    (by push_cast; linarith [hlow (by linarith)]) (by push_cast; linarith [hhigh (by linarith)])
  exact abs_le.2 ⟨by omega, by omega⟩

theorem betweenHalves_of_within {places : Nat} (h : Decimal.Within (-places - 1) x y) :
    BetweenHalves (x * 10 ^ places) (y * 10 ^ places) := by
  intro m
  have hpos : (0 : ℚ) < 10 ^ places := by positivity
  have hunit : ((5 * m : ℤ) : ℚ) * 10 ^ (-(places : ℤ) - 1) = (m : ℚ) / 2 / 10 ^ places := by
    rw [zpow_sub_one₀ (by norm_num), zpow_neg, zpow_natCast]
    push_cast
    ring
  obtain ⟨hlow, hhigh⟩ := h (5 * m)
  rw [hunit] at hlow hhigh
  rw [← div_le_iff₀ hpos, ← div_le_iff₀ hpos, ← le_div_iff₀ hpos, ← le_div_iff₀ hpos]
  exact ⟨hlow, hhigh⟩

end RoundingMethod

/-- The tax on the excess, before it is rounded to places. -/
def IsrResult.unrounded (r : IsrResult) : ℚ := ordinary.rounded (r.excess.value * r.rate.value)

/-- The whole tax, before it is rounded to places. -/
def IsrResult.total (r : IsrResult) : ℚ := ordinary.rounded (r.fixedFee.value + r.unrounded)

namespace Isr

variable {policy : RoundingPolicy} {table : BracketTable IsrTerms} {a : Amount} {r : IsrResult} {x : ℚ}

theorem parts_of_calculate (hrows : ∀ row ∈ table.rows, ∃ j, Bracket.load j = .ok row)
    (h : calculate policy table a = .ok r) : (∃ row ∈ table.rows, r.fixedFee = row.terms.fixedFee) ∧
      0 ≤ r.fixedFee.value ∧ 0 ≤ r.unrounded ∧
      r.marginal.value = policy.method.exact policy.places r.unrounded ∧
      r.isr.value = policy.method.exact policy.places r.total := by
  obtain ⟨b, -, hr⟩ := assessed_of_calculate h
  obtain ⟨marginal, hmarginal, hunrounded⟩ := hr.marginal
  obtain ⟨total, htotal, htotalvalue⟩ := hr.isr
  have hrow := table.getElem?_position b
  obtain ⟨hfee, hrate⟩ := terms_nonneg_of_rows hrows hrow
  rw [← hr.fixedFee] at hfee
  rw [← hr.rate] at hrate
  have hexcess : 0 ≤ r.excess.value := hr.excess ▸ le_max_left _ _
  have hnonneg : 0 ≤ r.unrounded := Context.rounded_nonneg (mul_nonneg hexcess hrate)
  have htotalnonneg : 0 ≤ r.total := Context.rounded_nonneg (add_nonneg hfee hnonneg)
  refine ⟨⟨_, List.mem_of_getElem? hrow, hr.fixedFee⟩, hfee, hnonneg, ?_, ?_⟩
  · exact (RoundingPolicy.value_of_apply hmarginal (hnonneg.trans_eq hunrounded.symm)).trans
      (congrArg _ hunrounded)
  · exact (RoundingPolicy.value_of_apply htotal (htotalnonneg.trans_eq htotalvalue.symm)).trans
      (congrArg _ htotalvalue)

/-- Amounts that are not rounded beyond 27 digits are summed to a tenth of a place. -/
theorem within_rounded (hx : 0 ≤ x)
    (hsize : policy.method.exact policy.places (ordinary.rounded x) < 10 ^ (27 - policy.places : ℤ)) :
    Decimal.Within (-policy.places - 1) x (ordinary.rounded x) := by
  have hplaces := policy.bounded
  simp only [maxPlaces] at hplaces
  have htiny : ordinary.tiny = -1000026 := rfl
  have hprecision : (ordinary.precision : ℤ) = 28 := rfl
  have hunits : (10 : ℚ) ^ (27 - policy.places : ℤ) = ((10 ^ 27 : ℤ) : ℚ) / 10 ^ policy.places := by
    rw [zpow_sub₀ (by norm_num), zpow_natCast]
    norm_num
  -- a power of ten is kept by both roundings, so a larger sum would not have come out below it
  have hbelow : x < 10 ^ (27 - policy.places : ℤ) := by
    by_contra hlarge
    have hrounded := Context.rounded_mono (show 0 < ordinary.precision by decide) (not_lt.1 hlarge)
    rw [Context.rounded_pow (by decide) (by omega)] at hrounded
    have hexact := policy.method.exact_mono policy.places hrounded
    rw [hunits, RoundingMethod.exact_int_div, ← hunits] at hexact
    exact hexact.not_gt hsize
  have hplace : ordinary.place x ≤ -policy.places - 1 := by
    rw [Context.place]
    rcases eq_or_ne x 0 with rfl | hne
    · rw [abs_zero, Int.log_zero_right]
      omega
    · have hlog := (Int.lt_zpow_iff_log_lt (by decide) (abs_pos.2 hne)).1
        (show |x| < ((10 : ℕ) : ℚ) ^ (27 - policy.places : ℤ) by
          rwa [abs_of_nonneg hx, Nat.cast_ofNat])
      omega
  exact (Decimal.Rounding.within_toPlace .halfEven (ordinary.place x) x).widen hplace

/-- The rounded tax is the fee and the rounded tax on the excess, unless `HALF_EVEN` takes the latter from
halfway against the parity of the fee, or the digits of ordinary arithmetic end so that the sum is brought
onto a boundary of the method. Then they are one place apart. -/
theorem isr_eq_fee_add_marginal_iff (hrows : ∀ row ∈ table.rows, ∃ j, Bracket.load j = .ok row)
    (hfees : ∀ row ∈ table.rows, ∃ k : ℤ, row.terms.fixedFee.value = k / 10 ^ policy.places)
    (h : calculate policy table a = .ok r) (hsize : r.isr.value < 10 ^ (27 - policy.places : ℤ)) :
    ∃ k : ℤ, r.fixedFee.value = k / 10 ^ policy.places ∧
      (r.isr.value = r.fixedFee.value + r.marginal.value ↔
        ¬policy.method.TiesOdd k (r.unrounded * 10 ^ policy.places) ∧
        ¬policy.method.Crosses ((r.fixedFee.value + r.unrounded) * 10 ^ policy.places)
          (r.total * 10 ^ policy.places)) ∧
      (r.isr.value ≠ r.fixedFee.value + r.marginal.value →
        |r.isr.value - (r.fixedFee.value + r.marginal.value)| = 1 / 10 ^ policy.places) := by
  obtain ⟨⟨row, hrow, hfee⟩, hfeenonneg, hnonneg, hmarginal, hisr⟩ := parts_of_calculate hrows h
  obtain ⟨k, hk⟩ := hfees row hrow
  rw [← hfee] at hk
  have hpos : (0 : ℚ) < 10 ^ policy.places := by positivity
  have hunits : (r.fixedFee.value + r.unrounded) * 10 ^ policy.places =
      k + r.unrounded * 10 ^ policy.places := by
    rw [add_mul, hk, div_mul_cancel₀ _ hpos.ne']
  have hk0 : 0 ≤ k := by
    rw [hk, le_div_iff₀ hpos, zero_mul] at hfeenonneg
    exact_mod_cast hfeenonneg
  have hhalves : RoundingMethod.BetweenHalves (k + r.unrounded * 10 ^ policy.places)
      (r.total * 10 ^ policy.places) := by
    rw [← hunits]
    exact RoundingMethod.betweenHalves_of_within
      (within_rounded (add_nonneg hfeenonneg hnonneg) (hisr ▸ hsize))
  have hx := mul_nonneg hnonneg hpos.le
  have hiff := RoundingMethod.nearest_eq_add_iff policy.method hk0 hx hhalves
  have hnear := RoundingMethod.abs_nearest_sub_add_le policy.method hhalves
  rw [← hunits] at hiff
  rw [RoundingMethod.exact] at hmarginal hisr
  generalize policy.method.nearest (r.unrounded * 10 ^ policy.places) = j at hmarginal hiff hnear
  generalize policy.method.nearest (r.total * 10 ^ policy.places) = i at hisr hiff hnear
  have hdifference : r.isr.value - (r.fixedFee.value + r.marginal.value) =
      ((i - (k + j) : ℤ) : ℚ) / 10 ^ policy.places := by
    rw [hisr, hk, hmarginal]
    push_cast
    ring
  have hsame : r.isr.value = r.fixedFee.value + r.marginal.value ↔ i = k + j := by
    rw [← sub_eq_zero, hdifference, div_eq_zero_iff, or_iff_left hpos.ne', Int.cast_eq_zero, sub_eq_zero]
  refine ⟨k, hk, hsame.trans hiff, fun hne => ?_⟩
  have hone : |i - (k + j)| = 1 :=
    le_antisymm hnear (Int.one_le_abs (sub_ne_zero.2 (hsame.not.1 hne)))
  rw [hdifference, abs_div, abs_of_pos hpos, ← Int.cast_abs, hone, Int.cast_one]

def evenCents : RoundingPolicy := { RoundingPolicy.standard with method := .halfEven }

/-- One row, by whose rate a base of one owes all but the last digit of half a cent. -/
def almostHalf : BracketTable IsrTerms where
  name := "ISR"
  rows := [⟨0, none, ⟨1000, ⟨false, 4999999999999999999999999999, -30⟩⟩⟩]
  sound := ok_of_toOption (by decide +kernel)

theorem fees_of_biweekly :
    ∀ row ∈ (Published.tariff .biweekly).rows, ∃ k : ℤ, row.terms.fixedFee.value = k / 10 ^ 2 := by
  have hexponents : ∀ row ∈ (Published.tariff .biweekly).rows, -2 ≤ row.terms.fixedFee.exponent := by
    decide +kernel
  exact fun row hrow => exists_div_places (hexponents row hrow)

/-- The tax on the excess is halfway and rounded to an even cent, and the sum with a fee of an odd number of
cents is rounded to an even cent too; for `ROUND`, a sum of too many digits is brought to half a cent. -/
theorem breakdown_off_by_cent :
    ((∀ row ∈ (Published.tariff .biweekly).rows, ∃ j, Bracket.load j = .ok row) ∧
      (∀ row ∈ (Published.tariff .biweekly).rows, ∃ k : ℤ, row.terms.fixedFee.value = k / 10 ^ 2) ∧
      ∃ r, calculate evenCents (Published.tariff .biweekly) (7648.16 : Decimal) = .ok r ∧
        r.fixedFee = 809.25 ∧ r.marginal = 1.34 ∧ r.isr = 810.58 ∧
        r.isr.value ≠ r.fixedFee.value + r.marginal.value) ∧
    (∀ row ∈ almostHalf.rows, ∃ j, Bracket.load j = .ok row) ∧
      (∀ row ∈ almostHalf.rows, ∃ k : ℤ, row.terms.fixedFee.value = k / 10 ^ 2) ∧
      ∃ r, calculate .standard almostHalf (1 : Decimal) = .ok r ∧
        r.fixedFee = 1000 ∧ r.marginal = ⟨false, 0, -2⟩ ∧ r.isr = 1000.01 ∧
        r.isr.value ≠ r.fixedFee.value + r.marginal.value := by
  have hparts (r : IsrResult) {fee marginal isr : Decimal} (hfee : r.fixedFee = fee)
      (hmarginal : r.marginal = marginal) (hisr : r.isr = isr)
      (hne : isr.value ≠ fee.value + marginal.value) :
      r.fixedFee = fee ∧ r.marginal = marginal ∧ r.isr = isr ∧
        r.isr.value ≠ r.fixedFee.value + r.marginal.value := by
    subst hfee hmarginal hisr
    exact ⟨rfl, rfl, rfl, hne⟩
  have htie : (calculate evenCents (Published.tariff .biweekly) (7648.16 : Decimal)).toOption.map
      (fun r => (r.fixedFee, r.marginal, r.isr)) = some (809.25, 1.34, 810.58) := by decide +kernel
  have hraised : (calculate .standard almostHalf (1 : Decimal)).toOption.map
      (fun r => (r.fixedFee, r.marginal, r.isr)) = some (1000, ⟨false, 0, -2⟩, 1000.01) := by
    decide +kernel
  obtain ⟨r, hr, hfigures⟩ := Option.map_eq_some_iff.1 htie
  obtain ⟨r', hr', hfigures'⟩ := Option.map_eq_some_iff.1 hraised
  simp only [Prod.mk.injEq] at hfigures hfigures'
  obtain ⟨hfee, hmarginal, hisr⟩ := hfigures
  obtain ⟨hfee', hmarginal', hisr'⟩ := hfigures'
  have hload : ∀ row ∈ almostHalf.rows, (Bracket.load row.toJson).toOption = some row := by
    decide +kernel
  have hexponents : ∀ row ∈ almostHalf.rows, -2 ≤ row.terms.fixedFee.exponent := by decide +kernel
  exact ⟨⟨Published.load_tariff _, fees_of_biweekly, r, ok_of_toOption hr,
      hparts r hfee hmarginal hisr (by decide +kernel)⟩,
    fun row hrow => ⟨row.toJson, ok_of_toOption (hload row hrow)⟩,
    fun row hrow => exists_div_places (hexponents row hrow), r', ok_of_toOption hr',
    hparts r' hfee' hmarginal' hisr' (by decide +kernel)⟩

/-- The two figures that are a cent apart. -/
theorem biweekly_off_by_cent : ∃ r,
    calculate evenCents (Published.tariff .biweekly) (7648.16 : Decimal) = .ok r ∧
    |r.isr.value - (r.fixedFee.value + r.marginal.value)| = 1 / 10 ^ 2 := by
  have hfigures : (calculate evenCents (Published.tariff .biweekly) (7648.16 : Decimal)).toOption.map
      (fun r => (r.fixedFee, r.marginal, r.isr)) = some (809.25, 1.34, 810.58) := by decide +kernel
  obtain ⟨r, hr, hfigures⟩ := Option.map_eq_some_iff.1 hfigures
  simp only [Prod.mk.injEq] at hfigures
  obtain ⟨hfee, hmarginal, hisr⟩ := hfigures
  have hr := ok_of_toOption hr
  have hsize : r.isr.value < 10 ^ (27 - evenCents.places : ℤ) := by
    have hlt : (810.58 : Decimal).value < (⟨false, 1, 25⟩ : Decimal).value :=
      Decimal.lt_iff.1 (by decide +kernel)
    rwa [Decimal.value_mk, Nat.cast_one, one_mul, ← hisr] at hlt
  obtain ⟨-, -, -, hoff⟩ :=
    isr_eq_fee_add_marginal_iff (Published.load_tariff _) fees_of_biweekly hr hsize
  refine ⟨r, hr, hoff ?_⟩
  rw [hfee, hmarginal, hisr]
  decide +kernel

end Isr

end Payroll
