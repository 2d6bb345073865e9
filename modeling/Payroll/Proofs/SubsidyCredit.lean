import Mathlib
import Payroll.Proofs.DistributedTotals
import Payroll.Proofs.PublishedTariffs

/-!
The subsidy against the tax. Both are in whole places and short enough for ordinary arithmetic to take one
from the other exactly, so that rounding what is credited and what is left changes neither.
-/

namespace Payroll

open Decimal (Context ordinary)
open Result Record

namespace RoundingPolicy

variable {policy : RoundingPolicy} {a b d r : Decimal}

/-- An amount in whole places, whose sums and differences have no more digits than ordinary arithmetic. -/
structure Settles (policy : RoundingPolicy) (d : Decimal) : Prop where
  units : ∃ k : ℤ, d.value = k / 10 ^ policy.places
  nonneg : 0 ≤ d.value
  small : d.value < 10 ^ (27 - policy.places : ℤ)
  exponent : d.exponent ≤ ordinary.maxExponent

theorem settles_of_apply (h : policy.apply d = .ok r) (hd : 0 ≤ d.value)
    (hr : r.value < 10 ^ (27 - policy.places : ℤ)) : policy.Settles r := by
  have hs := Context.standard_ordinary
  refine ⟨exists_div_places (le_exponent_of_roundTo hs h),
    (keepsSign_roundTo hs (by decide) policy.bounded h).1 hd, hr, ?_⟩
  have hadjusted := adjusted_le_of_roundTo hs h
  have hdigits : 0 < r.digits := digitCount_pos _
  rw [Decimal.adjusted] at hadjusted
  omega

theorem settles_zero (policy : RoundingPolicy) : policy.Settles 0 where
  units := ⟨0, by rw [Decimal.value_zero', Int.cast_zero, zero_div]⟩
  nonneg := Decimal.value_zero'.ge
  small := Decimal.value_zero'.trans_lt (Decimal.ten_zpow_pos _)
  exponent := by decide

namespace Settles

theorem exists_units (h : policy.Settles d) :
    ∃ k : ℤ, d.value = k / 10 ^ policy.places ∧ 0 ≤ (k : ℚ) ∧ (k : ℚ) < 10 ^ 27 := by
  obtain ⟨k, hk⟩ := h.units
  have hpos : (0 : ℚ) < 10 ^ policy.places := by positivity
  have hnonneg := hk ▸ h.nonneg
  have hsmall := hk ▸ h.small
  rw [le_div_iff₀ hpos, zero_mul] at hnonneg
  rw [div_lt_iff₀ hpos, ← zpow_natCast, ← zpow_add₀ (by norm_num), sub_add_cancel] at hsmall
  exact ⟨k, hk, hnonneg, hsmall⟩

/-- Whole places are rounded to themselves. -/
theorem exists_apply (h : policy.Settles d) : ∃ r, policy.apply d = .ok r ∧ r.value = d.value := by
  obtain ⟨k, hk, hnonneg, hsmall⟩ := h.exists_units
  have hsize : |(k : ℚ)| < 10 ^ 28 := by
    rw [abs_of_nonneg hnonneg]
    exact hsmall.trans (by norm_num)
  have hheld := represents_places policy.bounded hsize
  have hexact : policy.method.exact policy.places d.value = d.value := by
    rw [hk, RoundingMethod.exact_int_div]
  obtain ⟨r, hr, hvalue, -⟩ := roundTo_exact Context.standard_ordinary policy.bounded policy.method
    (hk ▸ hheld) h.exponent (hexact.symm ▸ hk ▸ hheld)
  exact ⟨r, hr, hvalue.trans hexact⟩

theorem min (ha : policy.Settles a) (hb : policy.Settles b) : policy.Settles (Decimal.min2 a b) := by
  rcases Decimal.min2_eq_or a b with h | h
  · rwa [h]
  · rwa [h]

/-- What is left of an amount after another is taken, and never less than zero. -/
theorem exists_left (ha : policy.Settles a) (hb : policy.Settles b) :
    ∃ left, ordinary.sub a b = .ok left ∧ left.value = a.value - b.value ∧
      policy.Settles (Decimal.max2 0 left) := by
  obtain ⟨j, hj, hj0, hj'⟩ := ha.exists_units
  obtain ⟨k, hk, hk0, hk'⟩ := hb.exists_units
  have hdifference : a.value - b.value = ((j - k : ℤ) : ℚ) / 10 ^ policy.places := by
    rw [hj, hk]
    push_cast
    ring
  have hheld : ordinary.Represents (a.value - b.value) := by
    rw [hdifference]
    refine represents_places policy.bounded ?_
    norm_num at hj' hk'
    push_cast
    exact abs_lt.2 ⟨by linarith, by linarith⟩
  obtain ⟨left, hleft, hvalue, hexponent⟩ := Context.yields_sub Context.standard_ordinary hheld
  refine ⟨left, hleft, hvalue, ?_⟩
  have hmax := Decimal.value_max2 0 left
  rw [Decimal.value_zero', hvalue] at hmax
  rcases Decimal.max2_eq_or 0 left with h | h
  · rw [h]
    exact policy.settles_zero
  · rw [h] at hmax ⊢
    refine ⟨⟨_, hvalue.trans hdifference⟩, hmax ▸ le_max_left _ _, ?_, hexponent⟩
    rw [hvalue]
    linarith [ha.small, hb.nonneg]

end Settles

end RoundingPolicy

namespace Isr

variable {policy : RoundingPolicy} {table : BracketTable IsrTerms} {row : SubsidyBracket}
  {subsidies : Option (BracketTable SubsidyTerms)} {a : Amount} {b d e : Decimal} {isr : IsrResult}
  {credit : Option SubsidyResult}

/-- The subsidy that was looked up; none without a table. -/
def granted : Option SubsidyResult → Decimal
  | some s => s.subsidy
  | none => 0

theorem amount_nonneg_of_load {j : Json} (h : Bracket.load j = .ok row) : 0 ≤ row.terms.amount.value := by
  obtain ⟨-, fs, hrun⟩ := Bracket.readable_of_load h
  rw [FieldReader.run_eq_ok] at hrun
  unfold BracketTerms.reader instBracketTermsSubsidyTerms at hrun
  simp only at hrun
  rw [FieldReader.exists_run_map] at hrun
  obtain ⟨_, hamount, he⟩ := hrun
  obtain ⟨_, -, hamount⟩ := required_eq_ok.1 hamount
  rw [← he, ← Decimal.value_zero']
  exact Decimal.le_iff.1 (bounded_eq_ok.1 hamount).2

theorem settles_of_calculate (hrows : ∀ row ∈ table.rows, ∃ j, Bracket.load j = .ok row)
    (h : calculate policy table a = .ok isr) (hsize : isr.isr.value < 10 ^ (27 - policy.places : ℤ)) :
    policy.Settles isr.isr := by
  obtain ⟨b, hb, -⟩ := assessed_of_calculate h
  obtain ⟨d, hd, hvalue⟩ := value_of_calculate hb h
  exact RoundingPolicy.settles_of_apply hd (hvalue ▸ (value_of_isr hrows hb h).1) hsize

theorem settles_of_subsidy (hsubsidies : ∀ t ∈ subsidies, ∀ row ∈ t.rows, ∃ j, Bracket.load j = .ok row)
    (h : subsidies.mapM (fun t => subsidy policy t a) = .ok credit)
    (hsize : (granted credit).value < 10 ^ (27 - policy.places : ℤ)) :
    policy.Settles (granted credit) := by
  cases subsidies with
  | none =>
      cases h
      exact policy.settles_zero
  | some t =>
      obtain ⟨s, hs, h⟩ := bind_eq_ok.1 h
      cases h
      obtain ⟨m, hm, hs⟩ := bind_eq_ok.1 hs
      obtain ⟨amount, hamount, hs⟩ := bind_eq_ok.1 hs
      cases hs
      obtain ⟨b, -, -, rfl⟩ := BracketTable.exists_base_of_find hm
      obtain ⟨j, hj⟩ := hsubsidies t rfl _ (List.mem_of_getElem? (t.getElem?_position b))
      exact RoundingPolicy.settles_of_apply hamount (amount_nonneg_of_load hj) hsize

theorem exists_net (hd : policy.Settles d) (he : policy.Settles e) :
    ∃ left, net policy d e = .ok left ∧ left.value = max 0 (d.value - e.value) := by
  obtain ⟨left, hleft, hvalue, hsettles⟩ := hd.exists_left he
  obtain ⟨r, hr, hrvalue⟩ := hsettles.exists_apply
  refine ⟨r, ?_, ?_⟩
  · exact bind_eq_ok.2 ⟨d, rfl, bind_eq_ok.2 ⟨e, rfl, bind_eq_ok.2 ⟨left, signal_eq_ok.2 hleft, hr⟩⟩⟩
  · rw [hrvalue, Decimal.value_max2, Decimal.value_zero', hvalue]

/-- Tax and subsidy in whole places balance: what is credited and what is left make up the tax, no more is
credited than was granted, and tax is only left after all of it is used up. -/
theorem withSubsidy_conserves (hrows : ∀ row ∈ table.rows, ∃ j, Bracket.load j = .ok row)
    (hsubsidies : ∀ t ∈ subsidies, ∀ row ∈ t.rows, ∃ j, Bracket.load j = .ok row)
    (hisr : calculate policy table a = .ok isr)
    (hcredit : subsidies.mapM (fun t => subsidy policy t a) = .ok credit)
    (hsize : isr.isr.value < 10 ^ (27 - policy.places : ℤ))
    (hsize' : (granted credit).value < 10 ^ (27 - policy.places : ℤ)) :
    ∃ n, withSubsidy policy table subsidies a = .ok n ∧ n.isr = isr ∧ n.subsidy = credit ∧
      n.applied.value + n.net.value = isr.isr.value ∧
      0 ≤ n.net.value ∧ n.net.value ≤ isr.isr.value ∧
      0 ≤ n.applied.value ∧ n.applied.value ≤ (granted credit).value ∧
      (0 < n.net.value → n.applied.value = (granted credit).value) := by
  have htax := settles_of_calculate hrows hisr hsize
  have hgranted := settles_of_subsidy hsubsidies hcredit hsize'
  obtain ⟨applied, happlied, hvalue⟩ := (htax.min hgranted).exists_apply
  obtain ⟨left, hleft, hleftvalue⟩ := exists_net htax hgranted
  rw [Decimal.value_min2] at hvalue
  refine ⟨⟨isr, credit, applied, left⟩, ?_, rfl, rfl, ?_⟩
  · refine bind_eq_ok.2 ⟨isr, hisr, bind_eq_ok.2 ⟨credit, hcredit, ?_⟩⟩
    cases credit <;> exact bind_eq_ok.2 ⟨applied, happlied, bind_eq_ok.2 ⟨left, hleft, rfl⟩⟩
  · have htax' := htax.nonneg
    have hgranted' := hgranted.nonneg
    simp only [hvalue, hleftvalue]
    rcases le_total isr.isr.value (granted credit).value with hall | hrest
    · rw [min_eq_left hall, max_eq_left (by linarith)]
      exact ⟨by ring, le_rfl, htax', htax', hall, fun h => absurd h (lt_irrefl 0)⟩
    · rw [min_eq_right hrest, max_eq_right (by linarith)]
      exact ⟨by ring, by linarith, by linarith, hgranted', le_rfl, fun _ => rfl⟩

def biweeklySubsidy : BracketTable SubsidyTerms :=
  ⟨"SUBSIDIO_BIWEEKLY_2025", Published.biweeklySubsidy2025, ok_of_toOption (by decide +kernel)⟩

/-- The whole subsidy is used up, and tax is left. -/
theorem biweekly_credited : ∃ isr credit n,
    calculate .standard (Published.tariff .biweekly) (5000 : Decimal) = .ok isr ∧
    (some biweeklySubsidy).mapM (fun t => subsidy .standard t (5000 : Decimal)) = .ok credit ∧
    withSubsidy .standard (Published.tariff .biweekly) (some biweeklySubsidy) (5000 : Decimal) = .ok n ∧
    granted credit = 234.38 ∧ n.net = 153.14 ∧
    n.applied.value + n.net.value = isr.isr.value ∧ n.applied.value = (granted credit).value := by
  have hsubsidies : ∀ t ∈ some biweeklySubsidy, ∀ row ∈ t.rows, ∃ j, Bracket.load j = .ok row := by
    have hread : ∀ row ∈ biweeklySubsidy.rows, Bracket.read row.toJson = .ok row :=
      Published.read_subsidy (.biweekly, Published.biweeklySubsidy2025) (by decide +kernel)
    rintro _ ⟨⟩ row hrow
    exact ⟨_, Record.load_eq_ok.2 (hread row hrow)⟩
  have htax : (calculate .standard (Published.tariff .biweekly) (5000 : Decimal)).toOption.map
      IsrResult.isr = some 387.52 := by decide +kernel
  have hlooked : ((some biweeklySubsidy).mapM fun t =>
      subsidy .standard t (5000 : Decimal)).toOption.map granted = some 234.38 := by decide +kernel
  have hleft : (withSubsidy .standard (Published.tariff .biweekly) (some biweeklySubsidy)
      (5000 : Decimal)).toOption.map NetIsrResult.net = some 153.14 := by decide +kernel
  obtain ⟨isr, hisr, htax⟩ := Option.map_eq_some_iff.1 htax
  obtain ⟨credit, hcredit, hlooked⟩ := Option.map_eq_some_iff.1 hlooked
  obtain ⟨n, hn, hleft⟩ := Option.map_eq_some_iff.1 hleft
  have hisr := ok_of_toOption hisr
  have hcredit := ok_of_toOption hcredit
  have hn := ok_of_toOption hn
  have hsmall (d : Decimal) (hd : d.lt (⟨false, 1, 25⟩ : Decimal)) :
      d.value < 10 ^ (27 - RoundingPolicy.standard.places : ℤ) := by
    have hlt := Decimal.lt_iff.1 hd
    rwa [Decimal.value_mk, Nat.cast_one, one_mul] at hlt
  obtain ⟨n', hn', -, -, hsum, -, -, -, -, hall⟩ :=
    withSubsidy_conserves (Published.load_tariff _) hsubsidies hisr hcredit
    (htax ▸ hsmall _ (by decide +kernel)) (hlooked ▸ hsmall _ (by decide +kernel))
  obtain rfl : n = n' := Except.ok.inj (hn.symm.trans hn')
  have hpos : 0 < n.net.value := by
    rw [hleft, ← Decimal.value_zero']
    exact Decimal.lt_iff.1 (by decide +kernel)
  exact ⟨isr, credit, n, hisr, hcredit, hn, hlooked, hleft, hsum, hall hpos⟩

end Isr

end Payroll
