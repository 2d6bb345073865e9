import Mathlib
import Payroll.Proofs.DistributedTotals
import Payroll.Proofs.TaxProgression
import Payroll.Proofs.RunningSums
import Payroll.Tax.Imss

/-!
Contributions on two bases and numbers of days. Every daily base grows with the capped contribution base,
and every step to an amount keeps order and sign, so that the quotas of a larger base or of more days are
at least those of the smaller, one by one and in the totals. Bases beyond the cap have the same capped base,
and their quotas are ordered both ways.
-/

namespace Payroll

open Decimal (Context ordinary)
open Result Record

/-- Quotas of one branch by the same rates, not negative, and the second at least the first. -/
structure ImssQuota.Below (q q' : ImssQuota) : Prop where
  concept : q.concept = q'.concept
  base : q.base = q'.base
  employerRate : q.employerRate = q'.employerRate
  employeeRate : q.employeeRate = q'.employeeRate
  days : q.days ≤ q'.days
  dailyBase : q.dailyBase.value ≤ q'.dailyBase.value
  employer : 0 ≤ q.employerAmount.value ∧ q.employerAmount.value ≤ q'.employerAmount.value
  employee : 0 ≤ q.employeeAmount.value ∧ q.employeeAmount.value ≤ q'.employeeAmount.value

/-- Quotas that are equal in every value. -/
structure ImssQuota.Agrees (q q' : ImssQuota) : Prop where
  concept : q.concept = q'.concept
  base : q.base = q'.base
  employerRate : q.employerRate = q'.employerRate
  employeeRate : q.employeeRate = q'.employeeRate
  days : q.days = q'.days
  dailyBase : q.dailyBase.value = q'.dailyBase.value
  employer : q.employerAmount.value = q'.employerAmount.value
  employee : q.employeeAmount.value = q'.employeeAmount.value

theorem ImssQuota.Below.antisymm {q q' : ImssQuota} (h : q.Below q') (h' : q'.Below q) : q.Agrees q' where
  concept := h.concept
  base := h.base
  employerRate := h.employerRate
  employeeRate := h.employeeRate
  days := le_antisymm h.days h'.days
  dailyBase := le_antisymm h.dailyBase h'.dailyBase
  employer := le_antisymm h.employer.2 h'.employer.2
  employee := le_antisymm h.employee.2 h'.employee.2

namespace FiscalValues

/-- What the checks of a record say of the values. -/
structure Lawful (v : FiscalValues) : Prop where
  umaDaily : 0 < v.umaDaily.value
  smgDaily : 0 < v.smgDaily.value
  aguinaldoDays : 15 ≤ v.aguinaldoDays
  vacationPremium : 0 ≤ v.vacationPremium.value ∧ v.vacationPremium.value ≤ 1
  sbcCap : 0 < v.sbcCap

theorem lawful_of_load {j : Json} {v : FiscalValues} (h : load j = .ok v) : v.Lawful := by
  obtain ⟨fs, -, -, hrun, -⟩ := record_eq_ok.1 (Record.load_eq_ok.1 h)
  rw [FieldReader.run_eq_ok] at hrun
  unfold fieldReader at hrun
  iterate 8 rw [FieldReader.exists_run_seq] at hrun
  rw [FieldReader.exists_run_map] at hrun
  obtain ⟨_, -, _, huma, _, -, _, -, _, hsmg, _, -, _, hdays, _, hpremium, _, hcap, rfl⟩ := hrun
  have habove {name : String} {d : Decimal}
      (hr : (required name (above 0 decimal)).run fs = .ok d) : 0 < d.value := by
    obtain ⟨_, -, hr⟩ := required_eq_ok.1 hr
    rw [← Decimal.value_zero']
    exact Decimal.lt_iff.1 (bounded_eq_ok.1 hr).2
  refine ⟨habove huma, habove hsmg, ?_, ?_, ?_⟩
  · rcases eq_or_read_of_defaulted hdays with rfl | ⟨_, hdays⟩
    · exact le_rfl
    · exact of_decide_eq_true (bounded_eq_ok.1 hdays).2
  · have hquarter : 0 ≤ (0.25 : Decimal).value := Decimal.value_nonneg rfl
    have hdefault : (0.25 : Decimal).value ≤ (1 : Decimal).value :=
      Decimal.le_iff.1 (by decide +kernel)
    have hone : (1 : Decimal).value = 1 := (Decimal.value_mk 1 0).trans (by norm_num)
    rw [← hone]
    rcases eq_or_read_of_defaulted hpremium with rfl | ⟨_, hpremium⟩
    · exact ⟨hquarter, hdefault⟩
    · obtain ⟨hpremium, hleast⟩ := bounded_eq_ok.1 hpremium
      exact ⟨hquarter.trans (Decimal.le_iff.1 hleast), Decimal.le_iff.1 (bounded_eq_ok.1 hpremium).2⟩
  · rcases eq_or_read_of_defaulted hcap with rfl | ⟨_, hcap⟩
    · change (0 : Int) < 25
      decide
    · exact of_decide_eq_true (bounded_eq_ok.1 hcap).2

end FiscalValues

namespace ImssRate

theorem nonneg_of_load {j : Json} {r : ImssRate} (h : load j = .ok r) :
    0 ≤ r.employer.value ∧ 0 ≤ r.employee.value := by
  obtain ⟨fs, -, -, hrun, -⟩ := record_eq_ok.1 (Record.load_eq_ok.1 h)
  rw [FieldReader.run_eq_ok] at hrun
  unfold fieldReader at hrun
  iterate 3 rw [FieldReader.exists_run_seq] at hrun
  rw [FieldReader.exists_run_map] at hrun
  obtain ⟨_, -, _, hemployer, _, hemployee, _, -, rfl⟩ := hrun
  have hrate {name : String} {d : Decimal}
      (hr : (defaulted name 0 (atLeast 0 (atMost 1 decimal))).run fs = .ok d) : 0 ≤ d.value := by
    rw [← Decimal.value_zero']
    rcases eq_or_read_of_defaulted hr with rfl | ⟨_, hr⟩
    · exact le_rfl
    · exact Decimal.le_iff.1 (bounded_eq_ok.1 hr).2
  exact ⟨hrate hemployer, hrate hemployee⟩

end ImssRate

namespace Imss

variable {policy : RoundingPolicy} {values : FiscalValues} {rates : List ImssRate} {rate : ImssRate}
  {riskRates : List (String × Amount)} {risk : Json} {base : ImssBase} {days days' : Int}
  {capped capped' d d' x x' s s' : Decimal} {a a' : Amount} {q q' : ImssQuota} {qs qs' : List ImssQuota}
  {r r' : ImssResult}

theorem amount_mono {c : Decimal} (hd : 0 ≤ d.value) (hle : d.value ≤ d'.value) (hdays : 0 ≤ days)
    (hdays' : days ≤ days') (hc : 0 ≤ c.value) (h : amount policy d days c = .ok x)
    (h' : amount policy d' days' c = .ok x') : 0 ≤ x.value ∧ x.value ≤ x'.value := by
  have hprecision : 0 < ordinary.precision := by decide
  have hs := Context.standard_ordinary
  obtain ⟨total, htotal, h⟩ := bind_eq_ok.1 h
  obtain ⟨exact, hexact, h⟩ := bind_eq_ok.1 h
  obtain ⟨total', htotal', h'⟩ := bind_eq_ok.1 h'
  obtain ⟨exact', hexact', h'⟩ := bind_eq_ok.1 h'
  have htotal := Context.value_of_mul hprecision (signal_eq_ok.1 htotal)
  have hexact := Context.value_of_mul hprecision (signal_eq_ok.1 hexact)
  have htotal' := Context.value_of_mul hprecision (signal_eq_ok.1 htotal')
  have hexact' := Context.value_of_mul hprecision (signal_eq_ok.1 hexact')
  rw [Decimal.value_ofInt] at htotal htotal'
  have hdaysle : (days : ℚ) ≤ days' := by exact_mod_cast hdays'
  have hdaysnonneg : (0 : ℚ) ≤ days := by exact_mod_cast hdays
  have htotalle : total.value ≤ total'.value := by
    rw [htotal, htotal']
    exact Context.rounded_mono hprecision (mul_le_mul hle hdaysle hdaysnonneg (hd.trans hle))
  have hexactle : exact.value ≤ exact'.value := by
    rw [hexact, hexact']
    exact Context.rounded_mono hprecision (mul_le_mul_of_nonneg_right htotalle hc)
  have hnonneg : 0 ≤ exact.value := by
    rw [hexact, htotal]
    exact Context.rounded_nonneg (mul_nonneg (Context.rounded_nonneg (mul_nonneg hd hdaysnonneg)) hc)
  exact ⟨(keepsSign_roundTo hs hprecision policy.bounded h).1 hnonneg,
    roundTo_mono hs hprecision policy.bounded h h' hexactle⟩

section Capped

variable (huma : 0 < values.umaDaily.value) (hcapped : 0 ≤ capped.value)
  (hle : capped.value ≤ capped'.value) (hdays : 0 ≤ days) (hdays' : days ≤ days')

include hcapped hle

include huma in
theorem dailyBase_mono (h : dailyBase values capped base = .ok d)
    (h' : dailyBase values capped' base = .ok d') : 0 ≤ d.value ∧ d.value ≤ d'.value := by
  cases base with
  | sbc =>
      cases h
      cases h'
      exact ⟨hcapped, hle⟩
  | uma =>
      cases h
      cases h'
      exact ⟨huma.le, le_rfl⟩
  | excess =>
      have hprecision : 0 < ordinary.precision := by decide
      obtain ⟨threshold, hthreshold, h⟩ := bind_eq_ok.1 h
      obtain ⟨left, hleft, h⟩ := bind_eq_ok.1 h
      obtain ⟨threshold', hthreshold', h'⟩ := bind_eq_ok.1 h'
      obtain ⟨left', hleft', h'⟩ := bind_eq_ok.1 h'
      cases h
      cases h'
      obtain rfl : threshold = threshold' := Except.ok.inj (hthreshold.symm.trans hthreshold')
      have hleft := Context.value_of_sub hprecision (signal_eq_ok.1 hleft)
      have hleft' := Context.value_of_sub hprecision (signal_eq_ok.1 hleft')
      rw [Decimal.value_max2, Decimal.value_max2, Decimal.value_zero', hleft, hleft']
      refine ⟨le_max_left _ _, max_le_max_left _ ?_⟩
      exact Context.rounded_mono hprecision (sub_le_sub_right hle _)

include hdays hdays'

include huma in
theorem quota_below (hrate : 0 ≤ rate.employer.value ∧ 0 ≤ rate.employee.value)
    (h : quota policy values capped days rate = .ok q)
    (h' : quota policy values capped' days' rate = .ok q') : q.Below q' := by
  obtain ⟨daily, hdaily, h⟩ := bind_eq_ok.1 h
  obtain ⟨employer, hemployer, h⟩ := bind_eq_ok.1 h
  obtain ⟨employee, hemployee, h⟩ := bind_eq_ok.1 h
  obtain ⟨daily', hdaily', h'⟩ := bind_eq_ok.1 h'
  obtain ⟨employer', hemployer', h'⟩ := bind_eq_ok.1 h'
  obtain ⟨employee', hemployee', h'⟩ := bind_eq_ok.1 h'
  cases h
  cases h'
  obtain ⟨hnonneg, hdailyle⟩ := dailyBase_mono huma hcapped hle hdaily hdaily'
  exact {
    concept := rfl
    base := rfl
    employerRate := rfl
    employeeRate := rfl
    days := hdays'
    dailyBase := hdailyle
    employer := amount_mono hnonneg hdailyle hdays hdays' hrate.1 hemployer hemployer'
    employee := amount_mono hnonneg hdailyle hdays hdays' hrate.2 hemployee hemployee' }

theorem riskQuota_below
    (hrisk : risk.truthy = true → ∀ rate, riskRate riskRates risk = .ok rate → 0 ≤ rate.value)
    (h : riskQuota policy capped days riskRates risk = .ok qs)
    (h' : riskQuota policy capped' days' riskRates risk = .ok qs') :
    List.Forall₂ ImssQuota.Below qs qs' := by
  unfold riskQuota at h h'
  split at h
  · next htruthy =>
    rw [if_pos htruthy] at h'
    obtain ⟨rate, hrate, h⟩ := bind_eq_ok.1 h
    obtain ⟨employer, hemployer, h⟩ := bind_eq_ok.1 h
    obtain ⟨employee, hemployee, h⟩ := bind_eq_ok.1 h
    obtain ⟨rate', hrate', h'⟩ := bind_eq_ok.1 h'
    obtain ⟨employer', hemployer', h'⟩ := bind_eq_ok.1 h'
    obtain ⟨employee', hemployee', h'⟩ := bind_eq_ok.1 h'
    cases h
    cases h'
    obtain rfl : rate = rate' := Except.ok.inj (hrate.symm.trans hrate')
    obtain rfl : employee = employee' := Except.ok.inj (hemployee.symm.trans hemployee')
    have hnone := (keepsSign_roundTo Context.standard_ordinary (by decide) policy.bounded hemployee).1
      Decimal.value_zero'.ge
    refine .cons ?_ .nil
    exact {
      concept := rfl
      base := rfl
      employerRate := rfl
      employeeRate := rfl
      days := hdays'
      dailyBase := hle
      employer := amount_mono hcapped hle hdays hdays' (hrisk htruthy rate hrate) hemployer hemployer'
      employee := ⟨hnone, le_rfl⟩ }
  · next hnone =>
    rw [if_neg hnone] at h'
    cases h
    cases h'
    exact .nil

end Capped

/-- Quotas of the housing fund, or those of all other branches, are ordered as all are. -/
theorem below_filter (keep : Bool → Bool) (h : List.Forall₂ ImssQuota.Below qs qs') :
    List.Forall₂ ImssQuota.Below (qs.filter fun q => keep (ImssResult.isHousing q))
      (qs'.filter fun q => keep (ImssResult.isHousing q)) := by
  refine List.rel_filter (fun q q' hq => ?_) h
  have hsame : ImssResult.isHousing q = ImssResult.isHousing q' :=
    congrArg (· == housingConcept) hq.concept
  change keep (ImssResult.isHousing q) = true ↔ keep (ImssResult.isHousing q') = true
  rw [hsame]

/-- A total that is not negative and at most another, and in range if the other is. -/
def NotAbove (x x' : Except Fault Decimal) : Prop :=
  ∀ t', x' = .ok t' → ∃ t, x = .ok t ∧ 0 ≤ t.value ∧ t.value ≤ t'.value

theorem notAbove_sum {f : ImssQuota → Decimal} (hf : ∀ q q' : ImssQuota, q.Below q' →
    0 ≤ (f q).value ∧ (f q).value ≤ (f q').value) (h : List.Forall₂ ImssQuota.Below qs qs') :
    NotAbove (liftM (ordinary.sum (qs.map f))) (liftM (ordinary.sum (qs'.map f))) := by
  intro t' ht'
  have hamounts : List.Forall₂ (fun d e => 0 ≤ d.value ∧ d.value ≤ e.value) (qs.map f) (qs'.map f) :=
    List.forall₂_map_left_iff.2 (List.forall₂_map_right_iff.2 (h.imp hf))
  obtain ⟨t, ht, hbounds⟩ :=
    Context.exists_sum_le Context.standard_ordinary (by decide) hamounts (signal_eq_ok.1 ht')
  exact ⟨t, signal_eq_ok.2 ht, hbounds⟩

/-- What a calculation computes with: the capped base, and the quotas by the rates and by the risk. -/
theorem steps_of_calculate (ha : a.toDecimal = .ok s)
    (h : calculate policy rates values riskRates a days risk = .ok r) :
    0 ≤ s.value ∧ 0 ≤ days ∧ ∃ cap qs risks,
      ordinary.mul values.umaDaily (.ofInt values.sbcCap) = .ok cap ∧
      (rates.filter fun r => r.concept != riskConcept).mapM
        (quota policy values (Decimal.min2 s cap) days) = .ok qs ∧
      riskQuota policy (Decimal.min2 s cap) days riskRates risk = .ok risks ∧ r.quotas = qs ++ risks := by
  obtain ⟨_, hs, h⟩ := bind_eq_ok.1 h
  obtain rfl := Except.ok.inj (ha.symm.trans hs)
  simp only at h
  split at h
  · cases h
  · next hnonneg =>
    split at h
    · cases h
    · next hdays =>
      obtain ⟨cap, hcap, h⟩ := bind_eq_ok.1 h
      obtain ⟨qs, hqs, h⟩ := bind_eq_ok.1 h
      obtain ⟨risks, hrisks, h⟩ := bind_eq_ok.1 h
      cases h
      have hs : 0 ≤ s.value := by
        rw [← Decimal.value_zero']
        exact not_lt.1 (mt Decimal.lt_iff.2 hnonneg)
      exact ⟨hs, not_lt.1 hdays, cap, qs, risks, signal_eq_ok.1 hcap, hqs, hrisks, rfl⟩

section Loaded

variable (hvalues : ∃ j, FiscalValues.load j = .ok values)
  (hrates : ∀ rate ∈ rates, ∃ j, ImssRate.load j = .ok rate)
  (hrisk : risk.truthy = true → ∀ rate, riskRate riskRates risk = .ok rate → 0 ≤ rate.value)
  (ha : a.toDecimal = .ok s) (ha' : a'.toDecimal = .ok s')
  (h : calculate policy rates values riskRates a days risk = .ok r)
  (h' : calculate policy rates values riskRates a' days' risk = .ok r')

include hvalues hrates hrisk ha ha' h h'

/-- The quotas are in the order of the capped bases, which need not be that of the bases. -/
theorem quotas_below {cap : Decimal} (hcap : ordinary.mul values.umaDaily (.ofInt values.sbcCap) = .ok cap)
    (hle : min s.value cap.value ≤ min s'.value cap.value) (hdays' : days ≤ days') :
    List.Forall₂ ImssQuota.Below r.quotas r'.quotas := by
  obtain ⟨j, hj⟩ := hvalues
  obtain ⟨huma, -, -, -, hcount⟩ := FiscalValues.lawful_of_load hj
  obtain ⟨hs, hdays, cap', qs, risks, hcap', hqs, hrisks, hr⟩ := steps_of_calculate ha h
  obtain ⟨-, -, cap'', qs', risks', hcap'', hqs', hrisks', hr'⟩ := steps_of_calculate ha' h'
  obtain rfl : cap = cap' := Except.ok.inj (hcap.symm.trans hcap')
  obtain rfl : cap = cap'' := Except.ok.inj (hcap.symm.trans hcap'')
  rw [← Decimal.value_min2, ← Decimal.value_min2] at hle
  have hcapnonneg : 0 ≤ cap.value := by
    have hcount' : (0 : ℚ) ≤ values.sbcCap := by exact_mod_cast hcount.le
    rw [Context.value_of_mul (by decide) hcap, Decimal.value_ofInt]
    exact Context.rounded_nonneg (mul_nonneg huma.le hcount')
  have hcapped : 0 ≤ (Decimal.min2 s cap).value := by
    rw [Decimal.value_min2]
    exact le_min hs hcapnonneg
  rw [hr, hr']
  refine List.rel_append (forall₂_of_mapM₂ hqs hqs' fun rate hrate q q' hq hq' => ?_)
    (riskQuota_below hcapped hle hdays hdays' hrisk hrisks hrisks')
  obtain ⟨j, hj⟩ := hrates rate (List.mem_of_mem_filter hrate)
  exact quota_below huma hcapped hle hdays hdays' (ImssRate.nonneg_of_load hj) hq hq'

/-- With the base and the days, no quota and no total falls, and none is negative. From the cap on, all
bases have the same quotas. -/
theorem quotas_ordered (hle : s.value ≤ s'.value) (hdays : days ≤ days') :
    List.Forall₂ ImssQuota.Below r.quotas r'.quotas ∧
      NotAbove r.employeeTotal r'.employeeTotal ∧ NotAbove r.employerTotal r'.employerTotal ∧
      NotAbove r.housing r'.housing ∧
      (days = days' → ∀ cap, ordinary.mul values.umaDaily (.ofInt values.sbcCap) = .ok cap →
        cap.value ≤ s.value → List.Forall₂ ImssQuota.Agrees r.quotas r'.quotas) := by
  obtain ⟨-, -, cap, -, -, hcap, -⟩ := steps_of_calculate ha h
  have hbelow := quotas_below hvalues hrates hrisk ha ha' h h' hcap (min_le_min_right _ hle) hdays
  refine ⟨hbelow, notAbove_sum (fun _ _ hq => hq.employee) hbelow,
    notAbove_sum (fun _ _ hq => hq.employer) (below_filter (!·) hbelow),
    notAbove_sum (fun _ _ hq => hq.employer) (below_filter id hbelow), ?_⟩
  rintro rfl cap' hcap' hreached
  have hsame : min s.value cap'.value = min s'.value cap'.value := by
    rw [min_eq_right hreached, min_eq_right (hreached.trans hle)]
  have hup := quotas_below hvalues hrates hrisk ha ha' h h' hcap' hsame.le le_rfl
  have hdown := quotas_below hvalues hrates hrisk ha' ha h' h hcap' hsame.ge le_rfl
  exact List.forall₂_iff_get.2 ⟨hup.length_eq, fun i hi hi' =>
    ((List.forall₂_iff_get.1 hup).2 i hi hi').antisymm ((List.forall₂_iff_get.1 hdown).2 i hi' hi)⟩

end Loaded

/-- At the cap of 2025 and above it, with a risk class. -/
theorem capped_quotas_agree : ∃ r r',
    calculate .standard Published.imssRates Published.values2025 [("I", (0.0054355 : Decimal))]
      (2828.50 : Decimal) 15 (.text "I") = .ok r ∧
    calculate .standard Published.imssRates Published.values2025 [("I", (0.0054355 : Decimal))]
      (4000 : Decimal) 15 (.text "I") = .ok r' ∧
    List.Forall₂ ImssQuota.Below r.quotas r'.quotas ∧ NotAbove r.employeeTotal r'.employeeTotal ∧
    List.Forall₂ ImssQuota.Agrees r.quotas r'.quotas := by
  have hbacks := Published.readsBack_of_mem (t := (2025, Published.tables2025)) List.mem_cons_self
  have hrisk : (Json.text "I").truthy = true → ∀ rate,
      riskRate [("I", (0.0054355 : Decimal))] (.text "I") = .ok rate → 0 ≤ rate.value := by
    rintro - rate hrate
    cases hrate
    exact Decimal.value_nonneg rfl
  have hcap : ordinary.mul Published.values2025.umaDaily (.ofInt Published.values2025.sbcCap) =
      .ok 2828.50 := ok_of_toOption (by decide +kernel)
  have hle : (2828.50 : Decimal).value ≤ (4000 : Decimal).value := Decimal.le_iff.1 (by decide +kernel)
  obtain ⟨r, hr⟩ := Option.isSome_iff_exists.1 (show (calculate .standard Published.imssRates
    Published.values2025 [("I", (0.0054355 : Decimal))] (2828.50 : Decimal) 15 (.text "I")).toOption.isSome
    by decide +kernel)
  obtain ⟨r', hr'⟩ := Option.isSome_iff_exists.1 (show (calculate .standard Published.imssRates
    Published.values2025 [("I", (0.0054355 : Decimal))] (4000 : Decimal) 15 (.text "I")).toOption.isSome
    by decide +kernel)
  have hr := ok_of_toOption hr
  have hr' := ok_of_toOption hr'
  obtain ⟨hbelow, hemployee, -, -, hagrees⟩ := quotas_ordered ⟨_, hbacks.values⟩
    (fun rate hrate => ⟨_, hbacks.imss rate hrate⟩) hrisk rfl rfl hr hr' hle le_rfl
  exact ⟨r, r', hr, hr', hbelow, hemployee, hagrees rfl _ hcap le_rfl⟩

end Imss

end Payroll
