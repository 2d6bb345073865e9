import Mathlib
import Payroll.Proofs.Faults
import Payroll.Proofs.SettlementBalance

/-!
Settlements with days and deductions as they are given, which may be no numbers. A settlement is calculated,
and all its totals with it, or a value is refused.
-/

namespace Payroll

open Result

variable {policy : RoundingPolicy} {values : FiscalValues} {daily d : Decimal} {k entitlement : Nat}
  {tables : FiscalTables} {table : BracketTable IsrTerms} {r : SettlementRequest}

/-- A bounded number, or a value that is refused as none. -/
def Amount.Stated (k : Nat) (a : Amount) : Prop :=
  EndsIn (Decimal.Upto k) (fun f => f.isValueFault = true) a.toDecimal

namespace SettlementRequest

/-- The amounts that a request gives. -/
def given (r : SettlementRequest) : List Amount :=
  r.pendingSalaryDays.toList ++ r.pendingVacationDays.toList ++ [r.otherDeductions]

/-- The request without the amounts that it gives. -/
def bare (r : SettlementRequest) : SettlementRequest where
  kind := r.kind
  employee := r.employee
  termination := r.termination

theorem forall_given {P : Amount → Prop} : (∀ a ∈ r.given, P a) ↔
    (∀ a ∈ r.pendingSalaryDays, P a) ∧ (∀ a ∈ r.pendingVacationDays, P a) ∧ P r.otherDeductions := by
  simp only [given, List.forall_mem_append, Option.mem_toList, List.forall_mem_singleton, and_assoc,
    Option.mem_def]

theorem Settleable.of_bare (h : r.bare.Settleable k tables table 0)
    (hgiven : ∀ a ∈ r.given, Succeeds (Decimal.Upto k) a.toDecimal) :
    ∃ d, r.Settleable k tables table d := by
  obtain ⟨hpending, hvacation, d, hdeductions, hd⟩ := forall_given.1 hgiven
  exact ⟨d, {
    found := h.found
    rows := h.rows
    values := h.values
    employee := h.employee
    later := h.later
    year := h.year
    pendingSalaryDays := hpending
    pendingVacationDays := hvacation
    otherDeductions := ⟨hdeductions, hd⟩
    amounts := h.amounts
    salary := h.salary }⟩

end SettlementRequest

namespace Settlement

/-- Whether days are given or follow, they are known, or a value is refused. -/
theorem daysOr_ends {given : Option Amount} {days : Except Fault Decimal}
    (hdays : Succeeds (fun _ => True) days) (hgiven : ∀ a ∈ given, a.Stated k) :
    EndsIn (fun _ => ∀ a ∈ given, ∃ d, a.toDecimal = .ok d) (fun f => f.isValueFault = true)
      (daysOr given days) := by
  cases given with
  | none =>
      obtain ⟨d, rfl, -⟩ := hdays
      exact nofun
  | some a =>
      refine (hgiven a rfl).eq_ok.mono (fun d hd b hb => ⟨d, ?_⟩) fun _ => id
      rw [← Option.some.inj hb]
      exact hd.1

/-- What was earned is refused for an amount that is no number. -/
theorem earned_refused (hvalues : values.Upto k) (hentitlement : entitlement ≤ 32)
    (hlater : r.employee.hireDate.rank < r.termination.rank) (hk : 2 * k + 5 < 999999)
    (hgiven : ∀ a ∈ r.given, a.Stated k) (hnone : ¬∀ a ∈ r.given, ∃ d, a.toDecimal = .ok d) :
    EndsIn (fun _ => False) (fun f => f.isValueFault = true)
      (earned policy values daily entitlement r) := by
  have hworked := daysWorked_upto hlater
  have hentitlement : (Decimal.ofInt entitlement).Upto 2 := .ofNat (hentitlement.trans (by decide))
  obtain ⟨hpending, hvacation, hdeductions⟩ := SettlementRequest.forall_given.1 hgiven
  rw [earned_eq]
  refine (Decimal.div_literal_upto (by decide) hworked (by decide)).endsIn fun fraction _ hfraction => ?_
  refine (daysOr_ends (.ok trivial) hpending).bind fun pendingDays hpending => ?_
  refine (Decimal.mul_upto (k := k + 5) (by omega) hfraction.toUpto hvalues.aguinaldo
    (by omega)).endsIn fun exact _ hexact => ?_
  refine (roundHalfAway_upto (by decide) hexact (by omega)).endsIn fun aguinaldoDays _ _ => ?_
  have hfollowing : Succeeds (fun _ => True) (do
      roundHalfAway dayPlaces (← Decimal.ordinary.mul fraction (.ofInt entitlement)) :
        Except Fault Decimal) :=
    (Decimal.mul_upto (k := k + 5) (by omega) hfraction.toUpto hentitlement (by omega)).bind
      fun days _ hdays => (roundHalfAway_upto (by decide) hdays (by omega)).mono fun _ _ => trivial
  refine (daysOr_ends hfollowing hvacation).bind fun vacationDays hvacation => ?_
  refine hdeductions.eq_ok.bind fun deductions hdeductions => (hnone ?_).elim
  exact SettlementRequest.forall_given.2 ⟨hpending, hvacation, deductions, hdeductions.1⟩

/-- A settlement with all of its totals. -/
structure Totalled (k : Nat) (s : Settlement) : Prop where
  gross : ∃ gross, s.grossTotal = .ok gross
  net : ∃ net, s.netTotal = .ok net
  rate : s.separationRate.Upto k

/-- Every total is a part of the last one. -/
theorem Totalled.exists_toJson {s : Settlement} (h : s.Totalled k) : ∃ j, s.toJson = .ok j := by
  obtain ⟨net, hnet⟩ := h.net
  obtain ⟨gross, hgross, hleft⟩ := bind_eq_ok.1 hnet
  obtain ⟨deductions, hdeductions, -⟩ := bind_eq_ok.1 hleft
  obtain ⟨isr, hisr, -⟩ := bind_eq_ok.1 hdeductions
  obtain ⟨_, -, hparts⟩ := bind_eq_ok.1 hgross
  obtain ⟨_, -, hparts⟩ := bind_eq_ok.1 hparts
  obtain ⟨_, -, hparts⟩ := bind_eq_ok.1 hparts
  obtain ⟨separation, hseparation, -⟩ := bind_eq_ok.1 hparts
  exact ⟨_, bind_eq_ok.2 ⟨_, hseparation, bind_eq_ok.2 ⟨_, hgross, bind_eq_ok.2 ⟨_, hisr,
    bind_eq_ok.2 ⟨_, hdeductions, bind_eq_ok.2 ⟨_, hnet, rfl⟩⟩⟩⟩⟩⟩

/-- A settlement is calculated with all of its totals, or a value is refused. -/
theorem calculate_settles (table : BracketTable IsrTerms) (hk : k ≤ 200000)
    (h : ¬r.termination.orEqual r.employee.hireDate = true → r.bare.Settleable k tables table 0)
    (hgiven : ∀ a ∈ r.given, a.Stated k) :
    EndsIn (Totalled (2 * k + 1)) (fun f => f.isValueFault = true) (calculate policy tables r) := by
  by_cases hlater : r.termination.orEqual r.employee.hireDate = true
  · have hthrow : calculate policy tables r =
        .error (.terminationBeforeHire r.termination r.employee.hireDate) := by
      unfold calculate
      dsimp only
      rw [if_pos hlater]
      rfl
    rw [hthrow]
    exact rfl
  have hbare := h hlater
  by_cases hnumbers : ∀ a ∈ r.given, ∃ d, a.toDecimal = .ok d
  · obtain ⟨d, hsettleable⟩ := hbare.of_bare fun a ha => by
      obtain ⟨d, hd⟩ := hnumbers a ha
      have hstated := hgiven a ha
      rw [Amount.Stated, hd] at hstated
      exact ⟨d, hd, hstated⟩
    refine (calculate_composes hk hsettleable).mono (fun s hs => ?_) fun f hf => hf.1 ▸ rfl
    obtain ⟨gross, hgross, -⟩ := hs.1.1.grossTotal_paid (by omega)
    exact ⟨⟨gross, hgross⟩, hs.1.1.exists_netTotal (by omega), hs.2⟩
  · have hvalues := hbare.values_upto
    unfold calculate
    dsimp only
    rw [if_neg hlater]
    refine (Employee.dailyPay_upto hbare.baseSalary_upto hbare.dailySalary_upto (by omega)).endsIn
      fun daily _ hdaily => ?_
    refine (Employee.integratedPay_upto hbare.sbc_upto hdaily hvalues.aguinaldo hvalues.premium
      (Service.vacationDays_le _) (by omega)).endsIn fun integrated _ _ => ?_
    exact (earned_refused (r := r) hvalues (Service.vacationDays_le _) hbare.rank_lt (by omega) hgiven
      hnumbers).bind fun _ => False.elim

end Settlement

end Payroll
