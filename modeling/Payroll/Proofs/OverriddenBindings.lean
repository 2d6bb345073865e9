import Mathlib
import Payroll.Fiscal.Published
import Payroll.Proofs.SettlementParts

/-!
The bindings with overrides put over them: every variable that is overridden has the value it was given,
all others have the values that follow from the employee, the period and the year. Only the days worked
depend on another variable, the absences.
-/

namespace Payroll.Formula

open Decimal (Context ordinary)
open Result

variable {e : Employee} {p : Period} {fiscal : FiscalValues} {overrides : Fields}
  {base plain all : Bindings} {a : Decimal} {k : Nat}

/-- Overrides of different variables, each of them null or a number. -/
structure Legal (overrides : Fields) : Prop where
  distinct : (Fields.names overrides).Nodup
  known : ∀ n ∈ Fields.names overrides, ∃ v : Variable, v.name = n
  numbers : ∀ f ∈ overrides, f.2 = .null ∨ ∃ d, f.2.toDecimal = .ok d

theorem exists_overrideValue {j : Json} (h : j = .null ∨ ∃ d, j.toDecimal = .ok d) :
    ∃ o, overrideValue j = .ok o := by
  rcases h with rfl | ⟨d, hd⟩
  · exact ⟨none, rfl⟩
  · unfold overrideValue
    split
    · exact ⟨none, rfl⟩
    · exact ⟨some d, map_eq_ok.2 ⟨d, hd, rfl⟩⟩

theorem overrideValue_eq_some {j : Json} (h : overrideValue j = .ok (some a)) :
    j.toDecimal = .ok a := by
  unfold overrideValue at h
  split at h
  · cases h
  · obtain ⟨d, hd, he⟩ := map_eq_ok.1 h
    cases he
    exact hd

theorem overrideValue_eq_none {j : Json} (h : overrideValue j = .ok none) : j = .null := by
  unfold overrideValue at h
  split at h
  · rfl
  · obtain ⟨d, -, he⟩ := map_eq_ok.1 h
    cases he

/-- What is put over a variable is its value in the end, since no variable is overridden twice. -/
theorem exists_overlay (hdistinct : (Fields.names overrides).Nodup)
    (hvalues : ∀ f ∈ overrides, ∃ o, overrideValue f.2 = .ok o) (base : Bindings) :
    ∃ all, overlay base overrides = .ok all ∧
      (∀ v j, Fields.lookup overrides v.name = some j → overrideValue j = .ok (all v)) ∧
      ∀ v, Fields.lookup overrides v.name = none → all v = base v := by
  induction overrides generalizing base with
  | nil =>
      refine ⟨base, rfl, fun v j h => ?_, fun _ _ => rfl⟩
      cases h
  | cons f fs ih =>
      obtain ⟨name, j⟩ := f
      obtain ⟨hname, hdistinct⟩ := List.nodup_cons.1 hdistinct
      obtain ⟨hj, hvalues⟩ := List.forall_mem_cons.1 hvalues
      obtain ⟨o, ho⟩ := hj
      obtain ⟨all, hall, hgiven, hkept⟩ :=
        ih hdistinct hvalues fun v => if v.name = name then o else base v
      refine ⟨all, bind_eq_ok.2 ⟨o, ho, hall⟩, fun v i hi => ?_, fun v hv => ?_⟩
      · by_cases he : v.name = name
        · simp only [Fields.lookup, he, if_true, Option.some.injEq] at hi
          subst hi
          rw [hkept v (he ▸ Fields.lookup_eq_none.2 hname), if_pos he]
          exact ho
        · simp only [Fields.lookup, Ne.symm he, if_false] at hi
          exact hgiven v i hi
      · by_cases he : v.name = name
        · simp only [Fields.lookup, he, if_true] at hv
          cases hv
        · simp only [Fields.lookup, Ne.symm he, if_false] at hv
          rw [hkept v hv, if_neg he]

/-- The days of the period are worked and none is absent, as long as nothing else is given. -/
theorem derived_upto (hbase : e.baseSalary.Upto k) (hdaily : ∀ d ∈ e.dailySalary, d.Upto k)
    (haguinaldo : (Decimal.ofInt fiscal.aguinaldoDays).Upto k)
    (hpremium : fiscal.vacationPremium.Upto 0) (hk : 2 * k + 4 < 999999) :
    Succeeds (fun values => values .workedDays = some (.ofInt p.days) ∧ values .absenceDays = some 0)
      (derived e p fiscal) := by
  unfold derived
  refine (Employee.dailyPay_upto hbase hdaily (by omega)).bind fun daily _ hdaily => ?_
  have hintegrated : Succeeds (fun _ => True) (e.integratedPay daily fiscal
      (Service.vacationDays (e.hireDate.yearsUntil p.stop))) := by
    cases hsbc : e.sbc with
    | some d => exact ⟨d, by rw [Employee.integratedPay, hsbc], trivial⟩
    | none =>
        refine (Employee.integratedPay_upto ?_ hdaily haguinaldo hpremium (Service.vacationDays_le _)
          hk).mono fun _ _ => trivial
        intro d hd
        rw [hsbc] at hd
        cases hd
  refine hintegrated.bind fun integrated _ _ => ?_
  refine (Decimal.div_literal_upto (k := k) (by omega) hdaily (by decide : 1 ≤ 8)).bind
    fun quotient _ hquotient => ?_
  refine (roundHalfAway_upto (by decide) hquotient (by omega)).bind fun hourly _ _ => ?_
  exact .ok ⟨rfl, rfl⟩

theorem name_notMem_reservedNames (v : Variable) : v.name ∉ reservedNames := by
  cases v <;> decide

theorem unknownNames_eq_nil {names : List String} (h : ∀ n ∈ names, ∃ v : Variable, v.name = n) :
    unknownNames names = [] := by
  have hnone : (names.filter fun n => (Variable.ofName? n).isNone) = [] := by
    apply List.filter_eq_nil_iff.2
    intro n hn
    obtain ⟨v, rfl⟩ := h n hn
    rw [Variable.ofName?_name]
    simp
  rw [unknownNames, hnone, sortNames, List.mergeSort_nil]

theorem bindings_of_overlay (hknown : ∀ n ∈ Fields.names overrides, ∃ v : Variable, v.name = n)
    (hbase : derived e p fiscal = .ok base) (hall : overlay base overrides = .ok all) :
    bindings e p fiscal overrides =
      (workedDays p overrides all).map fun worked v => if v = .workedDays then worked else all v := by
  have hreserved : (Fields.names overrides).find? reservedNames.contains = none := by
    apply List.find?_eq_none.2
    intro n hn
    obtain ⟨v, rfl⟩ := hknown n hn
    simpa using name_notMem_reservedNames v
  unfold bindings
  rw [hreserved, hbase, unknownNames_eq_nil hknown]
  simp only [bind, Except.bind, hall]
  cases workedDays p overrides all <;> rfl

theorem bindings_nil (hbase : derived e p fiscal = .ok base) : bindings e p fiscal [] = .ok base := by
  rw [bindings_of_overlay (by simp [Fields.names]) hbase rfl]
  refine congrArg Except.ok (funext fun v => ?_)
  exact ite_eq_right_iff.2 fun h => h ▸ rfl

/-! ### Absences -/

/-- What is taken from the days of a period by the absences: a negative number counts as none. -/
structure Worked (p : Period) (absent worked : Decimal) : Prop where
  computed : ∃ difference, ordinary.sub (.ofInt p.days) absent = .ok difference ∧
    worked = Decimal.max2 0 difference
  value_eq : worked.value = max 0 (ordinary.rounded (p.days - absent.value))
  exact : ordinary.Represents (p.days - absent.value) →
    worked.value = max 0 (p.days - absent.value)

theorem worked_of_sub {difference : Decimal} (h : ordinary.sub (.ofInt p.days) a = .ok difference) :
    Worked p a (Decimal.max2 0 difference) := by
  have hvalue : (Decimal.max2 0 difference).value = max 0 (ordinary.rounded (p.days - a.value)) := by
    rw [Decimal.value_max2, Decimal.value_zero', Context.value_of_sub (by decide) h,
      Decimal.value_ofInt]
    rfl
  refine ⟨⟨difference, h, rfl⟩, hvalue, fun hexact => ?_⟩
  rw [hvalue, Context.rounded_of_represents hexact]

theorem worked_none (p : Period) : Worked p 0 (.ofInt p.days) := by
  have hkind (kind : PeriodKind) : ordinary.sub (.ofInt kind.days) 0 = .ok (.ofInt kind.days) ∧
      Decimal.max2 0 (.ofInt kind.days) = .ofInt kind.days := by
    cases kind <;> decide +kernel
  obtain ⟨hsub, hmax⟩ := hkind p.kind
  have hworked := worked_of_sub (p := p) hsub
  rwa [hmax] at hworked

theorem exists_worked (hsize : |a.value| ≤ 10 ^ k) (hk : k + 2 ≤ 999999) :
    ∃ difference, ordinary.sub (.ofInt p.days) a = .ok difference := by
  obtain ⟨hlow, hhigh⟩ := Decimal.exponent_range hk
  have hdays : (p.days : ℚ) ≤ 30 := by
    have hkind (kind : PeriodKind) : kind.days ≤ 30 := by cases kind <;> decide
    exact_mod_cast hkind p.kind
  have hpos : (1 : ℚ) ≤ 10 ^ k := one_le_pow₀ (by norm_num)
  have hdifference : |(Decimal.ofInt p.days).value - a.value| ≤ 10 ^ ((k + 2 : Nat) : Int) := by
    rw [zpow_natCast, pow_add, Decimal.value_ofInt, abs_le]
    obtain ⟨hleast, hgreatest⟩ := abs_le.1 hsize
    have hnonneg : (0 : ℚ) ≤ p.days := Nat.cast_nonneg _
    push_cast
    constructor <;> linarith
  obtain ⟨difference, hd, -⟩ := Context.yieldsWithin_sub Context.standard_ordinary (by decide) hlow
    hhigh hdifference
  exact ⟨difference, hd⟩

/-- What bindings have in common with those without overrides, and where they differ. -/
structure Honours (p : Period) (overrides : Fields) (plain all : Bindings) : Prop where
  given : ∀ v j, Fields.lookup overrides v.name = some j → overrideValue j = .ok (all v)
  kept : ∀ v, v ≠ .workedDays → Fields.lookup overrides v.name = none → all v = plain v
  worked : Fields.lookup overrides Variable.workedDays.name = none →
    ∃ absent worked, all .absenceDays = some absent ∧ all .workedDays = some worked ∧
      Worked p absent worked

/-- The absences are taken away and nothing is given in the place of what would follow from them. -/
def AbsencesMissing (overrides : Fields) : Prop :=
  Fields.lookup overrides Variable.absenceDays.name = some .null ∧
    Fields.lookup overrides Variable.workedDays.name = none

theorem workedDays_missing (habsent : all .absenceDays = none) (h : AbsencesMissing overrides) :
    workedDays p overrides all = .error (.misuse .subtracting) := by
  simp only [workedDays, h.1, h.2, habsent]

theorem workedDays_given {i : Json}
    (hw : Fields.lookup overrides Variable.workedDays.name = some i) :
    workedDays p overrides all = .ok (all .workedDays) := by
  unfold workedDays
  rw [hw]
  split
  · next h => cases h
  · rfl

theorem workedDays_kept (hw : Fields.lookup overrides Variable.workedDays.name = none)
    (ha : Fields.lookup overrides Variable.absenceDays.name = none) :
    workedDays p overrides all = .ok (all .workedDays) := by
  simp only [workedDays, hw, ha]

theorem workedDays_of_sub {j : Json} {difference : Decimal}
    (hw : Fields.lookup overrides Variable.workedDays.name = none)
    (ha : Fields.lookup overrides Variable.absenceDays.name = some j)
    (habsent : all .absenceDays = some a)
    (h : ordinary.sub (.ofInt p.days) a = .ok difference) :
    workedDays p overrides all = .ok (some (Decimal.max2 0 difference)) := by
  simp only [workedDays, hw, ha, habsent]
  exact bind_eq_ok.2 ⟨difference, signal_eq_ok.2 h, rfl⟩

/-- The days worked as they end up beside overrides that were put over derived values. -/
theorem exists_workedDays (hk : k + 2 ≤ 999999) (hworked : base .workedDays = some (.ofInt p.days))
    (habsent : base .absenceDays = some 0)
    (hgiven : ∀ v j, Fields.lookup overrides v.name = some j → overrideValue j = .ok (all v))
    (hkept : ∀ v, Fields.lookup overrides v.name = none → all v = base v)
    (hsize : ∀ j d, Fields.lookup overrides Variable.absenceDays.name = some j →
      j.toDecimal = .ok d → |d.value| ≤ 10 ^ k)
    (hpresent : ¬AbsencesMissing overrides) :
    ∃ worked, workedDays p overrides all = .ok worked ∧
      (∀ j, Fields.lookup overrides Variable.workedDays.name = some j → worked = all .workedDays) ∧
      (Fields.lookup overrides Variable.workedDays.name = none →
        ∃ absent d, all .absenceDays = some absent ∧ worked = some d ∧ Worked p absent d) := by
  cases hw : Fields.lookup overrides Variable.workedDays.name with
  | some i => exact ⟨_, workedDays_given hw, fun _ _ => rfl, nofun⟩
  | none =>
      cases ha : Fields.lookup overrides Variable.absenceDays.name with
      | none =>
          have hall : all .workedDays = some (.ofInt p.days) := (hkept _ hw).trans hworked
          exact ⟨_, workedDays_kept hw ha, nofun, fun _ =>
            ⟨0, _, (hkept _ ha).trans habsent, hall, worked_none p⟩⟩
      | some j =>
          have hj := hgiven _ j ha
          cases habs : all .absenceDays with
          | none =>
              rw [habs] at hj
              exact absurd ⟨overrideValue_eq_none hj ▸ ha, hw⟩ hpresent
          | some absent =>
              rw [habs] at hj
              have hnumber := overrideValue_eq_some hj
              obtain ⟨difference, hd⟩ := exists_worked (p := p) (hsize j absent ha hnumber) hk
              exact ⟨_, workedDays_of_sub hw ha habs hd, nofun, fun _ =>
                ⟨absent, _, rfl, rfl, worked_of_sub hd⟩⟩

/-- Unless absences are taken away without the days worked being given, all overrides are honoured. -/
theorem bindings_honour {k : Nat} {e : Employee} {p : Period} {fiscal : FiscalValues}
    {overrides : Fields} (he : e.Loaded) (hf : fiscal.Lawful) (hbase : e.baseSalary.value ≤ 10 ^ k)
    (hdaily : ∀ d ∈ e.dailySalary, d.value ≤ 10 ^ k)
    (haguinaldo : (fiscal.aguinaldoDays : ℚ) ≤ 10 ^ k) (hk : 2 * k + 4 < 999999)
    (hlegal : Legal overrides)
    (habsences : ∀ j d, Fields.lookup overrides Variable.absenceDays.name = some j →
      j.toDecimal = .ok d → |d.value| ≤ 10 ^ k) :
    ∃ plain, bindings e p fiscal [] = .ok plain ∧
      (AbsencesMissing overrides →
        bindings e p fiscal overrides = .error (.misuse .subtracting)) ∧
      (¬AbsencesMissing overrides →
        ∃ all, bindings e p fiscal overrides = .ok all ∧ Honours p overrides plain all) := by
  obtain ⟨hsalary, hdailySalary, -⟩ := Employee.nonneg_of_loaded he
  obtain ⟨plain, hplain, hworked, habsent⟩ := derived_upto (p := p) ⟨hsalary, hbase⟩
    (fun d hd => ⟨hdailySalary d hd, hdaily d hd⟩) (hf.aguinaldo_upto haguinaldo) hf.premium_upto hk
  obtain ⟨all, hall, hgiven, hkept⟩ :=
    exists_overlay hlegal.distinct (fun f hf => exists_overrideValue (hlegal.numbers f hf)) plain
  refine ⟨plain, bindings_nil hplain, fun hmissing => ?_, fun hpresent => ?_⟩
  · have hnull := hgiven _ _ hmissing.1
    rw [bindings_of_overlay hlegal.known hplain hall,
      workedDays_missing (Except.ok.inj hnull).symm hmissing]
    rfl
  · obtain ⟨worked, hrun, hgivenDays, hdays⟩ := exists_workedDays (by omega) hworked habsent hgiven
      hkept habsences hpresent
    refine ⟨fun v => if v = .workedDays then worked else all v, ?_, fun v j hv => ?_,
      fun v hne hv => (if_neg hne).trans (hkept v hv), hdays⟩
    · rw [bindings_of_overlay hlegal.known hplain hall, hrun]
      rfl
    · by_cases h : v = .workedDays
      · subst h
        exact (hgiven _ j hv).trans (congrArg Except.ok (hgivenDays j hv).symm)
      · exact (hgiven v j hv).trans (congrArg Except.ok (if_neg h).symm)

/-! An employee with overrides for half a month -/

def teller : Employee where
  id := "E001"
  number := none
  rfc := none
  baseSalary := 15000
  dailySalary := none
  sbc := none
  hireDate := { year := 2019, month := 11, day := 4 }
  riskClass := none

def september : Period where
  id := "2025-09-B1"
  kind := .biweekly
  year := 2025
  start := { year := 2025, month := 9, day := 1 }
  stop := { year := 2025, month := 9, day := 15 }
  payment := none

def twoAbsences : Fields := [("absenceDays", .int 2), ("overtimeHours", .null), ("custom1", .text "250")]

theorem legal_twoAbsences : Legal twoAbsences where
  distinct := by decide
  known := by
    refine List.forall_mem_cons.2 ⟨⟨.absenceDays, rfl⟩, ?_⟩
    refine List.forall_mem_cons.2 ⟨⟨.overtimeHours, rfl⟩, ?_⟩
    exact List.forall_mem_singleton.2 ⟨.custom1, rfl⟩
  numbers := by
    refine List.forall_mem_cons.2 ⟨.inr ⟨2, ok_of_toOption (by decide +kernel)⟩, ?_⟩
    refine List.forall_mem_cons.2 ⟨.inl rfl, ?_⟩
    exact List.forall_mem_singleton.2 (.inr ⟨250, ok_of_toOption (by decide +kernel)⟩)

theorem legal_null : Legal [("absenceDays", .null)] where
  distinct := by decide
  known := List.forall_mem_singleton.2 ⟨.absenceDays, rfl⟩
  numbers := List.forall_mem_singleton.2 (.inl rfl)

theorem teller_loaded : teller.Loaded := by
  have hload : (Employee.load teller.toJson).toOption = some teller := by decide +kernel
  exact ⟨_, ok_of_toOption hload⟩

theorem lawful_values2025 : Published.values2025.Lawful := by
  have hload : (FiscalValues.load Published.values2025.toJson).toOption = some Published.values2025 := by
    decide +kernel
  exact FiscalValues.lawful_of_load (ok_of_toOption hload)

/-- Thirteen days are worked beside two absences. Absences that are taken away stop the derivation. -/
theorem teller_honours :
    (∃ plain all, bindings teller september Published.values2025 [] = .ok plain ∧
      bindings teller september Published.values2025 twoAbsences = .ok all ∧
      Honours september twoAbsences plain all ∧ all .workedDays = some 13) ∧
    bindings teller september Published.values2025 [("absenceDays", .null)] =
      .error (.misuse .subtracting) := by
  have hbase : teller.baseSalary.value ≤ 10 ^ 5 := by decide +kernel
  have hdaily : ∀ d ∈ teller.dailySalary, d.value ≤ 10 ^ 5 := fun d hd => nomatch hd
  have hdays : (Published.values2025.aguinaldoDays : ℚ) ≤ 10 ^ 5 := by decide +kernel
  have hnull : ∀ j d, Fields.lookup [("absenceDays", Json.null)] Variable.absenceDays.name = some j →
      j.toDecimal = .ok d → |d.value| ≤ 10 ^ 5 := by
    intro j d hj hd
    cases hj
    cases hd
  have htwo : ∀ j d, Fields.lookup twoAbsences Variable.absenceDays.name = some j →
      j.toDecimal = .ok d → |d.value| ≤ 10 ^ 5 := by
    intro j d hj hd
    cases hj
    have hvalue : (Json.int 2).toDecimal = .ok 2 := ok_of_toOption (by decide +kernel)
    cases hvalue.symm.trans hd
    decide +kernel
  obtain ⟨plain, hplain, -, hhonours⟩ := bindings_honour (p := september) teller_loaded lawful_values2025
    hbase hdaily hdays (by decide) legal_twoAbsences htwo
  obtain ⟨-, -, hstops, -⟩ := bindings_honour (p := september) teller_loaded lawful_values2025 hbase
    hdaily hdays (by decide) legal_null hnull
  obtain ⟨all, hall, hgiven⟩ := hhonours fun h => nomatch h.1
  have hworked : ((bindings teller september Published.values2025 twoAbsences).toOption.bind
      fun all => all .workedDays) = some 13 := by
    decide +kernel
  rw [hall] at hworked
  exact ⟨⟨plain, all, hplain, hall, hgiven, hworked⟩, hstops ⟨rfl, rfl⟩⟩

end Payroll.Formula
