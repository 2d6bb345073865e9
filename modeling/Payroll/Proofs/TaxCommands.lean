import Mathlib
import Payroll.Command.Taxes
import Payroll.Proofs.BoundedTaxes
import Payroll.Proofs.ConfigurationStates
import Payroll.Proofs.SettlementOutcomes
import Payroll.Proofs.TypedAmounts
import Payroll.Proofs.TypedArguments
import Payroll.Proofs.UnexplainedFaults

/-!
How the commands for taxes, contributions and settlements end. What they calculate is bounded, so that only
their amounts, the rounding of a company and the employee of a settlement can be refused.
-/

namespace Payroll.Command.Taxes

open Decimal (ordinary)
open Result

variable {i : Installation} {F : Fault → Prop} {k : Nat} {t : FiscalTables} {x : Real64}

theorem looks_tables (h : i.config.tableFiles = []) {year : Int}
    (hyear : digitCount year.natAbs ≤ Record.maxIntegerText) :
    Looks i F (tables year) fun t => t.Complete ∧ t.ReadsBack := by
  refine looks_config.bind fun c hc => ?_
  subst hc
  obtain ⟨t, ht, hcomplete⟩ | ⟨file, hnone⟩ := Configuration.loadTables_settles h hyear
  · rw [ht]
    exact .pure hcomplete
  · rw [hnone]
    exact looks_fail _

theorem looks_percent {rate : Decimal} (h : rate.Upto k) (hk : k + 2 ≤ 999999) :
    Looks i F (percent rate) fun _ => True := by
  have hhundred : (100 : Decimal).Upto 2 := .literal (by decide)
  obtain ⟨d, hd, -⟩ := Decimal.mul_upto hk h hhundred le_rfl
  have hproduct : EndsIn (fun _ => True) F (do ordinary.mul rate 100 : Except Fault Decimal) :=
    hd ▸ trivial
  exact (looks_expecting hproduct).bind fun _ _ => .pure trivial

theorem policyOf_fails (h : i.config.Written) (company : Option String) :
    FailsIn (fun f => ∃ id, company = some id ∧ i.config.Misreads id f) (policyOf i.config company) := by
  unfold policyOf
  split
  · exact .ok _
  · exact .ok _
  · next id _ => exact (Configuration.roundingPolicy_fails h id).mono fun f hf => ⟨id, rfl, hf⟩

theorem digits_of_yearOr {o : Occasion} {year : Option Int} {n : Nat} {g : Given}
    (h : yearOption.read n g = some year) :
    digitCount (yearOr o year).natAbs ≤ Record.maxIntegerText := by
  cases year with
  | some y =>
      obtain ⟨w, hw⟩ := exists_of_option h
      exact digits_of_asInteger hw
  | none =>
      refine (digitCount_le (k := 4) ?_ (by decide)).trans (by decide)
      have hyear := o.now.valid.1
      exact (by omega : (o.now.date.year : Int).natAbs < 10000)

/-! ### The tax -/

theorem isrLine_held (o : Occasion) {words : List String} {l : IsrLine}
    (h : isrArguments.parse words = .accepted l) :
    l.base.Held ∧ digitCount (yearOr o l.year).natAbs ≤ Record.maxIntegerText := by
  obtain ⟨g, hread⟩ := Arguments.exists_of_parse h
  unfold isrArguments at hread
  iterate 5 rw [Arguments.exists_read_seq] at hread
  rw [Arguments.exists_read_map] at hread
  obtain ⟨base, hbase, _, -, year, hyear, _, -, _, -, _, -, rfl⟩ := hread
  obtain ⟨w, hw⟩ := exists_of_word hbase
  exact ⟨held_of_asReal hw, digits_of_yearOr hyear⟩

/-- A base of the tax is refused only if it is not finite. -/
theorem withSubsidy_ends (policy : RoundingPolicy) (ht : t.Complete ∧ t.ReadsBack) (hx : x.Held)
    (hsign : x.isNegative = false) (kind : PeriodKind) {table : BracketTable IsrTerms}
    (htable : t.isrTable kind.name = .ok table)
    (hfees : ∀ row ∈ table.rows, row.terms.fixedFee.value ≤ 10 ^ Published.size)
    {subsidies : Option (BracketTable SubsidyTerms)}
    (hsubsidies : subsidies = none ∨ subsidies = t.subsidyTable kind.name) :
    EndsIn (fun r => r.isr.rate.Upto 0) (fun f => ¬x.IsFinite ∧ ∃ given, f = .notFinite given)
      (Isr.withSubsidy policy table subsidies (realAmount x)) := by
  obtain ⟨d, hd, hsized, hnonneg⟩ | ⟨hinfinite, given, hgiven⟩ := realAmount_settles hx
  · have hamounts : ∀ s ∈ subsidies, ∀ row ∈ s.rows, row.terms.amount.FittedUpto Real64.size := by
      rintro s rfl row hrow
      obtain hnone | hs := hsubsidies
      · cases hnone
      · exact (ht.1.amount_fitted ht.2 kind hs.symm row hrow).mono (by decide)
    have hfees : ∀ row ∈ table.rows, row.terms.fixedFee.value ≤ 10 ^ Real64.size := fun row hrow =>
      (hfees row hrow).trans (pow_le_pow_right₀ (by norm_num) (by decide))
    exact (Isr.withSubsidy_upto (fun row hrow => ⟨_, ht.2.of_isrTable htable row hrow⟩) hfees hamounts
      hd (hsized.upto (hnonneg hsign)) (by decide)).ends
  · rw [Isr.withSubsidy_of_error hgiven]
    exact ⟨hinfinite, given, rfl⟩

theorem isr_ends (h : i.config.Written) (o : Occasion) (words : List String) :
    Ends (· = i) (Unexplained i.config words "tax" "isr") i (isr.run o words) := by
  refine ends_taking rfl fun l hl => Looks.ends (Q := fun _ => True) ?_ rfl
  obtain ⟨hbase, hyear⟩ := isrLine_held o hl
  refine Looks.refusing (looks_refuse _) fun hsign => ?_
  rw [Bool.not_eq_true] at hsign
  refine (looks_tables h.tableFiles hyear).bind fun t ht => ?_
  obtain ⟨table, htable, hfees⟩ := ht.1.exists_tariff l.period
  refine (looks_expecting (Q := (table = ·)) (htable ▸ rfl)).bind fun _ hfound => ?_
  subst hfound
  refine looks_config.bind fun c hc => ?_
  subst hc
  refine (looks_expecting (((policyOf_fails h l.company).mono
    fun f ⟨_, hid, hf⟩ => .rounding (.isr hl hid) (by simp) hf)).endsIn).bind fun p _ => ?_
  have hsubsidies : (if l.noSubsidy = true then none else t.subsidyTable l.period.name) = none ∨
      (if l.noSubsidy = true then none else t.subsidyTable l.period.name) =
        t.subsidyTable l.period.name := by
    split
    · exact .inl rfl
    · exact .inr rfl
  have hr := withSubsidy_ends p ht hbase hsign l.period htable hfees hsubsidies
  refine (looks_expecting (hr.mono (fun _ => id) ?_)).bind fun r hr => ?_
  · rintro f ⟨hinfinite, given, rfl⟩
    exact .isrBase hl hinfinite
  refine .ite (fun _ => looks_say _) fun _ => ?_
  exact (looks_percent hr (by decide)).bind fun rate _ => looks_sayAll _

/-! ### Contributions -/

/-- Sums of bounded amounts of a bounded number of quotas. -/
theorem totals_of_bounded {n : Nat} {r : ImssResult} (hquotas : ∀ q ∈ r.quotas, Imss.Bounded k q)
    (hlength : r.quotas.length ≤ n) (hk : k + n ≤ 999999) :
    Succeeds (fun _ => True) (ImssTotals.of r) := by
  have hsum (f : ImssQuota → Decimal) (qs : List ImssQuota) (hf : ∀ q, Imss.Bounded k q → (f q).Upto k)
      (hsub : qs.Sublist r.quotas) :
      Succeeds (fun _ => True) (liftM (ordinary.sum (qs.map f)) : Except Fault _) := by
    have hlength := hsub.length_le.trans hlength
    refine (Decimal.sum_upto (k := k) ?_ (by rw [List.length_map]; omega)).mono fun _ _ => trivial
    intro d hd
    obtain ⟨q, hq, rfl⟩ := List.mem_map.1 hd
    exact hf q (hquotas q (hsub.subset hq))
  refine (hsum (·.employeeAmount) _ (fun _ h => h.2) (.refl _)).bind fun employee _ _ => ?_
  refine (hsum (·.employerAmount) _ (fun _ h => h.1) List.filter_sublist).bind fun employer _ _ => ?_
  exact (hsum (·.employerAmount) _ (fun _ h => h.1) List.filter_sublist).bind fun housing _ _ =>
    .ok trivial

theorem imssLine_held (o : Occasion) {words : List String} {l : ImssLine}
    (h : imssArguments.parse words = .accepted l) :
    l.sbc.Held ∧ digitCount (yearOr o l.year).natAbs ≤ Record.maxIntegerText ∧
      0 ≤ l.days ∧ digitCount l.days.natAbs ≤ Record.maxIntegerText := by
  obtain ⟨g, hread⟩ := Arguments.exists_of_parse h
  unfold imssArguments at hread
  iterate 5 rw [Arguments.exists_read_seq] at hread
  rw [Arguments.exists_read_map] at hread
  obtain ⟨sbc, hsbc, days, hdays, year, hyear, _, -, _, -, _, -, rfl⟩ := hread
  obtain ⟨w, hw⟩ := exists_of_word hsbc
  refine ⟨held_of_asReal hw, digits_of_yearOr hyear, ?_⟩
  rcases eq_or_exists_of_defaultedOption hdays with rfl | ⟨w, hw⟩
  · have hfifteen : digitCount (15 : Int).natAbs ≤ Record.maxIntegerText :=
      (digitCount_le (k := 2) (by decide) (by decide)).trans (by decide)
    exact ⟨Int.natCast_nonneg 15, hfifteen⟩
  · obtain ⟨hw, hnonneg⟩ := suchThat_eq_some.1 hw
    exact ⟨of_decide_eq_true hnonneg, digits_of_asInteger hw⟩

/-- A base of the contributions is refused only if it is not finite, and then a class without a rate. -/
theorem contributions_ends (policy : RoundingPolicy) (ht : t.Complete ∧ t.ReadsBack) (hx : x.Held)
    (hsign : x.isNegative = false) {days : Int} (hdays : 0 ≤ days)
    (hdigits : digitCount days.natAbs ≤ Record.maxIntegerText) (risk : Option RiskClass) :
    EndsIn
      (fun r => (∀ q ∈ r.quotas, Imss.Bounded (Real64.size + Record.maxIntegerText) q) ∧
        r.quotas.length ≤ 101)
      (fun f => f.kind = .imssRate ∨ ¬x.IsFinite ∧ ∃ given, f = .notFinite given)
      (Imss.calculate policy t.published.imss t.values t.riskRates (realAmount x) days
        (.optional (.text ·.name) risk)) := by
  obtain ⟨d, hd, hsized, hnonneg⟩ | ⟨hinfinite, given, hgiven⟩ := realAmount_settles hx
  · have hcount : days.toNat ≤ 10 ^ Record.maxIntegerText := by
      have hlt := lt_pow10_digitCount days.natAbs
      have hle := Nat.pow_le_pow_right (by decide : 0 < 10) hdigits
      have habs : days.toNat = days.natAbs := by omega
      rw [habs]
      exact (hlt.trans_le hle).le
    rw [← Int.toNat_of_nonneg hdays]
    exact (Imss.calculate_ends ht.1 ht.2 hd (hsized.upto (hnonneg hsign)) (by decide) hcount
      (by decide) risk).mono (fun _ => id) fun _ => .inl
  · rw [Imss.calculate_of_error hgiven]
    exact .inr ⟨hinfinite, given, rfl⟩

theorem imss_ends (h : i.config.Written) (o : Occasion) (words : List String) :
    Ends (· = i) (Unexplained i.config words "tax" "imss") i (imss.run o words) := by
  refine ends_taking rfl fun l hl => Looks.ends (Q := fun _ => True) ?_ rfl
  obtain ⟨hsbc, hyear, hdays, hdigits⟩ := imssLine_held o hl
  refine Looks.refusing (looks_refuse _) fun hsign => ?_
  rw [Bool.not_eq_true] at hsign
  refine (looks_tables h.tableFiles hyear).bind fun t ht => ?_
  refine looks_config.bind fun c hc => ?_
  subst hc
  refine (looks_expecting (((policyOf_fails h l.company).mono
    fun f ⟨_, hid, hf⟩ => .rounding (.imss hl hid) (by simp) hf)).endsIn).bind fun p _ => ?_
  have hr : EndsIn
      (fun r => (∀ q ∈ r.quotas, Imss.Bounded (Real64.size + Record.maxIntegerText) q) ∧
        r.quotas.length ≤ 101)
      (fun f => among [.imssRate] f = true ∨ Unexplained i.config words "tax" "imss" f)
      (Imss.calculate p t.published.imss t.values t.riskRates (realAmount l.sbc) l.days
        (.optional (.text ·.name) l.risk)) := by
    refine (contributions_ends p ht hsbc hsign hdays hdigits l.risk).mono (fun _ => id) fun f hf => ?_
    obtain hrate | ⟨hinfinite, given, rfl⟩ := hf
    · exact .inl (by rw [among, hrate]; rfl)
    · exact .inr (.imssBase hl hinfinite)
  refine (looks_explainingAs hr).bind fun r hr => ?_
  refine (looks_expecting (totals_of_bounded hr.1 hr.2 (by decide)).ends).bind fun totals _ => ?_
  exact .ite (fun _ => looks_say _) fun _ => looks_sayAll _

/-! ### Settlements -/

section Settlements

open Record

variable {o : Option Real64} {l : SettlementLine}

/-- What is typed for an amount that is not negative. -/
def Typed (x : Real64) : Prop := x.Held ∧ x.isNegative = false

theorem typed_of_asNonnegative {w : String} (h : asNonnegative w = some x) : Typed x := by
  obtain ⟨h, hsign⟩ := suchThat_eq_some.1 h
  exact ⟨held_of_asReal h, by simpa [isNonnegative] using hsign⟩

theorem stated_realAmount (h : Typed x) : (realAmount x).Stated Real64.size := by
  obtain ⟨d, hd, hsized, hnonneg⟩ | ⟨-, given, hgiven⟩ := realAmount_settles h.1
  · rw [Amount.Stated, hd]
    exact hsized.upto (hnonneg h.2)
  · rw [Amount.Stated, hgiven]
    exact rfl

/-- A record reads a real as a moderate number if it is finite. -/
theorem read_realJson_settles (h : Typed x) :
    (∃ d, atLeast 0 decimal (realJson x) = .ok d ∧ d.Sized Real64.size ∧ 0 ≤ d.value) ∨
      ¬x.IsFinite ∧ ∀ d, atLeast 0 decimal (realJson x) ≠ .ok d := by
  have hdecimal : decimal (realJson x) = ofNumeral (Decimal.read x.text.toList) := rfl
  obtain ⟨d, hd, hsized, hnonneg⟩ | ⟨hinfinite, n, hn, hnone⟩ := read_settles h.1
  · refine .inl ⟨d, bounded_eq_ok.2 ⟨by rw [hdecimal, hd]; rfl, ?_⟩, hsized, hnonneg h.2⟩
    rw [Decimal.le_iff, Decimal.value_zero']
    exact hnonneg h.2
  · refine .inr ⟨hinfinite, fun d hd => ?_⟩
    obtain ⟨hd, -⟩ := bounded_eq_ok.1 hd
    rw [hdecimal, hn] at hd
    cases n with
    | finite d => exact hnone d rfl
    | _ => cases hd

theorem optional_realJson_settles (h : ∀ x ∈ o, Typed x) :
    (∃ o', orNull (atLeast 0 decimal) (.optional realJson o) = .ok o' ∧
      ∀ d ∈ o', d.Upto Real64.size) ∨
    (∃ x ∈ o, ¬x.IsFinite) ∧ ∀ o', orNull (atLeast 0 decimal) (.optional realJson o) ≠ .ok o' := by
  cases o with
  | none => exact .inl ⟨none, rfl, nofun⟩
  | some x =>
      have hread : orNull (atLeast 0 decimal) (.optional realJson (some x)) =
          (atLeast 0 decimal (realJson x)).map some := rfl
      obtain ⟨d, hd, hsized, hnonneg⟩ | ⟨hinfinite, hnone⟩ := read_realJson_settles (h x rfl)
      · refine .inl ⟨some d, by rw [hread, hd]; rfl, ?_⟩
        rintro _ ⟨⟩
        exact hsized.upto hnonneg
      · refine .inr ⟨⟨x, rfl, hinfinite⟩, fun o' ho' => ?_⟩
        obtain ⟨d, hd, -⟩ := map_eq_ok.1 (hread ▸ ho')
        exact hnone d hd

/-- The employee of a line is there if a record reads its amounts. -/
theorem employeeOf_eq_ok (hyear : l.hire.year ≤ 9999) {e : Employee} : employeeOf l = .ok e ↔
    ∃ base daily sbc, atLeast 0 decimal (realJson l.baseSalary) = .ok base ∧
      orNull (atLeast 0 decimal) (.optional realJson l.dailySalary) = .ok daily ∧
      orNull (atLeast 0 decimal) (.optional realJson l.sbc) = .ok sbc ∧
      Employee.mk l.employee none none base daily sbc l.hire none = e := by
  have hhire : date (.text l.hire.text) = .ok l.hire := by simp [date, Date.ofText?_text hyear]
  unfold employeeOf Employee.load Employee.read
  rw [load_eq_ok, record_eq_ok]
  generalize hfs : Json.object [("id", .text l.employee), ("base_salary", realJson l.baseSalary),
    ("daily_salary", .optional realJson l.dailySalary), ("sbc", .optional realJson l.sbc),
    ("hire_date", .text l.hire.text)] = j
  constructor
  · rintro ⟨fs, rfl, -, hrun, -⟩
    obtain rfl := Json.object.inj hfs
    rw [FieldReader.run_eq_ok] at hrun
    unfold Employee.fieldReader at hrun
    iterate 7 rw [FieldReader.exists_run_seq] at hrun
    rw [FieldReader.exists_run_map] at hrun
    obtain ⟨id, hid, number, hnumber, rfc, hrfc, base, hbase, daily, hdaily, sbc, hsbc, hired, hhired,
      risk, hrisk, rfl⟩ := hrun
    obtain rfl := required_value hid rfl rfl
    obtain rfl := required_value hhired rfl hhire
    obtain rfl := optional_absent hnumber rfl
    obtain rfl := optional_absent hrfc rfl
    obtain rfl := optional_absent hrisk rfl
    obtain ⟨_, hj, hbase⟩ := required_eq_ok.1 hbase
    obtain rfl := Option.some.inj (hj.symm.trans rfl)
    exact ⟨base, daily, sbc, hbase, optional_eq_ok.1 hdaily, optional_eq_ok.1 hsbc, rfl⟩
  · rintro ⟨base, daily, sbc, hbase, hdaily, hsbc, rfl⟩
    refine ⟨_, hfs.symm, ?_, ?_, rfl⟩
    · have hnames : Employee.fieldReader.names = ["id", "employee_number", "rfc", "base_salary",
          "daily_salary", "sbc", "hire_date", "risk_class"] := rfl
      simp [hnames]
    · rw [FieldReader.run_eq_ok]
      unfold Employee.fieldReader
      iterate 7 rw [FieldReader.exists_run_seq]
      rw [FieldReader.exists_run_map]
      exact ⟨_, required_eq_ok.2 ⟨_, rfl, rfl⟩, _, optional_eq_ok.2 rfl, _, optional_eq_ok.2 rfl,
        _, required_eq_ok.2 ⟨_, rfl, hbase⟩, _, optional_eq_ok.2 hdaily, _, optional_eq_ok.2 hsbc,
        _, required_eq_ok.2 ⟨_, rfl, hhire⟩, _, optional_eq_ok.2 rfl, rfl⟩

/-- An employee whose amounts are moderate. -/
def Moderate (e : Employee) : Prop :=
  (e.baseSalary.Sized Real64.size ∧ 0 ≤ e.baseSalary.value) ∧
    (∀ d ∈ e.dailySalary, d.Upto Real64.size) ∧ ∀ d ∈ e.sbc, d.Upto Real64.size

/-- An employee of a line has moderate amounts, or one of them is not finite. -/
theorem employeeOf_settles (hbase : Typed l.baseSalary) (hdaily : ∀ x ∈ l.dailySalary, Typed x)
    (hsbc : ∀ x ∈ l.sbc, Typed x) (hyear : l.hire.year ≤ 9999) :
    (∃ e, employeeOf l = .ok e ∧ Moderate e) ∨
    (∃ x ∈ l.baseSalary :: l.dailySalary.toList ++ l.sbc.toList, ¬x.IsFinite) ∧
      ∃ issues, employeeOf l = .error (.invalidRecord "EmployeeSnapshot" issues) := by
  have hrefused (hnone : ∀ e, employeeOf l ≠ .ok e) :
      ∃ issues, employeeOf l = .error (.invalidRecord "EmployeeSnapshot" issues) := by
    unfold employeeOf Employee.load at hnone ⊢
    exact (Configuration.load_settles _).resolve_left fun ⟨e, he⟩ => hnone e he
  obtain ⟨base, hbase, hsized⟩ | ⟨hinfinite, hnone⟩ := read_realJson_settles hbase
  · obtain ⟨daily, hdaily, hdailyUpto⟩ | ⟨⟨x, hx, hinfinite⟩, hnone⟩ := optional_realJson_settles hdaily
    · obtain ⟨sbc, hsbc, hsbcUpto⟩ | ⟨⟨x, hx, hinfinite⟩, hnone⟩ := optional_realJson_settles hsbc
      · have he := (employeeOf_eq_ok hyear).2 ⟨base, daily, sbc, hbase, hdaily, hsbc, rfl⟩
        exact .inl ⟨_, he, hsized, hdailyUpto, hsbcUpto⟩
      · refine .inr ⟨⟨x, by simp [Option.mem_def.1 hx], hinfinite⟩, hrefused fun e he => ?_⟩
        obtain ⟨_, _, sbc, -, -, hsbc, -⟩ := (employeeOf_eq_ok hyear).1 he
        exact hnone sbc hsbc
    · refine .inr ⟨⟨x, by simp [Option.mem_def.1 hx], hinfinite⟩, hrefused fun e he => ?_⟩
      obtain ⟨_, daily, _, -, hdaily, -⟩ := (employeeOf_eq_ok hyear).1 he
      exact hnone daily hdaily
  · refine .inr ⟨⟨_, List.mem_cons_self, hinfinite⟩, hrefused fun e he => ?_⟩
    obtain ⟨base, _, _, hbase, -⟩ := (employeeOf_eq_ok hyear).1 he
    exact hnone base hbase

theorem settlementLine_typed {words : List String}
    (h : settlementArguments.parse words = .accepted l) :
    (Typed l.baseSalary ∧ (∀ x ∈ l.dailySalary, Typed x) ∧ ∀ x ∈ l.sbc, Typed x) ∧
      ((∀ x ∈ l.pendingDays, Typed x) ∧ (∀ x ∈ l.vacationDays, Typed x) ∧ Typed l.deductions) ∧
      l.hire.year ≤ 9999 ∧ l.termination.year ≤ 9999 := by
  obtain ⟨g, hread⟩ := Arguments.exists_of_parse h
  unfold settlementArguments at hread
  iterate 11 rw [Arguments.exists_read_seq] at hread
  rw [Arguments.exists_read_map] at hread
  obtain ⟨base, hbase, _, -, hire, hhire, termination, htermination, daily, hdaily, sbc, hsbc,
    pending, hpending, vacation, hvacation, deductions, hdeductions, _, -, _, -, _, -, rfl⟩ := hread
  have hoption {names : List String} {o : Option Real64} {n : Nat}
      (ho : (option names asNonnegative).read n g = some o) : ∀ x ∈ o, Typed x := by
    rintro x rfl
    obtain ⟨w, hw⟩ := exists_of_option ho
    exact typed_of_asNonnegative hw
  obtain ⟨_, hbase⟩ := exists_of_word hbase
  obtain ⟨_, hhire⟩ := exists_of_requiredOption hhire
  obtain ⟨_, htermination⟩ := exists_of_requiredOption htermination
  refine ⟨⟨typed_of_asNonnegative hbase, hoption hdaily, hoption hsbc⟩,
    ⟨hoption hpending, hoption hvacation, ?_⟩, year_le_of_asDate hhire,
    year_le_of_asDate htermination⟩
  rcases eq_or_exists_of_defaultedOption hdeductions with rfl | ⟨w, hw⟩
  · exact ⟨Real64.held_zero, rfl⟩
  · exact typed_of_asNonnegative hw

theorem settleable_of_moderate (ht : t.Complete ∧ t.ReadsBack) {table : BracketTable IsrTerms}
    (htable : t.isrTable PeriodKind.monthly.name = .ok table)
    (hfees : ∀ row ∈ table.rows, row.terms.fixedFee.value ≤ 10 ^ Published.size) {e : Employee}
    (hload : employeeOf l = .ok e) (he : Moderate e) (htermination : l.termination.year ≤ 9999)
    (hlater : ¬l.termination.orEqual e.hireDate = true) :
    (requestOf l e).bare.Settleable Real64.size t table 0 := by
  obtain ⟨⟨hsized, hnonneg⟩, hdaily, hsbc⟩ := he
  have hsmall {x : ℚ} (hx : x ≤ 10 ^ Published.size) : x ≤ 10 ^ Real64.size :=
    hx.trans (pow_le_pow_right₀ (by norm_num) (by decide))
  exact {
    found := htable
    rows := fun row hrow => ⟨_, ht.2.of_isrTable htable row hrow⟩
    values := ⟨_, ht.2.published.values⟩
    employee := ⟨_, hload⟩
    later := hlater
    year := htermination
    pendingSalaryDays := nofun
    pendingVacationDays := nofun
    otherDeductions := ⟨rfl, .zero _⟩
    amounts := by
      obtain ⟨huma, hsmg, haguinaldo, -⟩ := ht.1.values
      intro d hd
      simp only [SettlementRequest.amounts, List.mem_append, List.mem_cons, List.not_mem_nil,
        or_false, Option.mem_toList, List.mem_map] at hd
      obtain (((rfl | rfl | rfl | rfl) | hd) | hd) | ⟨row, hrow, rfl⟩ := hd
      · exact (hsized.upto hnonneg).le
      · exact hsmall huma
      · exact hsmall hsmg
      · exact Decimal.value_ofInt _ ▸ hsmall haguinaldo
      · exact (hdaily d hd).le
      · exact (hsbc d hd).le
      · exact hsmall (hfees row hrow)
    salary := hsized.least.imp_right fun hleast => abs_of_nonneg hnonneg ▸ hleast }

/-- A settlement of moderate amounts has all its totals, or a value of its line is refused. -/
theorem requestOf_settles (policy : RoundingPolicy) (ht : t.Complete ∧ t.ReadsBack) {e : Employee}
    (hload : employeeOf l = .ok e) (he : Moderate e) (htermination : l.termination.year ≤ 9999)
    (hpending : ∀ x ∈ l.pendingDays, Typed x) (hvacation : ∀ x ∈ l.vacationDays, Typed x)
    (hdeductions : Typed l.deductions) :
    EndsIn (Settlement.Totalled (2 * Real64.size + 1)) (fun f => f.isValueFault = true)
      (Settlement.calculate policy t (requestOf l e)) := by
  obtain ⟨table, htable, hfees⟩ := ht.1.exists_tariff .monthly
  refine Settlement.calculate_settles table (by decide)
    (settleable_of_moderate ht htable hfees hload he htermination) ?_
  refine SettlementRequest.forall_given.2 ⟨?_, ?_, stated_realAmount hdeductions⟩
  · intro a ha
    obtain ⟨x, hx, rfl⟩ := Option.map_eq_some_iff.1 ha
    exact stated_realAmount (hpending x hx)
  · intro a ha
    obtain ⟨x, hx, rfl⟩ := Option.map_eq_some_iff.1 ha
    exact stated_realAmount (hvacation x hx)

theorem settlement_ends (h : i.config.Written) (occasion : Occasion) (words : List String) :
    Ends (· = i) (Unexplained i.config words "tax" "liquidation") i
      (settlement.run occasion words) := by
  refine ends_taking rfl fun l hl => Looks.ends (Q := fun _ => True) ?_ rfl
  obtain ⟨⟨hbase, hdaily, hsbc⟩, ⟨hpending, hvacation, hdeductions⟩, hhire, htermination⟩ :=
    settlementLine_typed hl
  have hemployee : EndsIn (fun e => employeeOf l = .ok e ∧ Moderate e)
      (Unexplained i.config words "tax" "liquidation") (employeeOf l) := by
    obtain ⟨e, he, hmoderate⟩ | ⟨hinfinite, issues, hissues⟩ :=
      employeeOf_settles hbase hdaily hsbc hhire
    · rw [he]
      exact ⟨rfl, hmoderate⟩
    · rw [hissues]
      exact .employee hl hinfinite
  refine (looks_expecting hemployee).bind fun e ⟨hload, hmoderate⟩ => ?_
  have hyear : digitCount (l.termination.year : Int).natAbs ≤ Record.maxIntegerText :=
    (digitCount_le (k := 4) (Nat.lt_succ_of_le htermination) (by decide)).trans (by decide)
  refine (looks_tables h.tableFiles hyear).bind fun t ht => ?_
  refine looks_config.bind fun c hc => ?_
  subst hc
  have hpolicy : FailsIn (fun f => f.isValueFault = true ∨
      Unexplained i.config words "tax" "liquidation" f) (policyOf i.config l.company) := by
    refine (policyOf_fails h l.company).mono fun f ⟨id, hid, hf⟩ => ?_
    cases hf with
    | method => exact .inl rfl
    | places hoverwritten =>
        exact .inr (.roundingPlaces (.settlement hl hid) (by simp) (.places hoverwritten))
  refine (looks_explainingAs hpolicy.endsIn).bind fun p _ => ?_
  have hsettles := requestOf_settles p ht hload hmoderate htermination hpending hvacation
    hdeductions
  refine (looks_explainingAs (hsettles.mono (fun _ => id) fun _ => .inl)).bind fun s hs => ?_
  refine .ite (fun _ => ?_) fun _ => ?_
  · obtain ⟨j, hj⟩ := hs.exists_toJson
    exact (looks_expecting (Q := fun _ => True) (hj ▸ trivial)).bind fun _ _ => looks_say _
  · refine (looks_percent hs.rate (by decide)).bind fun rate _ => ?_
    obtain ⟨gross, hgross⟩ := hs.gross
    obtain ⟨net, hnet⟩ := hs.net
    refine (looks_expecting (Q := fun _ => True) (hgross ▸ trivial)).bind fun _ _ => ?_
    exact (looks_expecting (Q := fun _ => True) (hnet ▸ trivial)).bind fun _ _ => looks_sayAll _

end Settlements

end Payroll.Command.Taxes
