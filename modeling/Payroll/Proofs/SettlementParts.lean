import Mathlib
import Payroll.Proofs.AmountBounds
import Payroll.Proofs.CalendarOrder
import Payroll.Proofs.QuotaOrder
import Payroll.Tax.Settlement

/-!
The steps of a settlement: the daily salary and the contribution base, what was earned, the payments for
the separation, and the taxes. On bounded amounts each of them succeeds, with amounts of whole places under
a bound that follows.
-/

namespace Payroll

open Decimal (Context ordinary)
open Result Record

variable {policy : RoundingPolicy} {values : FiscalValues} {daily integrated limit a b d : Decimal}
  {i j k : Nat}

theorem Decimal.value_literal (n : Nat) : (⟨false, n, 0⟩ : Decimal).value = n := by
  rw [Decimal.value_mk, zpow_zero, mul_one]

theorem Decimal.Upto.literal {n : Nat} (h : n ≤ 10 ^ k) : (⟨false, n, 0⟩ : Decimal).Upto k := by
  have hn : (n : ℚ) ≤ 10 ^ k := by exact_mod_cast h
  exact ⟨Decimal.value_nonneg rfl, (value_literal n).trans_le hn⟩

theorem Decimal.div_literal_upto (hmax : k ≤ 999999) (ha : a.Upto k) {n : Nat} (hn : 1 ≤ n) :
    Succeeds (FittedUpto k) (liftM (ordinary.div a ⟨false, n, 0⟩) : Except Fault _) := by
  have hone : (1 : ℚ) ≤ n := by exact_mod_cast hn
  have hpos : (0 : ℚ) < 10 ^ k := by positivity
  refine div_upto hmax ha.nonneg ?_ ?_
  · rw [value_literal]
    linarith
  · rw [value_literal]
    exact ha.le.trans (le_mul_of_one_le_right hpos.le hone)

theorem roundHalfAway_upto {places : Nat} (hplaces : places ≤ maxPlaces) (hd : d.FittedUpto k)
    (hk : k < 999999) : Succeeds (Decimal.Upto k) (roundHalfAway places d) :=
  (roundTo_upto hplaces .round hd.toUpto (hd.not_beyond hplaces) hk).mono fun _ h => h.1.toUpto

namespace Employee

variable {e : Employee}

theorem nonneg_of_loaded (h : e.Loaded) : 0 ≤ e.baseSalary.value ∧
    (∀ d ∈ e.dailySalary, 0 ≤ d.value) ∧ ∀ d ∈ e.sbc, 0 ≤ d.value := by
  refine h.forall_salary (P := fun d => 0 ≤ d.value) fun i d hd => ?_
  rw [← Decimal.value_zero']
  exact Decimal.le_iff.1 (bounded_eq_ok.1 hd).2

theorem dailyPay_upto (hbase : e.baseSalary.Upto k) (hgiven : ∀ d ∈ e.dailySalary, d.Upto k)
    (hk : k < 999999) : Succeeds (Decimal.Upto k) e.dailyPay := by
  unfold dailyPay
  split
  · next d hd => exact .ok (hgiven d hd)
  · exact (Decimal.div_literal_upto hk.le hbase (by decide)).bind fun q _ hq =>
      roundHalfAway_upto (by decide) hq hk

end Employee

section Dates

variable {hire leave : Date}

theorem Date.yearsUntil_le (a b : Date) : a.yearsUntil b ≤ b.year - a.year := by
  unfold yearsUntil
  split <;> omega

theorem Service.exemptYears_le (hire leave : Date) :
    exemptYears hire leave ≤ hire.yearsUntil leave + 1 := by
  unfold exemptYears
  dsimp only
  split <;> omega

/-- The days worked in the year of the termination, with the last one. -/
theorem Settlement.daysWorked_range (h : hire.rank < leave.rank) :
    1 ≤ daysWorked hire leave ∧ daysWorked hire leave ≤ 366 := by
  have hyear : 1 ≤ leave.year := leave.valid.1
  have hfirst : (Date.firstOfYear leave.year hyear).ordinal = Date.daysBeforeYear leave.year + 1 := rfl
  have hlast := leave.ordinal_le_of_year
  have hpos : Date.daysBeforeYear leave.year < leave.ordinal := by
    have := leave.valid
    unfold Date.ordinal
    omega
  rw [Date.daysBeforeYear_succ hyear] at hlast
  have hsplit : (if isLeap leave.year then 366 else 365) ≤ 366 := by split <;> omega
  unfold daysWorked yearStart Date.daysUntil
  dsimp only
  split
  · next hbefore =>
    have hhire := Date.ordinal_lt_of_rank h
    have hstart := Date.ordinal_lt_of_rank (Date.before_iff.1 hbefore)
    omega
  · omega

theorem Settlement.daysWorked_upto (h : hire.rank < leave.rank) :
    (Decimal.ofInt (daysWorked hire leave)).Upto 3 := by
  obtain ⟨hlow, hhigh⟩ := daysWorked_range h
  rw [← Int.toNat_of_nonneg (by omega : 0 ≤ daysWorked hire leave)]
  exact .ofNat (by omega)

end Dates

/-- What is known of the values of a year whose amounts are bounded. -/
structure FiscalValues.Upto (k : Nat) (v : FiscalValues) : Prop where
  uma : v.umaDaily.Upto k
  smg : v.smgDaily.Upto k
  aguinaldo : (Decimal.ofInt v.aguinaldoDays).Upto k
  premium : v.vacationPremium.Upto 0

namespace FiscalValues.Lawful

theorem aguinaldo_upto (h : values.Lawful) (hdays : (values.aguinaldoDays : ℚ) ≤ 10 ^ k) :
    (Decimal.ofInt values.aguinaldoDays).Upto k := by
  have hnonneg : (0 : ℚ) ≤ values.aguinaldoDays := by
    exact_mod_cast (by decide : (0 : Int) ≤ 15).trans h.aguinaldoDays
  constructor <;> rwa [Decimal.value_ofInt]

theorem premium_upto (h : values.Lawful) : values.vacationPremium.Upto 0 :=
  ⟨h.vacationPremium.1, by rw [pow_zero]; exact h.vacationPremium.2⟩

theorem upto (h : values.Lawful) (huma : values.umaDaily.value ≤ 10 ^ k)
    (hsmg : values.smgDaily.value ≤ 10 ^ k) (hdays : (values.aguinaldoDays : ℚ) ≤ 10 ^ k) :
    values.Upto k where
  uma := ⟨h.umaDaily.le, huma⟩
  smg := ⟨h.smgDaily.le, hsmg⟩
  aguinaldo := h.aguinaldo_upto hdays
  premium := h.premium_upto

end FiscalValues.Lawful

theorem Service.integrationFactor_upto (haguinaldo : (Decimal.ofInt values.aguinaldoDays).Upto k)
    (hpremium : values.vacationPremium.Upto 0) {days : Nat} (hdays : days ≤ 32)
    (hk : k + 4 < 999999) : Succeeds (Decimal.Upto (k + 4)) (integrationFactor values days) := by
  have hdays : (Decimal.ofInt days).Upto (k + 2) := .ofNat
    (hdays.trans ((by decide : 32 ≤ 10 ^ 2).trans (Nat.pow_le_pow_right (by decide) (by omega))))
  refine (Decimal.div_literal_upto (k := k) (by omega) haguinaldo (by decide)).bind
    fun aguinaldo _ haguinaldo => ?_
  refine (Decimal.mul_upto (by omega) hdays hpremium le_rfl).bind fun premium _ hpremium => ?_
  refine (Decimal.div_literal_upto (by omega) hpremium.toUpto (by decide)).bind
    fun vacation _ hvacation => ?_
  refine (Decimal.add_upto (j := k + 2) (k := k + 3) (by omega) (.literal (Nat.one_le_pow _ _ (by decide)))
    (haguinaldo.toUpto.mono (by omega)) le_rfl).bind fun first _ hfirst => ?_
  refine (Decimal.add_upto (k := k + 4) (by omega) hfirst.toUpto (hvacation.toUpto.mono (by omega))
    le_rfl).bind fun factor _ hfactor => ?_
  exact roundHalfAway_upto (by decide) hfactor hk

theorem Employee.integratedPay_upto {e : Employee} (hgiven : ∀ d ∈ e.sbc, d.Upto k)
    (hdaily : daily.Upto k) (haguinaldo : (Decimal.ofInt values.aguinaldoDays).Upto k)
    (hpremium : values.vacationPremium.Upto 0) {days : Nat} (hdays : days ≤ 32)
    (hk : 2 * k + 4 < 999999) :
    Succeeds (Decimal.Upto (2 * k + 4)) (e.integratedPay daily values days) := by
  unfold integratedPay
  split
  · next d hd => exact .ok ((hgiven d hd).mono (by omega))
  · refine (Service.integrationFactor_upto haguinaldo hpremium hdays (by omega)).bind
      fun factor _ hfactor => ?_
    refine (Decimal.mul_upto (k := 2 * k + 4) (by omega) hdaily hfactor (by omega)).bind
      fun pay _ hpay => ?_
    exact roundHalfAway_upto (by decide) hpay hk

/-- The excess over the lower limit of a row is at most the base: a limit that a base does not reach is at
most a cent. -/
theorem BracketMatch.excess_upto {table : BracketTable IsrTerms}
    (hlower : 0 ≤ (table.rowFor b).lower.value) (hb : b.Upto k) (hmax : k ≤ 999999) :
    Succeeds (Decimal.Upto k) (BracketMatch.excess ⟨i, table.rowFor b, b⟩) := by
  obtain ⟨hlow, hhigh⟩ := Decimal.exponent_range hmax
  have hone : (1 : ℚ) ≤ 10 ^ k := one_le_pow₀ (by norm_num)
  have hcent : oneCent.value ≤ 1 := by
    rw [show oneCent = ⟨false, 1, -2⟩ from rfl, Decimal.value_mk]
    norm_num
  have hdifference : |b.value - (table.rowFor b).lower.value| ≤ 10 ^ (k : Int) := by
    rw [zpow_natCast, abs_le]
    rcases le_max_iff.1 (table.lower_rowFor_le b) with hle | hle <;>
      constructor <;> linarith [hb.nonneg, hb.le]
  obtain ⟨left, hleft, hsize, -⟩ := Context.yieldsWithin_sub Context.standard_ordinary (by decide) hlow
    hhigh hdifference
  rw [zpow_natCast] at hsize
  refine ⟨_, bind_of_eq_ok (signal_eq_ok.2 hleft) rfl, ?_⟩
  constructor <;> rw [Decimal.value_max2, Decimal.value_zero']
  · exact le_max_left _ _
  · exact max_le (by positivity) ((le_abs_self _).trans hsize)

/-- The tax on a bounded base, by rows with bounded fees. -/
theorem Isr.calculate_upto {table : BracketTable IsrTerms}
    (hrows : ∀ row ∈ table.rows, ∃ j, Bracket.load j = .ok row)
    (hfees : ∀ row ∈ table.rows, row.terms.fixedFee.value ≤ 10 ^ k) (hb : b.Upto k)
    (hk : k + 1 < 999999) :
    Succeeds (fun r => policy.Paid k r.marginal ∧ policy.Paid (k + 1) r.isr)
      (Isr.calculate policy table b) := by
  have hmem := List.mem_of_getElem? (table.getElem?_position b)
  obtain ⟨j, hj⟩ := hrows _ hmem
  obtain ⟨hfee, hrate, hrate'⟩ := terms_range_of_load hj
  have hrate : (table.rowFor b).terms.rate.Upto 0 := ⟨hrate, by rwa [pow_zero]⟩
  have hfee : (table.rowFor b).terms.fixedFee.Upto k := ⟨hfee, hfees _ hmem⟩
  have hfound := (BracketTable.find_eq_ok_iff (t := table) (a := b) rfl).2 ⟨hb.nonneg, rfl⟩
  refine Succeeds.bind ⟨_, hfound, rfl⟩ fun m _ hm => ?_
  subst hm
  refine (BracketMatch.excess_upto (Bracket.lower_nonneg_of_load hj) hb (by omega)).bind
    fun excess _ hexcess => ?_
  refine (Decimal.mul_upto (k := k) (by omega) hexcess hrate le_rfl).bind fun marginal _ hmarginal => ?_
  refine (policy.apply_upto hmarginal (by omega)).bind fun rounded _ hrounded => ?_
  refine (Decimal.add_upto (k := k + 1) (by omega) hfee hmarginal.toUpto le_rfl).bind
    fun total _ htotal => ?_
  refine (policy.apply_upto htotal hk).bind fun isr _ hisr => ?_
  exact .ok ⟨hrounded.1, hisr.1⟩

/-- What follows a rounded product of bounded amounts. -/
theorem Result.Succeeds.product {α : Type} {P : α → Prop} {f : Decimal → Except Fault α} (ha : a.Upto i)
    (hb : b.Upto j) (hk : i + j ≤ k) (hmax : k < 999999)
    (hf : ∀ d, policy.Paid k d → Succeeds P (f d)) :
    Succeeds P ((liftM (ordinary.mul a b) : Except Fault _) >>= fun d => policy.apply d >>= f) :=
  (Decimal.mul_upto hmax.le ha hb hk).bind fun _ _ hproduct =>
    (policy.apply_upto hproduct hmax).bind fun d _ hd => hf d hd.1

namespace Settlement

variable {years entitlement : Nat} {kind : SettlementKind} {r : SettlementRequest} {deductions : Decimal}

/-- Days as they are given, or as they follow. -/
def daysOr (given : Option Amount) (days : Except Fault Decimal) : Except Fault Decimal :=
  match given with
  | none => days
  | some a => a.toDecimal

theorem daysOr_upto {given : Option Amount} {days : Except Fault Decimal}
    (hdays : Succeeds (Decimal.Upto k) days)
    (hgiven : ∀ a ∈ given, Succeeds (Decimal.Upto k) a.toDecimal) :
    Succeeds (Decimal.Upto k) (daysOr given days) := by
  cases given with
  | none => exact hdays
  | some a => exact hgiven a rfl

/-- The payments for days of salary, of aguinaldo and of vacation. -/
def payDays (policy : RoundingPolicy) (values : FiscalValues)
    (daily pendingDays aguinaldoDays vacationDays deductions : Decimal) : Except Fault Earned := do
  let pendingSalary ← policy.apply (← ordinary.mul daily pendingDays)
  let aguinaldo ← policy.apply (← ordinary.mul daily aguinaldoDays)
  let vacation ← policy.apply (← ordinary.mul daily vacationDays)
  let premium ← policy.apply (← ordinary.mul vacation values.vacationPremium)
  pure ⟨pendingDays, pendingSalary, aguinaldoDays, aguinaldo, vacationDays, vacation, premium,
    deductions⟩

theorem earned_eq (policy : RoundingPolicy) (values : FiscalValues) (daily : Decimal) (entitlement : Nat)
    (r : SettlementRequest) : earned policy values daily entitlement r = (do
      let fraction ← ordinary.div (.ofInt (daysWorked r.employee.hireDate r.termination)) daysInYear
      let pendingDays ← daysOr r.pendingSalaryDays (.ok (.ofInt r.termination.day))
      let aguinaldoDays ← roundHalfAway dayPlaces
        (← ordinary.mul fraction (.ofInt values.aguinaldoDays))
      let vacationDays ← daysOr r.pendingVacationDays do
        roundHalfAway dayPlaces (← ordinary.mul fraction (.ofInt entitlement))
      let deductions ← r.otherDeductions.toDecimal
      if pendingDays.lt 0 || vacationDays.lt 0 || deductions.lt 0 then .error .negativeSettlement
      else payDays policy values daily pendingDays aguinaldoDays vacationDays deductions) := by
  unfold earned
  cases r.pendingSalaryDays <;> cases r.pendingVacationDays <;>
    simp only [daysOr, bind_assoc, pure_bind] <;> rfl

/-- What was earned, with payments up to a power of ten. -/
structure Earned.Paid (policy : RoundingPolicy) (k : Nat) (deductions : Decimal) (e : Earned) : Prop where
  pendingSalary : policy.Paid k e.pendingSalary
  aguinaldo : policy.Paid k e.aguinaldo
  vacation : policy.Paid k e.vacation
  premium : policy.Paid k e.premium
  deductions : e.deductions = deductions

theorem Earned.Paid.mono {e : Earned} (h : Earned.Paid policy j deductions e) (hjk : j ≤ k) :
    Earned.Paid policy k deductions e :=
  ⟨h.pendingSalary.mono hjk, h.aguinaldo.mono hjk, h.vacation.mono hjk, h.premium.mono hjk, h.deductions⟩

theorem payDays_upto (hvalues : values.Upto k) (hdaily : daily.Upto k) (ha : a.Upto (k + 5))
    (hb : b.Upto (k + 5)) (hd : d.Upto (k + 5)) (hk : 2 * k + 5 < 999999) :
    Succeeds (Earned.Paid policy (2 * k + 5) deductions)
      (payDays policy values daily a b d deductions) := by
  refine .product (k := 2 * k + 5) hdaily ha (by omega) hk fun pendingSalary hpending => ?_
  refine .product (k := 2 * k + 5) hdaily hb (by omega) hk fun aguinaldo haguinaldo => ?_
  refine .product (k := 2 * k + 5) hdaily hd (by omega) hk fun vacation hvacation => ?_
  refine .product hvacation.toUpto hvalues.premium le_rfl hk fun premium hpremium => ?_
  exact .ok ⟨hpending, haguinaldo, hvacation, hpremium, rfl⟩

theorem earned_upto (hvalues : values.Upto k) (hdaily : daily.Upto k) (hentitlement : entitlement ≤ 32)
    (hlater : r.employee.hireDate.rank < r.termination.rank)
    (hpending : ∀ a ∈ r.pendingSalaryDays, Succeeds (Decimal.Upto k) a.toDecimal)
    (hvacation : ∀ a ∈ r.pendingVacationDays, Succeeds (Decimal.Upto k) a.toDecimal)
    (hdeductions : r.otherDeductions.toDecimal = .ok deductions) (hnonneg : 0 ≤ deductions.value)
    (hk : 2 * k + 5 < 999999) :
    Succeeds (Earned.Paid policy (2 * k + 5) deductions) (earned policy values daily entitlement r) := by
  have hworked := daysWorked_upto hlater
  have hday : (Decimal.ofInt r.termination.day).Upto (k + 5) :=
    (Decimal.Upto.ofNat (k := 2) (r.termination.day_le.trans (by decide))).mono (by omega)
  have hentitlement : (Decimal.ofInt entitlement).Upto 2 := .ofNat (hentitlement.trans (by decide))
  have hgiven {o : Option Amount} (h : ∀ a ∈ o, Succeeds (Decimal.Upto k) a.toDecimal) :
      ∀ a ∈ o, Succeeds (Decimal.Upto (k + 5)) a.toDecimal :=
    fun a ha => (h a ha).mono fun _ hd => hd.mono (by omega)
  rw [earned_eq]
  refine (Decimal.div_literal_upto (by decide) hworked (by decide)).bind fun fraction _ hfraction => ?_
  refine (daysOr_upto (.ok hday) (hgiven hpending)).bind fun pendingDays _ hpending => ?_
  refine (Decimal.mul_upto (k := k + 5) (by omega) hfraction.toUpto hvalues.aguinaldo (by omega)).bind
    fun exact _ hexact => ?_
  refine (roundHalfAway_upto (by decide) hexact (by omega)).bind fun aguinaldoDays _ haguinaldo => ?_
  have hfollowing : Succeeds (Decimal.Upto (k + 5)) (do
      roundHalfAway dayPlaces (← ordinary.mul fraction (.ofInt entitlement)) : Except Fault Decimal) :=
    (Decimal.mul_upto (k := k + 5) (by omega) hfraction.toUpto hentitlement (by omega)).bind
      fun days _ hdays => roundHalfAway_upto (by decide) hdays (by omega)
  refine (daysOr_upto hfollowing (hgiven hvacation)).bind fun vacationDays _ hvacation => ?_
  refine Succeeds.bind ⟨_, hdeductions, rfl⟩ fun given _ hgiven => ?_
  subst hgiven
  rw [if_neg]
  · exact payDays_upto hvalues hdaily hpending haguinaldo hvacation hk
  · simp only [Bool.or_eq_true, Decimal.lt_zero_iff, not_or, not_lt]
    exact ⟨⟨hpending.nonneg, hvacation.nonneg⟩, hnonneg⟩

/-- The indemnities, which only a dismissal without cause has. -/
def indemnities (policy : RoundingPolicy) (integrated : Decimal) (years : Nat) (kind : SettlementKind) :
    Except Fault (Decimal × Decimal) :=
  if kind = .liquidacion then do
    let fixed ← policy.apply (← ordinary.mul integrated indemnityDays)
    let perYear ← ordinary.mul integrated indemnityDaysPerYear
    let byYears ← policy.apply (← ordinary.mul perYear (.ofInt years))
    pure (fixed, byYears)
  else pure (0, 0)

theorem separation_eq (policy : RoundingPolicy) (values : FiscalValues) (daily integrated : Decimal)
    (years : Nat) (kind : SettlementKind) : separation policy values daily integrated years kind = (do
      let x ← indemnities policy integrated years kind
      if kind = .finiquito ∧ years < voluntaryYears then pure ⟨x.1, x.2, 0, 0⟩
      else do
        let cap ← ordinary.mul values.smgDaily seniorityCap
        let seniority ← policy.apply
          (← ordinary.mul (Decimal.min2 daily cap) (.ofInt (seniorityDaysPerYear * years : Nat)))
        pure ⟨x.1, x.2, seniorityDaysPerYear * years, seniority⟩) := by
  unfold separation indemnities
  by_cases hkind : kind = .liquidacion
  · simp only [if_pos hkind, bind_assoc, pure_bind]
  · simp only [if_neg hkind, pure_bind]

/-- Payments for a separation up to a power of ten. -/
structure Separation.Paid (policy : RoundingPolicy) (k : Nat) (s : Separation) : Prop where
  indemnity90 : policy.Paid k s.indemnity90
  indemnity20 : policy.Paid k s.indemnity20
  seniority : policy.Paid k s.seniority

theorem indemnities_upto (hintegrated : integrated.Upto j) (hyears : years < 10 ^ 4)
    (hk : j + 6 < 999999) :
    Succeeds (fun x => policy.Paid (j + 6) x.1 ∧ policy.Paid (j + 6) x.2)
      (indemnities policy integrated years kind) := by
  have hyears : (Decimal.ofInt years).Upto 4 := .ofNat hyears.le
  unfold indemnities
  split
  · refine .product (k := j + 6) hintegrated (.literal (k := 2) (by decide)) (by omega) hk
      fun fixed hfixed => ?_
    refine (Decimal.mul_upto (k := j + 2) (by omega) hintegrated (.literal (k := 2) (by decide))
      le_rfl).bind fun perYear _ hperYear => ?_
    refine .product (k := j + 6) hperYear.toUpto hyears le_rfl hk fun byYears hbyYears => ?_
    exact .ok ⟨hfixed, hbyYears⟩
  · exact .ok ⟨.zero policy _, .zero policy _⟩

theorem separation_upto (hvalues : values.Upto k) (hdaily : daily.Upto k)
    (hintegrated : integrated.Upto j) (hyears : years < 10 ^ 4) (hkj : k ≤ j) (hk : j + 6 < 999999) :
    Succeeds (Separation.Paid policy (j + 6)) (separation policy values daily integrated years kind) := by
  have hdays : (Decimal.ofInt (seniorityDaysPerYear * years : Nat)).Upto 6 := by
    refine .ofNat ?_
    unfold seniorityDaysPerYear
    omega
  rw [separation_eq]
  refine (indemnities_upto hintegrated hyears hk).bind fun x _ hx => ?_
  split
  · exact .ok ⟨hx.1, hx.2, .zero policy _⟩
  · refine (Decimal.mul_upto (k := k + 1) (by omega) hvalues.smg (.literal (k := 1) (by decide))
      le_rfl).bind fun cap _ hcap => ?_
    refine .product (k := j + 6) (hdaily.min hcap.nonneg) hdays (by omega) hk
      fun seniority hseniority => ?_
    exact .ok ⟨hx.1, hx.2, hseniority⟩

/-- The rate of the monthly salary and the tax at it, which are bounded as long as the salary is not too
small. -/
theorem separationTax_upto {table : BracketTable IsrTerms} {taxable monthly : Decimal} {asOrdinary : Bool}
    (hrows : ∀ row ∈ table.rows, ∃ j, Bracket.load j = .ok row)
    (hfees : ∀ row ∈ table.rows, row.terms.fixedFee.value ≤ 10 ^ k) (htaxable : taxable.Upto j)
    (hmonthly : monthly.Upto k) (hleast : monthly.value = 0 ∨ 1 ≤ monthly.value * 10 ^ k)
    (hk : j + (2 * k + 1) < 999999) :
    Succeeds (fun x => x.1.Upto (2 * k + 1) ∧ policy.Paid (j + (2 * k + 1)) x.2)
      (separationTax policy table taxable monthly asOrdinary) := by
  unfold separationTax
  split
  · next hcondition =>
    simp only [Bool.and_eq_true, Decimal.lt_iff, Decimal.value_zero'] at hcondition
    have hleast := hleast.resolve_left hcondition.2.ne'
    refine (Isr.calculate_upto hrows hfees hmonthly (by omega)).bind fun onSalary _ hsalary => ?_
    have hrate : onSalary.isr.value ≤ 10 ^ (2 * k + 1) * monthly.value := calc
      onSalary.isr.value ≤ 10 ^ (k + 1) * (monthly.value * 10 ^ k) :=
        hsalary.2.le.trans (le_mul_of_one_le_right (by positivity) hleast)
      _ = 10 ^ (2 * k + 1) * monthly.value := by ring
    refine (Decimal.div_upto (by omega) hsalary.2.nonneg hcondition.2 hrate).bind fun exact _ hexact => ?_
    refine (roundHalfAway_upto (by decide) hexact (by omega)).bind fun rate _ hrate => ?_
    refine .product htaxable hrate le_rfl hk fun tax htax => ?_
    exact .ok ⟨hrate, htax⟩
  · exact .ok ⟨.zero _, .zero policy _⟩

end Settlement

end Payroll
