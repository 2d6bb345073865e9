import Mathlib
import Payroll.Proofs.PublishedTariffs
import Payroll.Proofs.SettlementParts

/-!
What a settlement pays, in exempt and in taxable parts. The amounts of whole places that it is made of add
up exactly while a context has the digits, so every payment is found once, in the one part or the other.
-/

namespace Payroll

open Decimal (Context ordinary)
open Result

variable {policy : RoundingPolicy} {a limit deductions : Decimal} {j k n : Nat}

namespace Settlement

/-- The exempt part of a payment is an amount of whole places, not above the payment. -/
theorem exemptPart_paid (ha : policy.Paid k a) (hlimit : limit.FittedUpto j) (hk : k < 999999) :
    Succeeds (fun r => policy.Paid k r ∧ r.value ≤ a.value) (policy.apply (exemptPart a limit)) := by
  have hvalue : (exemptPart a limit).value = min a.value limit.value := by
    rw [exemptPart, Decimal.value_max2, Decimal.value_min2, Decimal.value_zero',
      max_eq_right (le_min ha.nonneg hlimit.nonneg)]
  have hle : (exemptPart a limit).value ≤ a.value := hvalue.trans_le (min_le_left _ _)
  have hadjusted : (exemptPart a limit).adjusted ≤ ordinary.maxExponent := by
    unfold exemptPart
    rcases Decimal.max2_eq_or 0 (Decimal.min2 a limit) with h | h
    · rw [h]
      decide +kernel
    · rw [h]
      rcases Decimal.min2_eq_or a limit with h | h
      · rw [h]
        exact ha.adjusted
      · rw [h]
        exact hlimit.adjusted
  have hfitted : (exemptPart a limit).FittedUpto k :=
    ⟨⟨hvalue.symm ▸ le_min ha.nonneg hlimit.nonneg, hle.trans ha.le⟩, hadjusted⟩
  refine (policy.apply_upto hfitted hk).mono fun r hr => ⟨hr.1, ?_⟩
  rw [hr.2, ← ha.whole.exact policy.method]
  exact policy.method.exact_mono _ hle

section Steps

variable {α : Type} {P : α → Prop} {F : Fault → Prop} {f : Decimal → Except Fault α}
  {x y uma factor : Decimal} {i : Nat} {e : Earned}

/-- What follows the exempt part of a payment, which a number of units limits. -/
theorem endsIn_exempted (ha : policy.Paid k a) (huma : uma.Upto i) (hfactor : factor.Upto j)
    (hij : i + j ≤ 999999) (hk : k < 999999)
    (hf : ∀ d, policy.Paid k d → d.value ≤ a.value → EndsIn P F (f d)) :
    EndsIn P F ((liftM (ordinary.mul uma factor) : Except Fault _) >>= fun limit =>
      policy.apply (exemptPart a limit) >>= f) :=
  (Decimal.mul_upto hij huma hfactor le_rfl).endsIn fun _ _ hlimit =>
    (exemptPart_paid ha hlimit hk).endsIn fun d _ hd => hf d hd.1 hd.2

/-- What follows the sum of the payments for a separation. -/
theorem endsIn_separationTotal {s : Separation} (hs : Separation.Paid policy n s) (hn : n + 2 ≤ 999999)
    (hf : ∀ total,
      (do ordinary.add (← ordinary.add s.indemnity90 s.indemnity20) s.seniority : Except Fault _) =
        .ok total → policy.Paid (n + 2) total → EndsIn P F (f total)) :
    EndsIn P F ((liftM (ordinary.add s.indemnity90 s.indemnity20) : Except Fault _) >>= fun d =>
      (liftM (ordinary.add d s.seniority) : Except Fault _) >>= f) := by
  refine (hs.indemnity90.add (k := n + 1) hs.indemnity20 le_rfl (by omega)).endsIn
    fun indemnities hindemnities hpaid => ?_
  refine (hpaid.add (k := n + 2) (hs.seniority.mono (by omega)) le_rfl hn).endsIn
    fun total htotal htotalPaid => ?_
  exact hf total (bind_of_eq_ok hindemnities htotal) htotalPaid

/-- What is taxable of the payments that were earned. -/
def taxableOf (salary vacation aguinaldo aguinaldoExempt premium premiumExempt : Decimal) :
    Except Fault Decimal := do
  let basic ← ordinary.add salary vacation
  let withAguinaldo ← ordinary.add basic (← ordinary.sub aguinaldo aguinaldoExempt)
  ordinary.add withAguinaldo (← ordinary.sub premium premiumExempt)

/-- What follows the sum of what is taxable of the payments that were earned. -/
theorem endsIn_taxableOf (he : Earned.Paid policy n deductions e) (hx : policy.Paid n x)
    (hxle : x.value ≤ e.aguinaldo.value) (hy : policy.Paid n y) (hyle : y.value ≤ e.premium.value)
    (hn : n + 3 ≤ 999999)
    (hf : ∀ earned, taxableOf e.pendingSalary e.vacation e.aguinaldo x e.premium y = .ok earned →
      policy.Paid (n + 3) earned → EndsIn P F (f earned)) :
    EndsIn P F ((liftM (ordinary.add e.pendingSalary e.vacation) : Except Fault _) >>= fun basic =>
      (liftM (ordinary.sub e.aguinaldo x) : Except Fault _) >>= fun aguinaldo =>
      (liftM (ordinary.add basic aguinaldo) : Except Fault _) >>= fun withAguinaldo =>
      (liftM (ordinary.sub e.premium y) : Except Fault _) >>= fun premium =>
      (liftM (ordinary.add withAguinaldo premium) : Except Fault _) >>= f) := by
  refine (he.pendingSalary.add (k := n + 1) he.vacation le_rfl (by omega)).endsIn
    fun basic hbasic hbasicPaid => ?_
  refine (he.aguinaldo.sub hx hxle (by omega)).endsIn fun aguinaldo haguinaldo hleft => ?_
  refine (hbasicPaid.add (k := n + 2) (hleft.mono (by omega)) le_rfl (by omega)).endsIn
    fun withAguinaldo hwithAguinaldo hbothPaid => ?_
  refine (he.premium.sub hy hyle (by omega)).endsIn fun premium hpremium hleft => ?_
  refine (hbothPaid.add (k := n + 3) (hleft.mono (by omega)) le_rfl hn).endsIn
    fun earned hearned hearnedPaid => ?_
  exact hf earned (bind_of_eq_ok hbasic (bind_of_eq_ok haguinaldo (bind_of_eq_ok hwithAguinaldo
    (bind_of_eq_ok hpremium hearned)))) hearnedPaid

/-- What follows the income at the ordinary rates, of which what is left of a separation may be part. -/
theorem endsIn_income {asOrdinary : Bool} (hx : policy.Paid (n + 1) x) (hy : policy.Paid n y)
    (hn : n + 2 ≤ 999999)
    (hf : ∀ income, (if asOrdinary then ordinary.add x y else .ok x) = .ok income →
      policy.Paid (n + 2) income → EndsIn P F (f income)) :
    EndsIn P F (if asOrdinary = true then (liftM (ordinary.add x y) : Except Fault _) >>= f
      else pure x >>= f) := by
  cases asOrdinary with
  | true =>
      rw [if_pos rfl] at hf ⊢
      exact (hx.add (hy.mono (by omega)) le_rfl hn).endsIn fun income hincome hpaid =>
        hf income (signal_eq_ok.1 hincome) hpaid
  | false =>
      rw [if_neg Bool.false_ne_true] at hf ⊢
      exact hf x rfl (hx.mono (by omega))

end Steps

def payments (s : Settlement) : List Decimal :=
  [s.pendingSalary, s.aguinaldo, s.vacation, s.premium, s.indemnity90, s.indemnity20, s.seniority]

def exemptParts (s : Settlement) : List Decimal :=
  [s.aguinaldoExempt, s.premiumExempt, s.separationExempt]

def taxes (s : Settlement) : List Decimal :=
  [s.ordinaryIsr.marginal, s.ordinaryIsr.isr, s.separationIsr]

def taxableEarned (s : Settlement) : Except Fault Decimal :=
  taxableOf s.pendingSalary s.vacation s.aguinaldo s.aguinaldoExempt s.premium s.premiumExempt

/-- How a settlement is put together: payments of whole places, of which some parts are exempt and the rest
is taxable, together or apart. -/
structure Composed (policy : RoundingPolicy) (n : Nat) (s : Settlement) : Prop where
  payments : ∀ d ∈ s.payments, policy.Paid n d
  aguinaldo : policy.Paid n s.aguinaldoExempt ∧ s.aguinaldoExempt.value ≤ s.aguinaldo.value
  premium : policy.Paid n s.premiumExempt ∧ s.premiumExempt.value ≤ s.premium.value
  taxable : ∃ total earned separation income,
    s.separationTotal = .ok total ∧ policy.Paid (n + 2) total ∧
    policy.Paid (n + 2) s.separationExempt ∧ s.separationExempt.value ≤ total.value ∧
    ordinary.sub total s.separationExempt = .ok separation ∧
    s.separationTaxable.value = separation.value ∧
    s.taxableEarned = .ok earned ∧
    (if s.asOrdinary then ordinary.add earned separation else .ok earned) = .ok income ∧
    s.ordinaryTaxable.value = income.value
  taxes : ∀ d ∈ s.taxes, d.Upto (2 * n)
  deductions : s.deductions.Upto n

end Settlement

/-- The amounts that a settlement is computed from. -/
def SettlementRequest.amounts (r : SettlementRequest) (values : FiscalValues)
    (table : BracketTable IsrTerms) : List Decimal :=
  [r.employee.baseSalary, values.umaDaily, values.smgDaily, .ofInt values.aguinaldoDays] ++
    r.employee.dailySalary.toList ++ r.employee.sbc.toList ++ table.rows.map (·.terms.fixedFee)

/-- A settlement of an employment that ends after it began, with amounts up to a power of ten; a salary is
not so small that a tax would be out of proportion to it. -/
structure SettlementRequest.Settleable (k : Nat) (tables : FiscalTables) (table : BracketTable IsrTerms)
    (deductions : Decimal) (r : SettlementRequest) : Prop where
  found : tables.isrTable Settlement.monthlyTable = .ok table
  rows : ∀ row ∈ table.rows, ∃ j, Bracket.load j = .ok row
  values : ∃ j, FiscalValues.load j = .ok tables.values
  employee : r.employee.Loaded
  later : ¬r.termination.orEqual r.employee.hireDate = true
  year : r.termination.year ≤ 9999
  pendingSalaryDays : ∀ a ∈ r.pendingSalaryDays, ∃ d, a.toDecimal = .ok d ∧ d.Upto k
  pendingVacationDays : ∀ a ∈ r.pendingVacationDays, ∃ d, a.toDecimal = .ok d ∧ d.Upto k
  otherDeductions : r.otherDeductions.toDecimal = .ok deductions ∧ deductions.Upto k
  amounts : ∀ d ∈ r.amounts tables.values table, d.value ≤ 10 ^ k
  salary : r.employee.baseSalary.value = 0 ∨ 1 ≤ r.employee.baseSalary.value * 10 ^ k

namespace SettlementRequest.Settleable

variable {tables : FiscalTables} {table : BracketTable IsrTerms} {r : SettlementRequest}
  (h : r.Settleable k tables table deductions)

include h

theorem baseSalary_upto : r.employee.baseSalary.Upto k :=
  ⟨(Employee.nonneg_of_loaded h.employee).1, h.amounts _ (by simp [SettlementRequest.amounts])⟩

theorem dailySalary_upto : ∀ d ∈ r.employee.dailySalary, d.Upto k := fun d hd =>
  ⟨(Employee.nonneg_of_loaded h.employee).2.1 d hd,
    h.amounts _ (by simp [SettlementRequest.amounts, Option.mem_def.1 hd])⟩

theorem sbc_upto : ∀ d ∈ r.employee.sbc, d.Upto k := fun d hd =>
  ⟨(Employee.nonneg_of_loaded h.employee).2.2 d hd,
    h.amounts _ (by simp [SettlementRequest.amounts, Option.mem_def.1 hd])⟩

theorem fees_le : ∀ row ∈ table.rows, row.terms.fixedFee.value ≤ 10 ^ k := fun _ hrow =>
  h.amounts _ (List.mem_append_right _ (List.mem_map_of_mem hrow))

theorem values_upto : tables.values.Upto k := by
  obtain ⟨j, hj⟩ := h.values
  exact (FiscalValues.lawful_of_load hj).upto (h.amounts _ (by simp [SettlementRequest.amounts]))
    (h.amounts _ (by simp [SettlementRequest.amounts]))
    (Decimal.value_ofInt _ ▸ h.amounts _ (by simp [SettlementRequest.amounts]))

theorem rank_lt : r.employee.hireDate.rank < r.termination.rank :=
  not_le.1 (mt Date.orEqual_iff.2 h.later)

theorem years_lt : r.employee.hireDate.yearsUntil r.termination < 10 ^ 4 := by
  have hyears := Date.yearsUntil_le r.employee.hireDate r.termination
  have hhire := r.employee.hireDate.valid.1
  have hyear := h.year
  omega

end SettlementRequest.Settleable

namespace Settlement

variable {tables : FiscalTables} {table : BracketTable IsrTerms} {r : SettlementRequest}

/-- The only step that can fail is the last: the deductions are rounded as they are given. -/
theorem calculate_composes (hk : k ≤ 200000) (h : r.Settleable k tables table deductions) :
    EndsIn (fun s => (Composed policy (2 * k + 10) s ∧ ¬BeyondContexts policy.places deductions) ∧
        s.separationRate.Upto (2 * k + 1))
      (fun f => f = .digitLimit ∧ BeyondContexts policy.places deductions)
      (calculate policy tables r) := by
  obtain ⟨n, hn⟩ : ∃ n, n = 2 * k + 10 := ⟨_, rfl⟩
  rw [← hn]
  have hvalues := h.values_upto
  have hyears := h.years_lt
  have hserviceYears : (Decimal.ofInt (Service.exemptYears r.employee.hireDate r.termination)).Upto 4 := by
    have := Service.exemptYears_le r.employee.hireDate r.termination
    exact .ofNat (by omega)
  unfold calculate
  dsimp only
  rw [if_neg h.later]
  -- the payments
  refine (Employee.dailyPay_upto h.baseSalary_upto h.dailySalary_upto (by omega)).endsIn
    fun daily _ hdaily => ?_
  refine (Employee.integratedPay_upto h.sbc_upto hdaily hvalues.aguinaldo hvalues.premium
    (Service.vacationDays_le _) (by omega)).endsIn fun integrated _ hintegrated => ?_
  refine (earned_upto (k := k) hvalues hdaily (Service.vacationDays_le _) h.rank_lt h.pendingSalaryDays
    h.pendingVacationDays h.otherDeductions.1 h.otherDeductions.2.nonneg (by omega)).endsIn
    fun e _ he => ?_
  refine (separation_upto hvalues hdaily hintegrated hyears (by omega) (by omega)).endsIn fun s _ hs => ?_
  replace he := he.mono (by omega : 2 * k + 5 ≤ n)
  rw [← hn] at hs
  -- their exempt parts
  refine endsIn_exempted he.aguinaldo hvalues.uma (.literal (k := 2) (by decide)) (by omega) (by omega)
    fun aguinaldoExempt haguinaldo haguinaldoLe => ?_
  refine endsIn_exempted he.premium hvalues.uma (.literal (k := 2) (by decide)) (by omega) (by omega)
    fun premiumExempt hpremium hpremiumLe => ?_
  refine endsIn_separationTotal hs (by omega) fun total htotalEq htotal => ?_
  refine (Decimal.mul_upto (k := k + 2) (by omega) hvalues.uma (.literal (k := 2) (by decide))
    le_rfl).endsIn fun perYear _ hperYear => ?_
  refine endsIn_exempted htotal hperYear.toUpto hserviceYears (by omega) (by omega)
    fun separationExempt hexempt hexemptLe => ?_
  -- and what is left of them
  refine (htotal.sub hexempt hexemptLe (by omega)).endsIn fun separation hseparationEq hseparation => ?_
  refine endsIn_taxableOf he haguinaldo haguinaldoLe hpremium hpremiumLe (by omega)
    fun earned hearnedEq hearned => ?_
  refine Succeeds.endsIn ⟨table, h.found, rfl⟩ fun _ _ htable => ?_
  subst htable
  refine endsIn_income hearned hseparation (by omega) fun income hincomeEq hincome => ?_
  -- the taxes on that
  have hfees : ∀ row ∈ table.rows, row.terms.fixedFee.value ≤ 10 ^ (n + 4) := fun row hrow =>
    (h.fees_le row hrow).trans (pow_le_pow_right₀ (by norm_num) (by omega))
  refine (Isr.calculate_upto h.rows hfees hincome.toUpto (by omega)).endsIn fun isr _ hisr => ?_
  refine (separationTax_upto h.rows h.fees_le hseparation.toUpto h.baseSalary_upto h.salary
    (by omega)).endsIn fun x _ hx => ?_
  refine (hincome.apply (by omega)).endsIn fun ordinaryTaxable _ hordinary => ?_
  refine (hseparation.apply (by omega)).endsIn fun separationTaxable _ hleft => ?_
  rw [he.deductions]
  by_cases hbeyond : BeyondContexts policy.places deductions
  · rw [RoundingPolicy.apply, roundTo_of_beyond hbeyond]
    exact ⟨rfl, hbeyond⟩
  refine (RoundingPolicy.apply_given h.otherDeductions.2 hbeyond (by omega)).endsIn
    fun withheld _ hwithheld => ⟨⟨?_, hbeyond⟩, hx.1⟩
  have hfits {m : Nat} {d : Decimal} (hd : policy.Paid m d) (hm : m ≤ 2 * n) : d.Upto (2 * n) :=
    hd.toUpto.mono hm
  refine ⟨?_, ⟨haguinaldo, haguinaldoLe⟩, ⟨hpremium, hpremiumLe⟩, ⟨total, earned, separation, income,
    htotalEq, htotal, hexempt, hexemptLe, signal_eq_ok.1 hseparationEq, hleft.2, hearnedEq, hincomeEq,
    hordinary.2⟩, ?_, hwithheld.1.toUpto.mono (by omega)⟩
  · simp only [payments, List.forall_mem_cons]
    exact ⟨he.pendingSalary, he.aguinaldo, he.vacation, he.premium, hs.indemnity90, hs.indemnity20,
      hs.seniority, List.forall_mem_nil _⟩
  · simp only [taxes, List.forall_mem_cons]
    exact ⟨hfits hisr.1 (by omega), hfits hisr.2 (by omega), hfits hx.2 (by omega), List.forall_mem_nil _⟩

theorem calculate_ends (hk : k ≤ 200000) (h : r.Settleable k tables table deductions) :
    EndsIn (fun s => Composed policy (2 * k + 10) s ∧ ¬BeyondContexts policy.places deductions)
      (fun f => f = .digitLimit ∧ BeyondContexts policy.places deductions)
      (calculate policy tables r) :=
  (calculate_composes hk h).mono (fun _ hs => hs.1) fun _ => id

section Sums

variable {s : Settlement} {total gross earned : Decimal}

theorem forall_payments {P : Decimal → Prop} : (∀ d ∈ s.payments, P d) ↔
    P s.pendingSalary ∧ P s.aguinaldo ∧ P s.vacation ∧ P s.premium ∧ P s.indemnity90 ∧ P s.indemnity20 ∧
      P s.seniority := by
  simp [payments]

theorem sum_payments (s : Settlement) : (s.payments.map Decimal.value).sum =
    s.pendingSalary.value + s.aguinaldo.value + s.vacation.value + s.premium.value +
      (s.indemnity90.value + s.indemnity20.value + s.seniority.value) := by
  simp only [payments, List.map_cons, List.map_nil, List.sum_cons, List.sum_nil]
  ring

variable (hwhole : ∀ d ∈ s.payments, Whole policy.places d.value)
  (hnonneg : ∀ d ∈ s.payments, 0 ≤ d.value)
  (hsmall : (s.payments.map Decimal.value).sum < 10 ^ (28 - policy.places : ℤ))

include hwhole hnonneg hsmall

theorem value_of_separationTotal (h : s.separationTotal = .ok total) : Whole policy.places total.value ∧
    total.value = s.indemnity90.value + s.indemnity20.value + s.seniority.value := by
  obtain ⟨-, -, -, -, hfixed, hyears, hseniority⟩ := forall_payments.1 hwhole
  obtain ⟨_, _, _, _, _, _, _⟩ := forall_payments.1 hnonneg
  rw [sum_payments] at hsmall
  obtain ⟨indemnities, hindemnities, h⟩ := bind_eq_ok.1 h
  obtain ⟨hw, hv⟩ := policy.value_of_add hfixed hyears (by linarith) (by linarith)
    (signal_eq_ok.1 hindemnities)
  obtain ⟨hw', hv'⟩ := policy.value_of_add hw hseniority (by linarith) (by linarith) (signal_eq_ok.1 h)
  exact ⟨hw', by rw [hv', hv]⟩

theorem value_of_grossTotal (h : s.grossTotal = .ok gross) :
    gross.value = (s.payments.map Decimal.value).sum := by
  obtain ⟨hpending, haguinaldo, hvacation, hpremium, -, -, -⟩ := forall_payments.1 hwhole
  obtain ⟨_, _, _, _, _, _, _⟩ := forall_payments.1 hnonneg
  obtain ⟨first, hfirst, h⟩ := bind_eq_ok.1 h
  obtain ⟨second, hsecond, h⟩ := bind_eq_ok.1 h
  obtain ⟨third, hthird, h⟩ := bind_eq_ok.1 h
  obtain ⟨total, htotal, h⟩ := bind_eq_ok.1 h
  obtain ⟨hwtotal, hvtotal⟩ := value_of_separationTotal hwhole hnonneg hsmall htotal
  rw [sum_payments] at hsmall ⊢
  obtain ⟨hw, hv⟩ := policy.value_of_add hpending haguinaldo (by linarith) (by linarith)
    (signal_eq_ok.1 hfirst)
  obtain ⟨hw', hv'⟩ := policy.value_of_add hw hvacation (by linarith) (by linarith)
    (signal_eq_ok.1 hsecond)
  obtain ⟨hw'', hv''⟩ := policy.value_of_add hw' hpremium (by linarith) (by linarith)
    (signal_eq_ok.1 hthird)
  obtain ⟨-, hvalue⟩ := policy.value_of_add hw'' hwtotal (by linarith) (by linarith) (signal_eq_ok.1 h)
  rw [hvalue, hv'', hv', hv, hvtotal]

theorem value_of_taxableEarned (haguinaldoWhole : Whole policy.places s.aguinaldoExempt.value)
    (haguinaldoLe : 0 ≤ s.aguinaldoExempt.value ∧ s.aguinaldoExempt.value ≤ s.aguinaldo.value)
    (hpremiumWhole : Whole policy.places s.premiumExempt.value)
    (hpremiumLe : 0 ≤ s.premiumExempt.value ∧ s.premiumExempt.value ≤ s.premium.value)
    (h : s.taxableEarned = .ok earned) : Whole policy.places earned.value ∧
      earned.value = s.pendingSalary.value + s.vacation.value +
        (s.aguinaldo.value - s.aguinaldoExempt.value) + (s.premium.value - s.premiumExempt.value) := by
  obtain ⟨hpending, haguinaldo, hvacation, hpremium, -, -, -⟩ := forall_payments.1 hwhole
  obtain ⟨_, _, _, _, _, _, _⟩ := forall_payments.1 hnonneg
  obtain ⟨_, haguinaldoLe⟩ := haguinaldoLe
  obtain ⟨_, hpremiumLe⟩ := hpremiumLe
  rw [sum_payments] at hsmall
  obtain ⟨basic, hbasic, h⟩ := bind_eq_ok.1 h
  obtain ⟨first, hfirst, h⟩ := bind_eq_ok.1 h
  obtain ⟨both, hboth, h⟩ := bind_eq_ok.1 h
  obtain ⟨second, hsecond, h⟩ := bind_eq_ok.1 h
  obtain ⟨hw, hv⟩ := policy.value_of_add hpending hvacation (by linarith) (by linarith)
    (signal_eq_ok.1 hbasic)
  obtain ⟨hwfirst, hvfirst⟩ := policy.value_of_sub haguinaldo haguinaldoWhole haguinaldoLe (by linarith)
    (signal_eq_ok.1 hfirst)
  obtain ⟨hw', hv'⟩ := policy.value_of_add hw hwfirst (by linarith) (by linarith) (signal_eq_ok.1 hboth)
  obtain ⟨hwsecond, hvsecond⟩ := policy.value_of_sub hpremium hpremiumWhole hpremiumLe (by linarith)
    (signal_eq_ok.1 hsecond)
  obtain ⟨hw'', hvalue⟩ := policy.value_of_add hw' hwsecond (by linarith) (by linarith) (signal_eq_ok.1 h)
  exact ⟨hw'', by rw [hvalue, hv', hv, hvfirst, hvsecond]⟩

end Sums

/-- What a settlement is sure of: no amount is negative, no exempt part exceeds its payment, and the
totals are there. Where a context has digits enough for the sum of the payments, this is the total, and it
consists of the exempt and the taxable parts. -/
structure Classified (policy : RoundingPolicy) (s : Settlement) : Prop where
  nonneg : ∀ d ∈ s.payments ++ s.exemptParts ++ s.taxes, 0 ≤ d.value
  aguinaldo : s.aguinaldoExempt.value ≤ s.aguinaldo.value
  premium : s.premiumExempt.value ≤ s.premium.value
  separation : ∃ total, s.separationTotal = .ok total ∧ s.separationExempt.value ≤ total.value
  net : ∃ net, s.netTotal = .ok net
  tax : ∃ tax, s.isrTotal = .ok tax ∧ 0 ≤ tax.value
  gross : ∃ gross, s.grossTotal = .ok gross ∧
    ((s.payments.map Decimal.value).sum < 10 ^ (28 - policy.places : ℤ) →
      gross.value = (s.payments.map Decimal.value).sum ∧
      gross.value = (s.exemptParts.map Decimal.value).sum + s.ordinaryTaxable.value +
        if s.asOrdinary then 0 else s.separationTaxable.value)

namespace Composed

variable {s : Settlement} (h : Composed policy n s)

include h

theorem grossTotal_paid (hn : n ≤ 400010) : Succeeds (policy.Paid (n + 4)) s.grossTotal := by
  obtain ⟨hpending, haguinaldo, hvacation, hpremium, -, -, -⟩ := forall_payments.1 h.payments
  obtain ⟨total, _, _, _, htotal, htotalPaid, -⟩ := h.taxable
  refine (hpending.add (k := n + 1) haguinaldo le_rfl (by omega)).bind fun _ _ hfirst => ?_
  refine (hfirst.add (k := n + 2) (hvacation.mono (by omega)) le_rfl (by omega)).bind fun _ _ hsecond => ?_
  refine (hsecond.add (k := n + 3) (hpremium.mono (by omega)) le_rfl (by omega)).bind fun _ _ hthird => ?_
  refine Succeeds.bind ⟨total, htotal, rfl⟩ fun _ _ hsame => ?_
  subst hsame
  exact hthird.add (htotalPaid.mono (by omega)) le_rfl (by omega)

theorem isrTotal_upto (hn : n ≤ 400010) : Succeeds (Decimal.Upto (2 * n + 1)) s.isrTotal := by
  have htaxes := h.taxes
  simp only [Settlement.taxes, List.forall_mem_cons] at htaxes
  obtain ⟨-, hordinary, hseparation, -⟩ := htaxes
  exact (Decimal.add_upto (by omega) hordinary hseparation le_rfl).mono fun _ h => h.toUpto

theorem exists_netTotal (hn : n ≤ 400010) : ∃ net, s.netTotal = .ok net := by
  obtain ⟨gross, hgross, hgrossPaid⟩ := h.grossTotal_paid hn
  obtain ⟨tax, htax, htaxUpto⟩ := h.isrTotal_upto hn
  obtain ⟨withheld, hwithheld, hwithheldUpto⟩ := Decimal.add_upto (k := 2 * n + 2) (by omega) htaxUpto
    (h.deductions.mono (by omega)) le_rfl
  obtain ⟨net, hnet⟩ := Decimal.exists_sub (k := 2 * n + 4) (by omega)
    (hgrossPaid.toUpto.mono (by omega)) (hwithheldUpto.toUpto.mono (by omega))
  exact ⟨net, bind_of_eq_ok hgross (bind_of_eq_ok (bind_of_eq_ok htax hwithheld) hnet)⟩

/-- While the payments have digits enough, the exempt and the taxable parts make them up. -/
theorem sum_parts (hsmall : (s.payments.map Decimal.value).sum < 10 ^ (28 - policy.places : ℤ)) :
    (s.payments.map Decimal.value).sum = (s.exemptParts.map Decimal.value).sum +
      s.ordinaryTaxable.value + if s.asOrdinary then 0 else s.separationTaxable.value := by
  have hwhole : ∀ d ∈ s.payments, Whole policy.places d.value := fun d hd => (h.payments d hd).whole
  have hnonneg : ∀ d ∈ s.payments, 0 ≤ d.value := fun d hd => (h.payments d hd).nonneg
  obtain ⟨total, earned, separation, income, htotal, -, hexempt, hle, hseparation, hseparationTaxable,
    hearned, hincome, hordinaryTaxable⟩ := h.taxable
  obtain ⟨hwtotal, hvtotal⟩ := value_of_separationTotal hwhole hnonneg hsmall htotal
  obtain ⟨hwearned, hvearned⟩ := value_of_taxableEarned hwhole hnonneg hsmall h.aguinaldo.1.whole
    ⟨h.aguinaldo.1.nonneg, h.aguinaldo.2⟩ h.premium.1.whole ⟨h.premium.1.nonneg, h.premium.2⟩ hearned
  obtain ⟨_, _, _, _, _, _, _⟩ := forall_payments.1 hnonneg
  have haguinaldo := h.aguinaldo
  have hpremium := h.premium
  have := haguinaldo.1.nonneg
  have := hpremium.1.nonneg
  have := hexempt.nonneg
  rw [sum_payments] at hsmall ⊢
  obtain ⟨hwseparation, hvseparation⟩ := policy.value_of_sub hwtotal hexempt.whole hle (by linarith)
    hseparation
  have hparts : (s.exemptParts.map Decimal.value).sum =
      s.aguinaldoExempt.value + s.premiumExempt.value + s.separationExempt.value := by
    simp only [exemptParts, List.map_cons, List.map_nil, List.sum_cons, List.sum_nil]
    ring
  rw [hparts, hordinaryTaxable, hseparationTaxable]
  split at hincome
  · next htogether =>
    obtain ⟨-, hvincome⟩ := policy.value_of_add hwearned hwseparation (by linarith) (by linarith) hincome
    rw [if_pos htogether]
    linarith
  · next hapart =>
    obtain rfl := Except.ok.inj hincome
    rw [if_neg hapart]
    linarith

theorem classified (hn : n ≤ 400010) : Classified policy s where
  nonneg := by
    obtain ⟨_, _, _, _, -, -, hexempt, -⟩ := h.taxable
    intro d hd
    rw [List.mem_append, List.mem_append] at hd
    rcases hd with (hd | hd) | hd
    · exact (h.payments d hd).nonneg
    · simp only [exemptParts, List.mem_cons, List.not_mem_nil, or_false] at hd
      rcases hd with rfl | rfl | rfl
      · exact h.aguinaldo.1.nonneg
      · exact h.premium.1.nonneg
      · exact hexempt.nonneg
    · exact (h.taxes d hd).nonneg
  aguinaldo := h.aguinaldo.2
  premium := h.premium.2
  separation := by
    obtain ⟨total, _, _, _, htotal, -, -, hle, -⟩ := h.taxable
    exact ⟨total, htotal, hle⟩
  net := h.exists_netTotal hn
  tax := by
    obtain ⟨tax, htax, htaxUpto⟩ := h.isrTotal_upto hn
    exact ⟨tax, htax, htaxUpto.nonneg⟩
  gross := by
    obtain ⟨gross, hgross, -⟩ := h.grossTotal_paid hn
    refine ⟨gross, hgross, fun hsmall => ?_⟩
    have hvalue := value_of_grossTotal (fun d hd => (h.payments d hd).whole)
      (fun d hd => (h.payments d hd).nonneg) hsmall hgross
    exact ⟨hvalue, hvalue.trans (h.sum_parts hsmall)⟩

end Composed

variable {tables : FiscalTables} {table : BracketTable IsrTerms} {r : SettlementRequest}

/-- A settlement is calculated and classifies what it pays, unless the deductions are a zero that no context
can round. -/
theorem calculate_classified (hk : k ≤ 200000) (h : r.Settleable k tables table deductions) :
    ¬BeyondContexts policy.places deductions ∧
      (∃ s, calculate policy tables r = .ok s ∧ Classified policy s) ∨
    BeyondContexts policy.places deductions ∧ deductions.value = 0 ∧
      calculate policy tables r = .error .digitLimit := by
  have hends : EndsIn (fun s => Composed policy (2 * k + 10) s ∧ ¬BeyondContexts policy.places deductions)
      (fun f => f = .digitLimit ∧ BeyondContexts policy.places deductions) (calculate policy tables r) :=
    calculate_ends hk h
  cases hresult : calculate policy tables r with
  | ok s =>
      rw [hresult] at hends
      exact .inl ⟨hends.2, s, rfl, hends.1.classified (by omega)⟩
  | error f =>
      rw [hresult] at hends
      obtain ⟨rfl, hbeyond⟩ := hends
      have hsize := h.otherDeductions.2.abs_lt (by omega)
      exact .inr ⟨hbeyond, Decimal.value_eq_zero.2 (isZero_of_beyond hsize policy.bounded hbeyond), rfl⟩

/-- An employee of three years. -/
def clerk : Employee where
  id := "E001"
  number := none
  rfc := none
  baseSalary := 15000
  dailySalary := none
  sbc := none
  hireDate := { year := 2022, month := 3, day := 1 }
  riskClass := none

def lastDay : Date := { year := 2025, month := 6, day := 15 }

def dismissal (deductions : Amount) : SettlementRequest where
  kind := .liquidacion
  employee := clerk
  termination := lastDay
  otherDeductions := deductions

/-- The monthly tariff of the published tables, which is all that a settlement looks up. -/
def monthlyTables : FiscalTables := ⟨Published.tables2025, [(.monthly, Published.tariff .monthly)], []⟩

theorem settleable_dismissal {a : Amount} {d : Decimal} (ha : a.toDecimal = .ok d) (hd : d.Upto 6) :
    (dismissal a).Settleable 6 monthlyTables (Published.tariff .monthly) d := by
  have hload : (Employee.load clerk.toJson).toOption = some clerk := by decide +kernel
  have hvalues : (FiscalValues.load monthlyTables.values.toJson).toOption = some monthlyTables.values := by
    decide +kernel
  have hlater : ¬lastDay.orEqual clerk.hireDate = true := by decide
  have hyear : lastDay.year ≤ 9999 := by decide
  have hamounts : ∀ d ∈ [clerk.baseSalary, monthlyTables.values.umaDaily, monthlyTables.values.smgDaily,
      .ofInt monthlyTables.values.aguinaldoDays] ++
        (Published.tariff .monthly).rows.map (·.terms.fixedFee), d.value ≤ 10 ^ 6 := by
    decide +kernel
  have hsalary : 1 ≤ clerk.baseSalary.value * 10 ^ 6 := by decide +kernel
  exact {
    found := rfl
    rows := Published.load_tariff .monthly
    values := ⟨_, ok_of_toOption hvalues⟩
    employee := ⟨_, ok_of_toOption hload⟩
    later := hlater
    year := hyear
    pendingSalaryDays := by nofun
    pendingVacationDays := by nofun
    otherDeductions := ⟨ha, hd⟩
    amounts := hamounts
    salary := .inr hsalary }

/-- With deductions of nothing the settlement is classified; with the same nothing of an exponent beyond
every context it is refused. -/
theorem dismissal_classified : ∃ s,
    calculate .standard monthlyTables (dismissal (.given (.text "0"))) = .ok s ∧ Classified .standard s ∧
    s.asOrdinary = false ∧ s.separationTaxable = 66359.70 ∧
    calculate .standard monthlyTables (dismissal (.given (.text "0E+999999999999999999"))) =
      .error .digitLimit := by
  have hzero {e : Int} : (⟨false, 0, e⟩ : Decimal).Upto 6 :=
    ⟨(Decimal.value_zero _ _).ge, (Decimal.value_zero _ _).trans_le (by norm_num)⟩
  have hplain : (Amount.given (.text "0")).toDecimal = .ok ⟨false, 0, 0⟩ :=
    ok_of_toOption (by decide +kernel)
  have hhuge : (Amount.given (.text "0E+999999999999999999")).toDecimal =
      .ok ⟨false, 0, 999999999999999999⟩ := ok_of_toOption (by decide +kernel)
  have hrun : ((calculate .standard monthlyTables (dismissal (.given (.text "0")))).toOption.map
      fun s => (s.asOrdinary, s.separationTaxable)) = some (false, 66359.70) := by
    decide +kernel
  obtain ⟨s, hs, hparts⟩ := Option.map_eq_some_iff.1 hrun
  have hs := ok_of_toOption hs
  simp only [Prod.mk.injEq] at hparts
  have hwithin : ¬BeyondContexts RoundingPolicy.standard.places ⟨false, 0, 0⟩ := by decide +kernel
  obtain ⟨-, s', hs', hclassified⟩ :=
    (calculate_classified (by decide) (settleable_dismissal hplain hzero)).resolve_right
      fun h => hwithin h.1
  obtain rfl := Except.ok.inj (hs.symm.trans hs')
  refine ⟨s, hs, hclassified, hparts.1, hparts.2, ?_⟩
  have hbeyond : BeyondContexts RoundingPolicy.standard.places ⟨false, 0, 999999999999999999⟩ := by
    decide +kernel
  have hrefused := (calculate_classified (by decide) (settleable_dismissal hhuge hzero)).resolve_left
    fun h => h.1 hbeyond
  exact hrefused.2.2

end Settlement

end Payroll
