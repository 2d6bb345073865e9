import Mathlib
import Payroll.Engine
import Payroll.Proofs.Results

/-!
Actions on an engine and the calculations they make, taken apart step by step.
-/

namespace Payroll.Calculation

open Result
open Formula (Bindings)

/-- What the steps of a calculation gave on the way to its amounts. -/
structure Steps (cfg : Configuration) (s : Setting) (values : Bindings)
    (versions : List FormulaVersion) (c : Calculation) where
  withTotal : Bindings
  withTaxable : Bindings
  skippedFirst : List SkippedConcept
  skippedThen : List SkippedConcept
  taxable : Decimal
  table : BracketTable IsrTerms
  risk : Json
  days : Int
  perceptions : evaluateConcepts s values (ofKind .perception versions) =
    .ok (c.perceptions, skippedFirst)
  total : provide s.overrides .totalPerceptions (totalValue c.perceptions) values = .ok withTotal
  income : provide s.overrides .taxableIncome (totalTaxable c.perceptions) withTotal =
    .ok withTaxable
  deductions : evaluateConcepts s withTaxable (ofKind .deduction versions) =
    .ok (c.deductions, skippedThen)
  skipped : c.skipped = skippedFirst ++ skippedThen
  taxableIncome : totalTaxable c.perceptions = .ok taxable
  isrTable : s.tables.isrTable s.period.kind.name = .ok table
  tax : Isr.withSubsidy s.policy table (s.tables.subsidyTable s.period.kind.name) taxable = .ok c.isr
  riskClass : riskClass cfg s = .ok risk
  contributionDays : contributionDays withTaxable = .ok days
  contributions : Imss.calculate s.policy s.tables.published.imss s.tables.values s.tables.riskRates
    (contributionBase s withTaxable) days risk = .ok c.imss

theorem compute_eq_ok {cfg : Configuration} {s : Setting} {values : Bindings} {detail id : String}
    {versions : List FormulaVersion} {c : Calculation}
    (h : compute cfg s values detail id versions = .ok c) :
    c.detail = detail ∧ c.id = id ∧ Nonempty (Steps cfg s values versions c) := by
  obtain ⟨⟨_, _⟩, perceptions, h⟩ := bind_eq_ok.1 h
  obtain ⟨_, total, h⟩ := bind_eq_ok.1 h
  obtain ⟨_, income, h⟩ := bind_eq_ok.1 h
  obtain ⟨⟨_, _⟩, deductions, h⟩ := bind_eq_ok.1 h
  obtain ⟨_, taxable, h⟩ := bind_eq_ok.1 h
  obtain ⟨_, isrTable, h⟩ := bind_eq_ok.1 h
  obtain ⟨_, tax, h⟩ := bind_eq_ok.1 h
  obtain ⟨_, risk, h⟩ := bind_eq_ok.1 h
  obtain ⟨_, days, h⟩ := bind_eq_ok.1 h
  obtain ⟨_, contributions, h⟩ := bind_eq_ok.1 h
  cases h
  exact ⟨rfl, rfl, ⟨_, _, _, _, _, _, _, _, perceptions, total, income, deductions, rfl, taxable,
    isrTable, tax, risk, days, contributions⟩⟩

end Payroll.Calculation

namespace Payroll.Engine

open Result

variable {α β : Type} {e : Engine}

/-- What an action gives, and the engine after it. -/
def perform (x : Action α) (e : Engine) : Except Fault α × Engine := x.run.run e

theorem perform_bind (x : Action α) (f : α → Action β) : perform (x >>= f) e =
    match perform x e with
    | (.ok a, e') => perform (f a) e'
    | (.error err, e') => (.error err, e') := by
  change ExceptT.bindCont f (perform x e).1 (perform x e).2 = _
  rcases perform x e with ⟨a | a, s⟩ <;> rfl

theorem perform_lift (x : Except Fault α) : perform (liftM x) e = (x, e) := by
  cases x <;> rfl

theorem perform_bind_eq_ok {x : Action α} {f : α → Action β} {b : β} {e' : Engine} :
    perform (x >>= f) e = (.ok b, e') ↔
      ∃ a e₁, perform x e = (.ok a, e₁) ∧ perform (f a) e₁ = (.ok b, e') := by
  rw [perform_bind]
  rcases perform x e with ⟨a | a, e₁⟩ <;> simp

theorem perform_lift_eq_ok {x : Except Fault α} {a : α} {e' : Engine} :
    perform (liftM x) e = (.ok a, e') ↔ x = .ok a ∧ e' = e := by
  rw [perform_lift, Prod.mk.injEq, @eq_comm _ e]

theorem perform_get : perform get e = (.ok e, e) := rfl

theorem perform_get_eq_ok {a e' : Engine} : perform get e = (.ok a, e') ↔ a = e ∧ e' = e := by
  rw [perform_get, Prod.mk.injEq, Except.ok.injEq, @eq_comm _ e, @eq_comm _ e]

/-- What holds before an action holds after it, also when it fails. -/
def Keeps (P : Engine → Prop) (x : Action α) : Prop := ∀ e, P e → P (perform x e).2

variable {P : Engine → Prop}

theorem keeps_pure (a : α) : Keeps P (pure a) := fun _ he => he

theorem keeps_get : Keeps P get := fun _ he => he

theorem keeps_lift (x : Except Fault α) : Keeps P (liftM x) := by
  intro e he
  rw [perform_lift]
  exact he

/-- An action that stops keeps what held before it, so that what follows from this is there too. -/
theorem bind_of_keeps {Q : Engine → Prop} {x : Action α} {f : α → Action β} (hx : Keeps P x)
    (hstop : ∀ e, P e → Q e) (hf : ∀ a e, P e → Q (perform (f a) e).2) (he : P e) :
    Q (perform (x >>= f) e).2 := by
  have h := hx e he
  rw [perform_bind]
  rcases hp : perform x e with ⟨a | a, e'⟩
  · rw [hp] at h
    exact hstop e' h
  · rw [hp] at h
    exact hf a e' h

theorem keeps_bind {x : Action α} {f : α → Action β} (hx : Keeps P x) (hf : ∀ a, Keeps P (f a)) :
    Keeps P (x >>= f) := fun _ he => bind_of_keeps hx (fun _ h => h) hf he

/-- What an action goes on with is what the value before it gave. -/
theorem keeps_lift_bind {x : Except Fault α} {f : α → Action β}
    (hf : ∀ a, x = .ok a → Keeps P (f a)) : Keeps P (liftM x >>= f) := by
  intro e he
  rw [perform_bind, perform_lift]
  cases hx : x with
  | error f => exact he
  | ok a => exact hf a hx e he

variable {c : Configuration} {now : Instant} {id : String} {r : Request} {e' : Engine}

theorem keeps_policy (h : ∀ e policies, P e → P { e with policies }) (company : String) :
    Keeps P (policy c company) := by
  refine keeps_bind keeps_get fun e => ?_
  split
  · exact keeps_pure _
  · refine keeps_bind (keeps_lift _) fun p => ?_
    exact keeps_bind (fun e he => h e _ he) fun _ => keeps_pure p

theorem keeps_tablesFor {year : Int} (h : ∀ e t, P e → c.loadTables year = .ok t →
    P { e with tables := putEntry year t e.tables }) : Keeps P (tablesFor c year) := by
  refine keeps_bind keeps_get fun e => ?_
  split
  · exact keeps_pure _
  · refine keeps_lift_bind fun t ht => ?_
    exact keeps_bind (fun e he => h e t he ht) fun _ => keeps_pure t

theorem keeps_prepare (hp : ∀ e policies, P e → P { e with policies })
    (ht : ∀ e t, P e → c.loadTables r.period.year = .ok t →
      P { e with tables := putEntry r.period.year t e.tables }) : Keeps P (prepare c id r) := by
  refine keeps_bind (keeps_policy hp _) fun _ => ?_
  refine keeps_bind (keeps_tablesFor ht) fun _ => ?_
  refine keeps_bind (keeps_lift _) fun _ => ?_
  refine keeps_bind (keeps_lift _) fun _ => ?_
  refine keeps_bind keeps_get fun _ => ?_
  refine keeps_bind (keeps_lift _) fun _ => ?_
  refine keeps_bind (keeps_lift _) fun _ => ?_
  exact keeps_pure _

/-- A calculation that is not recorded leaves the stored formulas and the audit trail alone. -/
theorem reads_prepare (c : Configuration) (id : String) (r : Request) (e : Engine) :
    (perform (prepare c id r) e).2.store = e.store ∧
      (perform (prepare c id r) e).2.trail = e.trail ∧
      (perform (prepare c id r) e).2.author = e.author :=
  keeps_prepare (P := fun e' => e'.store = e.store ∧ e'.trail = e.trail ∧ e'.author = e.author)
    (fun _ _ he => he) (fun _ _ he _ => he) e ⟨rfl, rfl, rfl⟩

theorem prepare_eq_ok {p : Prepared} (h : perform (prepare c id r) e = (.ok p, e')) :
    ∃ e₁ values, perform (policy c r.company) e = (.ok p.setting.policy, e₁) ∧
      perform (tablesFor c r.period.year) e₁ = (.ok p.setting.tables, e') ∧
      p.setting.employee = r.employee ∧ p.setting.period = r.period ∧
      Formula.bindings r.employee r.period p.setting.tables.values p.setting.overrides =
        .ok values ∧
      versionsOn e'.store r.company r.target = .ok p.versions ∧
      Calculation.compute c p.setting values r.detailId id p.versions = .ok p.calculation := by
  obtain ⟨_, e₁, hpolicy, h⟩ := perform_bind_eq_ok.1 h
  obtain ⟨_, _, htables, h⟩ := perform_bind_eq_ok.1 h
  obtain ⟨_, _, hoverrides, h⟩ := perform_bind_eq_ok.1 h
  obtain ⟨values, _, hvalues, h⟩ := perform_bind_eq_ok.1 h
  obtain ⟨_, _, hget, h⟩ := perform_bind_eq_ok.1 h
  obtain ⟨_, _, hversions, h⟩ := perform_bind_eq_ok.1 h
  obtain ⟨_, _, hcompute, h⟩ := perform_bind_eq_ok.1 h
  cases h
  obtain ⟨-, rfl⟩ := perform_lift_eq_ok.1 hoverrides
  obtain ⟨hbound, rfl⟩ := perform_lift_eq_ok.1 hvalues
  obtain ⟨rfl, rfl⟩ := perform_get_eq_ok.1 hget
  obtain ⟨hfound, rfl⟩ := perform_lift_eq_ok.1 hversions
  obtain ⟨hcomputed, rfl⟩ := perform_lift_eq_ok.1 hcompute
  exact ⟨e₁, values, hpolicy, htables, rfl, rfl, hbound, hfound, hcomputed⟩

theorem perform_record {p : Prepared} : perform (record now p) e =
    ((Recording.store e.trail ⟨now, e.author⟩ p.setting p.versions p.calculation).2,
      { e with trail :=
        (Recording.store e.trail ⟨now, e.author⟩ p.setting p.versions p.calculation).1 }) := by
  have hrun : perform (record now p) e =
      perform (liftM (Recording.store e.trail ⟨now, e.author⟩ p.setting p.versions p.calculation).2)
        { e with trail :=
          (Recording.store e.trail ⟨now, e.author⟩ p.setting p.versions p.calculation).1 } := rfl
  rw [hrun, perform_lift]

/-- What storing the entries of a prepared calculation leaves and gives. -/
def stored (now : Instant) (p : Prepared) (e : Engine) : AuditTrail × Except Fault (List String) :=
  Recording.store e.trail ⟨now, e.author⟩ p.setting p.versions p.calculation

section

variable {recording : Prepared → Action (List String)} {p : Prepared} {e'' : Engine}

/-- A calculation that records its entries in some way. -/
def recorded (c : Configuration) (id : String) (r : Request)
    (recording : Prepared → Action (List String)) : Action Recorded := do
  let p ← prepare c id r
  let entries ← recording p
  let _ ← p.calculation.netPay
  pure ⟨p.calculation, entries⟩

theorem perform_recorded_error {f : Fault} (h : perform (prepare c id r) e = (.error f, e')) :
    perform (recorded c id r recording) e = (.error f, e') := by
  rw [recorded]
  rw [perform_bind, h]

theorem perform_recorded_ok {result : Except Fault (List String)}
    (h : perform (prepare c id r) e = (.ok p, e')) (hrecord : perform (recording p) e' = (result, e'')) :
    perform (recorded c id r recording) e =
      (result >>= fun entries => p.calculation.netPay >>= fun _ => pure ⟨p.calculation, entries⟩,
        e'') := by
  rw [recorded]
  rw [perform_bind, h]
  simp only
  rw [perform_bind, hrecord]
  rcases result with f | entries
  · rfl
  · simp only
    rw [perform_bind, perform_lift]
    rcases p.calculation.netPay with f | d <;> rfl

end

theorem perform_calculate_error {f : Fault} (h : perform (prepare c id r) e = (.error f, e')) :
    perform (calculate c now id r) e = (.error f, e') := perform_recorded_error h

theorem perform_calculate_ok {p : Prepared} (h : perform (prepare c id r) e = (.ok p, e')) :
    perform (calculate c now id r) e =
      ((stored now p e').2 >>= fun entries => p.calculation.netPay >>= fun _ =>
        pure ⟨p.calculation, entries⟩, { e' with trail := (stored now p e').1 }) :=
  perform_recorded_ok h perform_record

end Payroll.Engine
