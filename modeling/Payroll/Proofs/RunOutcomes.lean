import Mathlib
import Payroll.Proofs.AuditedFormulas
import Payroll.Proofs.ConfigurationStates
import Payroll.Proofs.DatedCalls
import Payroll.Proofs.PublishedYears
import Payroll.Proofs.TrailQuestions

/-!
How the run of a period ends. Its entries are dated like itself, its calculations have all their totals, and
it fails as a whole for the rounding of the company, for a year without tables or for a total that is too
large.
-/

namespace Payroll

open Result
open Recording (document)

/-- Without table files, a year is refused for its length or for having no tables. -/
theorem Configuration.loadTables_fails {c : Configuration} (h : c.tableFiles = []) (year : Int) :
    FailsIn (fun f => f.isValueFault = true ∨ f.kind = .noTables) (c.loadTables year) := by
  by_cases hyear : digitCount year.natAbs ≤ Record.maxIntegerText
  · obtain ⟨t, ht, -⟩ | ⟨file, hfile⟩ := loadTables_settles h hyear
    · exact ht ▸ .ok t
    · exact hfile ▸ .error (.inr rfl)
  · have hlong : c.loadTables year = .error .integerLength := by
      have hyears : TableFiles.years [] = .ok (TableFiles.descending (Published.all.map (·.1))) := rfl
      rw [loadTables, h, TableFiles.load, hyears]
      simp only [bind, Except.bind, if_pos (not_le.1 hyear)]
      rfl
    exact hlong ▸ .error (.inl rfl)

namespace Engine

variable {c : Configuration} {now : Instant} {id company : String} {r : Request} {period : Period}
  {employees : List (Employee × Json)} {e e' : Engine}

/-! ### The times of entries -/

theorem dated_calculate (hnow : now.offset.isSome = true) (he : e.Sound) (hemployee : r.employee.Loaded)
    (hperiod : r.period.Loaded) (hdated : e.trail.Dated) :
    (perform (calculate c now id r) e).2.trail.Dated := by
  obtain ⟨es, hdocuments, hmade, -⟩ :=
    exists_entries_calculateBy (x := ⟨id, now, fun _ => now, r⟩) c he hemployee hperiod
  have hcall : (⟨id, now, fun _ => now, r⟩ : Call).run c e = perform (calculate c now id r) e := by
    rw [Call.run, calculateBy_const]
    rfl
  rw [hcall] at hdocuments
  intro d hd entry hentry
  rw [hdocuments] at hd
  rcases List.mem_append.1 hd with hd | hd
  · exact hdated d hd entry hentry
  · obtain ⟨made, hmem, rfl⟩ := List.mem_map.1 hd
    have hmade := hmade made hmem
    cases hmade.load.symm.trans hentry
    obtain ⟨_, htime⟩ := hmade.dated
    exact htime ▸ hnow

theorem kept_calculate (hnow : now.offset.isSome = true) (he : e.Sound) (hemployee : r.employee.Loaded)
    (hperiod : r.period.Loaded) (hfree : Recording.Unused e.trail id 1) :
    (perform (calculate c now id r) e).2.Sound ∧
      (e.trail.Dated → (perform (calculate c now id r) e).2.trail.Dated) :=
  ⟨(sound_calculate c now he hemployee hperiod hfree).1, dated_calculate hnow he hemployee hperiod⟩

theorem kept_attemptFrom (c : Configuration) (hnow : now.offset.isSome = true) (he : e.Sound)
    (hdated : e.trail.Dated) (rs : List Request) (k : Nat)
    (hloaded : ∀ r ∈ rs, r.employee.Loaded ∧ r.period.Loaded)
    (hfree : ∀ j, k ≤ j → Recording.Unused e.trail s!"{id}.{j}" 1) :
    ((attemptFrom c now id k rs).run e).2.Sound ∧ ((attemptFrom c now id k rs).run e).2.trail.Dated := by
  refine And.imp_right (· hdated) (relates_attemptFrom
    (R := fun e e' => e'.Sound ∧ (e.trail.Dated → e'.trail.Dated)) (fun _ he => ⟨he, fun h => h⟩)
    (fun _ _ _ h h' => ⟨h'.1, fun hdated => h'.2 (h.2 hdated)⟩) (fun r hr e he id hfree => ?_) he hloaded
    hfree)
  exact kept_calculate hnow he (hloaded r hr).1 (hloaded r hr).2 hfree

theorem kept_runPeriod (c : Configuration) (company : String) (hnow : now.offset.isSome = true)
    (he : e.Sound) (hdated : e.trail.Dated)
    (hfree : ∀ k : Nat, Recording.Unused e.trail s!"{id}.{k}" 1) (hperiod : period.Loaded)
    (hemployees : ∀ p ∈ employees, p.1.Loaded) :
    (perform (runPeriod c now id company period employees) e).2.Sound ∧
      (perform (runPeriod c now id company period employees) e).2.trail.Dated := by
  refine And.imp_right (· hdated) (relates_runPeriod
    (R := fun e e' => e'.Sound ∧ (e.trail.Dated → e'.trail.Dated))
    (fun _ _ hsound _ htrail => ⟨hsound, fun h => htrail ▸ h⟩)
    (fun _ _ _ h h' => ⟨h'.1, fun hdated => h'.2 (h.2 hdated)⟩) ?_ he hfree hperiod hemployees)
  rintro r - hemployee hperiod e he id hfree
  exact kept_calculate hnow he hemployee hperiod hfree

/-! ### The totals of calculations -/

/-- All totals of a calculation are there. -/
def Recorded.Totalled (r : Recorded) : Prop :=
  (∃ d, r.calculation.taxableIncome = .ok d) ∧ ∃ d, r.calculation.netPay = .ok d

theorem totalled_of_calculate {recorded : Recorded}
    (h : perform (calculate c now id r) e = (.ok recorded, e')) : recorded.Totalled := by
  rcases hp : perform (prepare c id r) e with ⟨f | p, e₁⟩
  · rw [perform_calculate_error hp] at h
    cases h
  · obtain ⟨_, _, -, -, -, -, -, -, hcompute⟩ := prepare_eq_ok hp
    obtain ⟨-, -, ⟨steps⟩⟩ := Calculation.compute_eq_ok hcompute
    rw [perform_calculate_ok hp] at h
    obtain ⟨entries, -, hresult⟩ := bind_eq_ok.1 (congrArg Prod.fst h)
    obtain ⟨net, hnet, hresult⟩ := bind_eq_ok.1 hresult
    cases hresult
    exact ⟨⟨_, steps.taxableIncome⟩, net, hnet⟩

theorem run_attemptFrom_cons {rs : List Request} {k : Nat} :
    (attemptFrom c now id k (r :: rs)).run e =
      ((r.employee.id, (perform (calculate c now s!"{id}.{k}" r) e).1) ::
          ((attemptFrom c now id (k + 1) rs).run (perform (calculate c now s!"{id}.{k}" r) e).2).1,
        ((attemptFrom c now id (k + 1) rs).run (perform (calculate c now s!"{id}.{k}" r) e).2).2) := rfl

theorem totalled_attemptFrom (c : Configuration) (now : Instant) (id : String) (rs : List Request)
    (k : Nat) (e : Engine) :
    ∀ o ∈ ((attemptFrom c now id k rs).run e).1, ∀ recorded, o.2 = .ok recorded → recorded.Totalled := by
  induction rs generalizing e k with
  | nil => exact fun _ ho => absurd ho List.not_mem_nil
  | cons r rs ih =>
      rw [run_attemptFrom_cons]
      refine List.forall_mem_cons.2 ⟨fun recorded hrecorded => ?_, ih _ _⟩
      exact totalled_of_calculate (Prod.ext hrecorded rfl)

/-! ### The faults of a run -/

theorem endsIn_bind {α β : Type} {P : α → Prop} {Q : β → Prop} {F : Fault → Prop} {x : Action α}
    {f : α → Action β} (hx : EndsIn P F (perform x e).1)
    (hf : ∀ a e', perform x e = (.ok a, e') → EndsIn Q F (perform (f a) e').1) :
    EndsIn Q F (perform (x >>= f) e).1 := by
  rw [perform_bind]
  rcases hp : perform x e with ⟨fault | a, e'⟩
  · rw [hp] at hx
    exact hx
  · exact hf a e' hp

theorem policy_ends (h : lookUp company e.policies = none) :
    EndsIn (fun _ => True) (fun f => c.roundingPolicy company = .error f)
      (perform (policy c company) e).1 := by
  rw [policy, perform_bind, perform_get]
  simp only [h]
  rw [perform_bind, perform_lift]
  cases c.roundingPolicy company with
  | error f => rfl
  | ok p => trivial

theorem tablesFor_ends {year : Int} (h : lookUp year e.tables = none) :
    EndsIn (fun _ => True) (fun f => c.loadTables year = .error f) (perform (tablesFor c year) e).1 := by
  rw [tablesFor, perform_bind, perform_get]
  simp only [h]
  rw [perform_bind, perform_lift]
  cases c.loadTables year with
  | error f => rfl
  | ok t => trivial

/-- The faults that stop a run as a whole. -/
inductive Stops (c : Configuration) (company : String) (f : Fault) : Prop
  | rounding (h : c.Misreads company f)
  | value (h : f.isValueFault = true)
  | noTables (h : f.kind = .noTables)
  | total (h : f = .arithmetic .overflow)

theorem runPeriod_ends (company : String) (hc : c.Written) (hnow : now.offset.isSome = true)
    (hpolicies : e.policies = []) (htables : e.tables = []) (he : e.Sound) (hdated : e.trail.Dated)
    (hfree : ∀ k : Nat, Recording.Unused e.trail s!"{id}.{k}" 1) (hperiod : period.Loaded)
    (hemployees : ∀ p ∈ employees, p.1.Loaded) :
    EndsIn (fun run => ∀ r ∈ run.calculations, r.Totalled) (Stops c company)
      (perform (runPeriod c now id company period employees) e).1 := by
  have hpolicy : EndsIn (fun _ => True) (Stops c company) (perform (policy c company) e).1 :=
    (policy_ends (by rw [hpolicies]; rfl)).mono (fun _ h => h) fun f hf =>
      .rounding (Configuration.roundingPolicy_fails hc company f hf)
  refine endsIn_bind hpolicy fun _ e₁ h₁ => ?_
  have hkept₁ := keeps_policy (P := fun e' => e'.Sound ∧ e'.trail = e.trail ∧ e'.tables = [])
    (c := c) (fun _ _ h => ⟨h.1.putPolicies _, h.2⟩) company e ⟨he, rfl, htables⟩
  rw [h₁] at hkept₁
  obtain ⟨hsound₁, htrail₁, htables₁⟩ := hkept₁
  have hloaded : EndsIn (fun _ => True) (Stops c company) (perform (tablesFor c period.year) e₁).1 := by
    refine (tablesFor_ends (by rw [htables₁]; rfl)).mono (fun _ h => h) fun f hf => ?_
    exact (Configuration.loadTables_fails hc.tableFiles _ f hf).elim .value .noTables
  refine endsIn_bind hloaded fun _ e₂ h₂ => ?_
  have hkept₂ : Keeps (fun e' => e'.Sound ∧ e'.trail = e.trail) (tablesFor c period.year) :=
    keeps_tablesFor fun _ _ h ht => ⟨h.1.putTables ht, h.2⟩
  have hkept₂ := hkept₂ e₁ ⟨hsound₁, htrail₁⟩
  rw [h₂] at hkept₂
  obtain ⟨hsound₂, htrail₂⟩ := hkept₂
  simp only
  rw [perform_attempts]
  have hrequests : ∀ r ∈ employees.map fun x =>
      ({ company, employee := x.1, period, overrides := x.2 } : Request),
      r.employee.Loaded ∧ r.period.Loaded := by
    intro r hr
    obtain ⟨x, hx, rfl⟩ := List.mem_map.1 hr
    exact ⟨hemployees x hx, hperiod⟩
  generalize employees.map (fun x =>
    ({ company, employee := x.1, period, overrides := x.2 } : Request)) = rs at hrequests ⊢
  obtain ⟨hsound₃, hdated₃⟩ := kept_attemptFrom c hnow hsound₂ (htrail₂ ▸ hdated) rs 1 hrequests
    fun j _ => htrail₂ ▸ hfree j
  have htotalled := totalled_attemptFrom c now id rs 1 e₂
  generalize (attemptFrom c now id 1 rs).run e₂ = attempts at hsound₃ hdated₃ htotalled ⊢
  obtain ⟨outcomes, e₃⟩ := attempts
  have hsummary : EndsIn (fun _ => True) (Stops c company)
      (perform (liftM (e₃.trail.summarize (.text period.id))) e₃).1 := by
    rw [perform_lift]
    exact (AuditTrail.summarize_overflows hsound₃.trail hdated₃ _).endsIn.mono
      (fun _ _ => trivial) fun _ => .total
  rw [perform_bind, perform_get]
  refine endsIn_bind hsummary fun summary _ _ r hr => ?_
  obtain ⟨o, ho, hr⟩ := List.mem_filterMap.1 hr
  exact htotalled o ho r (ok_of_toOption hr)

end Engine

end Payroll
