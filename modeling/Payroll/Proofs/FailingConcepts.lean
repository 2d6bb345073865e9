import Mathlib
import Payroll.Proofs.AuditReplay
import Payroll.Proofs.ConceptCoverage
import Payroll.Proofs.Faults

/-!
A concept that fails. A calculation with one more formula under a new concept is the one without it,
with the concept skipped, unless the formula fails with a fault that no concept is skipped for.
-/

namespace Payroll

open Result

/-! ### One more concept in the store -/

namespace FormulaStore

variable {store next : FormulaStore} {company concept : String} {codes : List String}

/-- Sorting puts a new name somewhere among the others. -/
theorem exists_sortNames_append (names : List String) (name : String) :
    ∃ before after, Formula.sortNames names = before ++ after ∧
      Formula.sortNames (names ++ [name]) = before ++ name :: after := by
  have hsorted (xs : List String) : (Formula.sortNames xs).Pairwise (· ≤ ·) := by
    have h : (Formula.sortNames xs).Pairwise fun a b => decide (a ≤ b) = true := by
      refine List.pairwise_mergeSort ?_ ?_ xs
      · simp only [decide_eq_true_eq]
        exact fun a b c => le_trans
      · simp only [Bool.or_eq_true, decide_eq_true_eq]
        exact le_total
    simpa using h
  have hperm (xs : List String) : (Formula.sortNames xs).Perm xs := List.mergeSort_perm _ _
  have hmem : name ∈ Formula.sortNames (names ++ [name]) := (hperm _).mem_iff.2 (by simp)
  obtain ⟨before, after, h⟩ := List.append_of_mem hmem
  refine ⟨before, after, ?_, h⟩
  have hrest : (before ++ after).Pairwise (· ≤ ·) := by
    refine List.Pairwise.sublist ?_ (h ▸ hsorted (names ++ [name]))
    exact List.Sublist.append_left (List.sublist_cons_self name after) before
  have hsame : (Formula.sortNames names).Perm (before ++ after) := by
    have hall : (name :: (before ++ after)).Perm (name :: names) :=
      (List.perm_middle.symm.trans (h ▸ hperm (names ++ [name]))).trans
        (List.perm_append_singleton name names)
    exact (hperm names).trans hall.cons_inv.symm
  exact List.Perm.eq_of_pairwise (fun a b _ _ => le_antisymm) (hsorted names) hrest hsame

/-- The concepts of a company after a write to one of them. -/
theorem names_putScope (s : Scope) (ss : List Scope) :
    ((putScope s ss).filter fun t => t.company == s.company).map (·.concept) =
      let names := (ss.filter fun t => t.company == s.company).map (·.concept)
      if s.concept ∈ names then names else names ++ [s.concept] := by
  induction ss with
  | nil => simp [putScope]
  | cons t ts ih =>
      simp only at ih ⊢
      rw [putScope]
      by_cases hcompany : t.company = s.company
      · by_cases hconcept : t.concept = s.concept
        · simp [hcompany, hconcept]
        · rw [if_neg (by simp [hconcept]), List.filter_cons_of_pos (by simpa using hcompany),
            List.filter_cons_of_pos (by simpa using hcompany), List.map_cons, List.map_cons, ih]
          simp only [List.mem_cons, Ne.symm hconcept, false_or]
          split <;> rfl
      · rw [if_neg (by simp [hcompany]), List.filter_cons_of_neg (by simpa using hcompany),
          List.filter_cons_of_neg (by simpa using hcompany), ih]

/-- A new concept stands somewhere among the others, or had a place already. -/
theorem concepts_withRows (rows : List FormulaVersion)
    (h : store.concepts (.text company) = .ok codes) :
    ∃ before after, (store.withRows company concept rows).concepts (.text company) =
        .ok (before ++ concept :: after) ∧
      (codes = before ++ after ∨ codes = before ++ concept :: after) := by
  obtain ⟨key, hkey, h⟩ := bind_eq_ok.1 h
  cases h
  obtain ⟨hsafe, rfl⟩ := Key.check_eq_ok.1 hkey
  have hnames := names_putScope ⟨key, concept, (store.scope key concept).revision + 1, rows⟩
    store.scopes
  have hconcepts : (store.withRows key concept rows).concepts (.text key) =
      .ok (Formula.sortNames (((store.withRows key concept rows).scopes.filter
        fun t => t.company == key).map (·.concept))) :=
    bind_eq_ok.2 ⟨key, hkey, rfl⟩
  rw [hconcepts, withRows]
  simp only at hnames
  rw [hnames]
  split
  · next hmem =>
    obtain ⟨before, after, hsplit⟩ := List.append_of_mem
      ((List.mergeSort_perm _ (fun a b => decide (a ≤ b))).mem_iff.2 hmem)
    exact ⟨before, after, congrArg _ hsplit, .inr hsplit⟩
  · obtain ⟨before, after, hbefore, hafter⟩ := exists_sortNames_append
      ((store.scopes.filter fun t => t.company == key).map (·.concept)) concept
    exact ⟨before, after, congrArg _ hafter, .inl hbefore⟩

end FormulaStore

namespace Engine

open FormulaStore

variable {store next : FormulaStore} {company : String} {target : Date} {codes : List String}
  {versions : List FormulaVersion} {row : FormulaVersion}

/-- The version of a concept that applies on a date, if it has one. -/
def versionFor (store : FormulaStore) (company : String) (target : Date) (code : String) :
    Option FormulaVersion :=
  (Version.resolve (store.scope company code).rows target).map (·.row)

theorem resolveOn_eq_ok {code : String} {o : Option Version.Resolved} :
    store.resolveOn (.text company) (.text code) target = .ok o ↔
      Key.isSafe company = true ∧ Key.isSafe code = true ∧
        Version.resolve (store.scope company code).rows target = o := by
  unfold resolveOn scopeOf
  simp only [bind_eq_ok, Key.check_eq_ok, pure_eq_ok]
  constructor
  · rintro ⟨s, ⟨_, ⟨hcompany, rfl⟩, _, ⟨hcode, rfl⟩, rfl⟩, h⟩
    exact ⟨hcompany, hcode, h⟩
  · rintro ⟨hcompany, hcode, h⟩
    exact ⟨_, ⟨_, ⟨hcompany, rfl⟩, _, ⟨hcode, rfl⟩, rfl⟩, h⟩

theorem versionsOn_iff (h : store.concepts (.text company) = .ok codes) :
    versionsOn store company target = .ok versions ↔
      (∀ code ∈ codes, Key.isSafe code = true) ∧
        codes.filterMap (versionFor store company target) = versions := by
  have hcompany : Key.isSafe company = true := by
    obtain ⟨_, hkey, -⟩ := bind_eq_ok.1 h
    exact (Key.check_eq_ok.1 hkey).1
  have hrows : (codes.map fun code =>
      Version.resolve (store.scope company code).rows target).filterMap (fun r => r.map (·.row)) =
        codes.filterMap (versionFor store company target) := List.filterMap_map ..
  unfold versionsOn
  simp only [bind_eq_ok, h, Except.ok.injEq, exists_eq_left', pure_eq_ok]
  constructor
  · rintro ⟨found, hfound, rfl⟩
    have hsafe : ∀ code ∈ codes, Key.isSafe code = true := fun code hcode => by
      obtain ⟨o, ho⟩ := exists_mapM_eq_ok.1 ⟨found, hfound⟩ code hcode
      exact (resolveOn_eq_ok.1 ho).2.1
    rw [mapM_eq_map fun code hcode => resolveOn_eq_ok.2 ⟨hcompany, hsafe code hcode, rfl⟩] at hfound
    cases hfound
    exact ⟨hsafe, hrows.symm⟩
  · rintro ⟨hsafe, rfl⟩
    exact ⟨_, mapM_eq_map fun code hcode => resolveOn_eq_ok.2 ⟨hcompany, hsafe code hcode, rfl⟩,
      hrows⟩

/-- A version in a new concept is one more among those of its company, wherever its window lies. -/
theorem versionsOn_withRows (hr : Reachable (store.withRows company row.concept [row]))
    (hactive : row.active = true) (hsafe : Key.isSafe row.concept = true)
    (hnew : (store.scope company row.concept).rows = [])
    (h : versionsOn store company target = .ok versions) :
    ∃ before after, versions = before ++ after ∧
      versionsOn (store.withRows company row.concept [row]) company target =
        .ok (before ++ row :: after) := by
  obtain ⟨codes, hcodes, -⟩ := bind_eq_ok.1 h
  obtain ⟨hall, rfl⟩ := (versionsOn_iff hcodes).1 h
  obtain ⟨before, after, hnext, hsplit⟩ := concepts_withRows [row] hcodes
  have hnodup := nodup_concepts hr hnext
  -- the other concepts are resolved as before
  have hothers (xs : List String) (hx : row.concept ∉ xs) :
      xs.filterMap (versionFor (store.withRows company row.concept [row]) company target) =
        xs.filterMap (versionFor store company target) := by
    refine List.filterMap_congr fun code hcode => ?_
    have hne : ¬(company = company ∧ row.concept = code) := by
      rintro ⟨-, rfl⟩
      exact hx hcode
    rw [versionFor, versionFor, scope_withRows_of_ne hne]
  have hrow : versionFor (store.withRows company row.concept [row]) company target row.concept =
      some row := by
    have hsome : (Version.resolve [row] target).isSome = true := by
      rw [Version.isSome_resolve]
      simp [hactive]
    obtain ⟨o, ho⟩ := Option.isSome_iff_exists.1 hsome
    rw [versionFor, scope_withRows, ho]
    exact congrArg some (List.mem_singleton.1 (Version.resolve_eq_some ho).1)
  have hnone : versionFor store company target row.concept = none := by
    rw [versionFor, hnew]
    rfl
  rw [List.nodup_middle, List.nodup_cons, List.mem_append, not_or] at hnodup
  refine ⟨before.filterMap (versionFor store company target),
    after.filterMap (versionFor store company target), ?_, (versionsOn_iff hnext).2 ⟨?_, ?_⟩⟩
  · rcases hsplit with rfl | rfl
    · rw [List.filterMap_append]
    · rw [List.filterMap_append, List.filterMap_cons_none hnone]
  · intro code hcode
    rcases List.mem_append.1 hcode with hcode | hcode
    · exact hall code (by rcases hsplit with rfl | rfl <;> simp [hcode])
    · rcases List.mem_cons.1 hcode with rfl | hcode
      · exact hsafe
      · exact hall code (by rcases hsplit with rfl | rfl <;> simp [hcode])
  · rw [List.filterMap_append, List.filterMap_cons_some hrow, hothers before hnodup.1.1,
      hothers after hnodup.1.2]

end Engine

/-! ### One more formula in a calculation -/

namespace Calculation

open Formula (Bindings)

variable {cfg : Configuration} {s : Setting} {values : Bindings} {v : FormulaVersion} {f : Fault}
  {before after versions : List FormulaVersion} {amounts : List ConceptAmount}
  {skipped : List SkippedConcept} {detail id : String} {c : Calculation}

/-- The value of a concept of an employee. -/
def evaluation (s : Setting) (values : Bindings) (v : FormulaVersion) :
    Except Fault Formula.Outcome :=
  Formula.evaluateWithExemption s.policy (.ofValues values) (exemptionRule v)
    (some s.tables.values) v.expression

/-- What the formulas of a kind are evaluated with: deductions can read what was earned. -/
def bindingsOf (s : Setting) (values : Bindings) (perceptions : List ConceptAmount) :
    ConceptKind → Except Fault Bindings
  | .perception => .ok values
  | .deduction => do
    let withTotal ← provide s.overrides .totalPerceptions (totalValue perceptions) values
    provide s.overrides .taxableIncome (totalTaxable perceptions) withTotal

theorem exists_bindingsOf (h : compute cfg s values detail id versions = .ok c) (kind : ConceptKind) :
    ∃ w, bindingsOf s values c.perceptions kind = .ok w := by
  obtain ⟨-, -, ⟨steps⟩⟩ := compute_eq_ok h
  cases kind with
  | perception => exact ⟨values, rfl⟩
  | deduction => exact ⟨steps.withTaxable, bind_of_eq_ok steps.total steps.income⟩

/-- One name stands between the others. -/
def Inserted (sk : SkippedConcept) (skipped skipped' : List SkippedConcept) : Prop :=
  ∃ before after, skipped = before ++ after ∧ skipped' = before ++ sk :: after

theorem evaluateConcepts_inserted (hv : evaluation s values v = .error f)
    (hf : f.isFormulaFault = true)
    (h : evaluateConcepts s values (before ++ after) = .ok (amounts, skipped)) :
    ∃ skipped', Inserted ⟨v.concept, f.message⟩ skipped skipped' ∧
      evaluateConcepts s values (before ++ v :: after) = .ok (amounts, skipped') := by
  induction before generalizing amounts skipped with
  | nil =>
      refine ⟨⟨v.concept, f.message⟩ :: skipped, ⟨[], skipped, rfl, rfl⟩, ?_⟩
      rw [List.nil_append] at h
      rw [List.nil_append, evaluateConcepts, show Formula.evaluateWithExemption .. = _ from hv]
      simp only [hf, if_true]
      exact bind_eq_ok.2 ⟨_, h, rfl⟩
  | cons w before ih =>
      rw [List.cons_append, evaluateConcepts] at h ⊢
      split at h
      · next outcome hw =>
        obtain ⟨⟨as, ss⟩, hrest, h⟩ := bind_eq_ok.1 h
        cases h
        obtain ⟨skipped', hinserted, hok⟩ := ih hrest
        refine ⟨skipped', hinserted, ?_⟩
        exact bind_eq_ok.2 ⟨_, hok, rfl⟩
      · next g hw =>
        split at h
        · next hg =>
          obtain ⟨⟨as, ss⟩, hrest, h⟩ := bind_eq_ok.1 h
          cases h
          obtain ⟨skipped', ⟨front, back, rfl, rfl⟩, hok⟩ := ih hrest
          refine ⟨⟨w.concept, g.message⟩ :: (front ++ ⟨v.concept, f.message⟩ :: back),
            ⟨⟨w.concept, g.message⟩ :: front, back, rfl, rfl⟩, ?_⟩
          simp only [hg, if_true]
          exact bind_eq_ok.2 ⟨_, hok, rfl⟩
        · cases h

theorem evaluateConcepts_stopped (hv : evaluation s values v = .error f)
    (hf : f.isFormulaFault = false)
    (h : evaluateConcepts s values (before ++ after) = .ok (amounts, skipped)) :
    evaluateConcepts s values (before ++ v :: after) = .error f := by
  induction before generalizing amounts skipped with
  | nil =>
      rw [List.nil_append, evaluateConcepts, show Formula.evaluateWithExemption .. = _ from hv]
      simp [hf]
  | cons w before ih =>
      rw [List.cons_append, evaluateConcepts] at h ⊢
      split at h
      · next outcome hw =>
        obtain ⟨_, hrest, -⟩ := bind_eq_ok.1 h
        rw [ih hrest]
        rfl
      · next g hw =>
        split at h
        · next hg =>
          obtain ⟨_, hrest, -⟩ := bind_eq_ok.1 h
          rw [ih hrest]
          simp only [hg, if_true]
          rfl
        · cases h

theorem ofKind_inserted (kind : ConceptKind) : ofKind kind (before ++ v :: after) =
    ofKind kind before ++ (if v.kind = kind then [v] else []) ++ ofKind kind after := by
  simp only [ofKind, List.filter_append, List.filter_cons, beq_iff_eq]
  split <;> simp

theorem ofKind_append (kind : ConceptKind) :
    ofKind kind (before ++ after) = ofKind kind before ++ ofKind kind after :=
  List.filter_append ..

theorem Steps.compute (steps : Steps cfg s values versions c) :
    Calculation.compute cfg s values detail id versions =
      .ok { c with employee := s.employee.id, detail, id } := by
  refine bind_eq_ok.2 ⟨_, steps.perceptions, bind_eq_ok.2 ⟨_, steps.total, ?_⟩⟩
  refine bind_eq_ok.2 ⟨_, steps.income, bind_eq_ok.2 ⟨_, steps.deductions, ?_⟩⟩
  refine bind_eq_ok.2 ⟨_, steps.taxableIncome, bind_eq_ok.2 ⟨_, steps.isrTable, ?_⟩⟩
  refine bind_eq_ok.2 ⟨_, steps.tax, bind_eq_ok.2 ⟨_, steps.riskClass, ?_⟩⟩
  refine bind_eq_ok.2 ⟨_, steps.contributionDays, bind_eq_ok.2 ⟨_, steps.contributions, ?_⟩⟩
  rw [← steps.skipped]
  rfl

theorem compute_of_steps {vs : List FormulaVersion}
    (h : compute cfg s values detail id versions = .ok c)
    (steps : Steps cfg s values vs { c with skipped }) :
    compute cfg s values detail id vs = .ok { c with skipped } := by
  obtain ⟨rfl, rfl, ⟨first⟩⟩ := compute_eq_ok h
  have hemployee : c.employee = s.employee.id :=
    congrArg (·.employee) (Except.ok.inj (h.symm.trans first.compute))
  rw [steps.compute, ← hemployee]

/-- A formula that fails with a fault of its own adds its concept to those that are skipped. -/
theorem compute_inserted {w : Bindings} (h : compute cfg s values detail id (before ++ after) = .ok c)
    (hw : bindingsOf s values c.perceptions v.kind = .ok w) (hv : evaluation s w v = .error f)
    (hf : f.isFormulaFault = true) :
    ∃ skipped, Inserted ⟨v.concept, f.message⟩ c.skipped skipped ∧
      compute cfg s values detail id (before ++ v :: after) = .ok { c with skipped } := by
  obtain ⟨-, -, ⟨steps⟩⟩ := compute_eq_ok h
  have hperceptions := steps.perceptions
  have hdeductions := steps.deductions
  rw [ofKind_append] at hperceptions hdeductions
  cases hkind : v.kind with
  | perception =>
      rw [hkind] at hw
      cases hw
      obtain ⟨skipped, ⟨front, back, hsplit, rfl⟩, hok⟩ :=
        evaluateConcepts_inserted hv hf hperceptions
      refine ⟨front ++ ⟨v.concept, f.message⟩ :: (back ++ steps.skippedThen),
        ⟨front, back ++ steps.skippedThen, by rw [steps.skipped, hsplit, List.append_assoc], rfl⟩, ?_⟩
      exact compute_of_steps h { steps with
        skippedFirst := front ++ ⟨v.concept, f.message⟩ :: back
        perceptions := by simpa [ofKind_inserted, hkind] using hok
        deductions := by simpa [ofKind_inserted, hkind] using hdeductions
        skipped := by simp }
  | deduction =>
      rw [hkind] at hw
      obtain ⟨_, htotal, hincome⟩ := bind_eq_ok.1 hw
      cases htotal.symm.trans steps.total
      cases hincome.symm.trans steps.income
      obtain ⟨skipped, ⟨front, back, hsplit, rfl⟩, hok⟩ :=
        evaluateConcepts_inserted hv hf hdeductions
      refine ⟨(steps.skippedFirst ++ front) ++ ⟨v.concept, f.message⟩ :: back,
        ⟨steps.skippedFirst ++ front, back,
          by rw [steps.skipped, hsplit, List.append_assoc], rfl⟩, ?_⟩
      exact compute_of_steps h { steps with
        skippedThen := front ++ ⟨v.concept, f.message⟩ :: back
        perceptions := by simpa [ofKind_inserted, hkind] using hperceptions
        deductions := by simpa [ofKind_inserted, hkind] using hok
        skipped := by simp }

theorem compute_stopped {w : Bindings} (h : compute cfg s values detail id (before ++ after) = .ok c)
    (hw : bindingsOf s values c.perceptions v.kind = .ok w) (hv : evaluation s w v = .error f)
    (hf : f.isFormulaFault = false) :
    compute cfg s values detail id (before ++ v :: after) = .error f := by
  obtain ⟨-, -, ⟨steps⟩⟩ := compute_eq_ok h
  have hperceptions := steps.perceptions
  have hdeductions := steps.deductions
  rw [ofKind_append] at hperceptions hdeductions
  rw [compute, ofKind_inserted, ofKind_inserted]
  cases hkind : v.kind with
  | perception =>
      rw [hkind] at hw
      cases hw
      simp only [if_true, List.append_assoc, List.singleton_append]
      rw [evaluateConcepts_stopped hv hf hperceptions]
      rfl
  | deduction =>
      rw [hkind] at hw
      obtain ⟨_, htotal, hincome⟩ := bind_eq_ok.1 hw
      cases htotal.symm.trans steps.total
      cases hincome.symm.trans steps.income
      simp only [reduceCtorEq, if_false, if_true, List.append_nil, List.append_assoc,
        List.singleton_append]
      refine bind_of_eq_ok hperceptions (bind_of_eq_ok steps.total (bind_of_eq_ok steps.income ?_))
      rw [evaluateConcepts_stopped hv hf hdeductions]
      rfl

end Calculation

/-! ### One more formula for an employee -/

namespace Recording

/-- The entries do not depend on what is skipped, nor on versions that are not among the amounts. -/
theorem pending_inserted {a : Author} {s : Calculation.Setting}
    {versions others : List FormulaVersion} {c : Calculation} {skipped : List SkippedConcept}
    (h : ∀ amount ∈ c.perceptions ++ c.deductions,
      versionOf others amount.version = versionOf versions amount.version) :
    pending a s others { c with skipped } = pending a s versions c := by
  have hformulas : (c.perceptions ++ c.deductions).map (formulaEntry a s others { c with skipped }) =
      (c.perceptions ++ c.deductions).map (formulaEntry a s versions c) := by
    refine List.map_congr_left fun amount hamount => ?_
    simp only [formulaEntry, h amount hamount]
    rfl
  rw [pending, hformulas]
  rfl

end Recording

namespace Engine

open Calculation FormulaStore

variable {α : Type} {c : Configuration} {now : Instant} {id : String} {r : Request} {e e' e₁ : Engine}
  {p : Prepared} {recorded : Recorded} {next : FormulaStore} {v : FormulaVersion} {f : Fault}

/-- An action that does not look at the stored formulas. -/
def Blind (x : Action α) : Prop := ∀ e next,
  perform x { e with store := next } = ((perform x e).1, { (perform x e).2 with store := next })

theorem blind_policy (company : String) : Blind (policy c company) := by
  intro e next
  rw [policy, perform_bind, perform_bind, perform_get, perform_get]
  simp only
  split
  · rfl
  · rw [perform_bind, perform_bind, perform_lift, perform_lift]
    cases c.roundingPolicy company <;> rfl

theorem blind_tablesFor (year : Int) : Blind (tablesFor c year) := by
  intro e next
  rw [tablesFor, perform_bind, perform_bind, perform_get, perform_get]
  simp only
  split
  · rfl
  · rw [perform_bind, perform_bind, perform_lift, perform_lift]
    cases c.loadTables year <;> rfl

/-- With other formulas in the store, only the versions and what is computed from them differ. -/
theorem perform_prepare_store {versions : List FormulaVersion}
    (h : perform (prepare c id r) e = (.ok p, e₁))
    (hnext : versionsOn next r.company r.target = .ok versions) : ∃ values,
      Formula.bindings r.employee r.period p.setting.tables.values p.setting.overrides = .ok values ∧
      compute c p.setting values r.detailId id p.versions = .ok p.calculation ∧
      perform (prepare c id r) { e with store := next } =
        ((compute c p.setting values r.detailId id versions).map fun calculation =>
          ⟨p.setting, versions, calculation⟩, { e₁ with store := next }) := by
  obtain ⟨policy, e₂, hpolicy, h⟩ := perform_bind_eq_ok.1 h
  obtain ⟨tables, e₃, htables, h⟩ := perform_bind_eq_ok.1 h
  obtain ⟨overrides, _, hoverrides, h⟩ := perform_bind_eq_ok.1 h
  obtain ⟨values, _, hvalues, h⟩ := perform_bind_eq_ok.1 h
  obtain ⟨_, _, hget, h⟩ := perform_bind_eq_ok.1 h
  obtain ⟨_, _, hversions, h⟩ := perform_bind_eq_ok.1 h
  obtain ⟨_, _, hcompute, h⟩ := perform_bind_eq_ok.1 h
  cases h
  obtain ⟨hread, rfl⟩ := perform_lift_eq_ok.1 hoverrides
  obtain ⟨hbound, rfl⟩ := perform_lift_eq_ok.1 hvalues
  obtain ⟨rfl, rfl⟩ := perform_get_eq_ok.1 hget
  obtain ⟨-, rfl⟩ := perform_lift_eq_ok.1 hversions
  obtain ⟨hcomputed, rfl⟩ := perform_lift_eq_ok.1 hcompute
  refine ⟨values, hbound, hcomputed, ?_⟩
  have hpolicy' := blind_policy (c := c) r.company e next
  have htables' := blind_tablesFor (c := c) r.period.year e₂ next
  rw [hpolicy] at hpolicy'
  rw [htables] at htables'
  rw [prepare, perform_bind, hpolicy']
  simp only
  rw [perform_bind, htables']
  simp only
  rw [perform_bind, perform_lift, hread]
  simp only
  rw [perform_bind, perform_lift, hbound]
  simp only
  rw [perform_bind, perform_get]
  simp only
  rw [perform_bind, perform_lift, hnext]
  simp only
  rw [perform_bind, perform_lift]
  cases compute c _ values r.detailId id versions <;> rfl

/-- What a formula gives in the pass of its kind, when the employee is calculated without it. -/
def trial (c : Configuration) (id : String) (r : Request) (e : Engine) (v : FormulaVersion) :
    Except Fault Formula.Outcome := do
  let p ← (perform (prepare c id r) e).1
  let values ← Formula.bindings r.employee r.period p.setting.tables.values p.setting.overrides
  let values ← bindingsOf p.setting values p.calculation.perceptions v.kind
  evaluation p.setting values v

/-- What comes out of a formula that was stored, if it is not a fault of the formula. -/
theorem evaluation_fails {s : Setting} {values : Formula.Bindings}
    (hv : FormulaStore.Accepted v) (h : evaluation s values v = .error f) :
    f.isFormulaFault = true ∨ f = .digitLimit ∨ f.OutOfRange ∧ (exemptionRule v).Limited := by
  have hexact (d : Decimal) : FailsIn (fun _ => False) (Amount.ofDecimal d).toDecimal := .ok d
  have hreading (w : Formula.Variable) :
      FailsIn (fun _ => False) (Formula.Reading.ofValues values w) := .ok _
  have hread (w : Formula.Variable) (a : Amount)
      (hw : Formula.Reading.ofValues values w = .ok (some a)) :
      FailsIn (fun _ => False) a.toDecimal := by
    obtain ⟨d, -, rfl⟩ := Option.map_eq_some_iff.1 (Except.ok.inj hw)
    exact hexact d
  have hlimit : ∀ a ∈ (exemptionRule v).limit, FailsIn (fun _ => False) a.toDecimal := by
    intro a ha
    obtain ⟨d, -, rfl⟩ := Option.map_eq_some_iff.1 ha
    exact hexact d
  obtain hf | hf | ⟨-, hf⟩ := Formula.evaluateWithExemption_fails hreading hread hlimit _ _ _ _ h
  · obtain hf | hf | hf := hf
    · exact .inl hf
    · exact .inr (.inl hf)
    · cases hf
  · exact .inr (.inr hf)
  · obtain ⟨tree, htree⟩ := hv
    cases hf.symm.trans htree

theorem reachable_of_create {uuid : String} {clock : Instant} {d : Draft} {store : FormulaStore}
    (hr : Reachable store) (hfresh : (Operation.create uuid clock d).Fresh store)
    (h : store.create uuid clock d = .ok (v, next)) : Reachable next := by
  have hafter : (Operation.create uuid clock d).after store = next := by
    simp only [Operation.after, Operation.run, h]
    rfl
  exact hafter ▸ .step _ hr hfresh

/-- What is known of the first version of a concept. -/
theorem create_new {uuid : String} {clock : Instant} {d : Draft} {store : FormulaStore}
    (h : store.create uuid clock d = .ok (v, next))
    (hnew : (store.scope v.company v.concept).rows = []) :
    v.active = true ∧ FormulaStore.Accepted v ∧ Key.isSafe v.concept = true ∧
      next = store.withRows v.company v.concept [v] := by
  obtain ⟨_, -, h⟩ := bind_eq_ok.1 h
  obtain ⟨_, hfields, h⟩ := bind_eq_ok.1 h
  obtain ⟨_, haccept, h⟩ := bind_eq_ok.1 h
  obtain ⟨row, hrow, h⟩ := bind_eq_ok.1 h
  obtain ⟨scope, hscope, h⟩ := bind_eq_ok.1 h
  obtain ⟨_, -, h⟩ := bind_eq_ok.1 h
  obtain ⟨_, hwrite, h⟩ := bind_eq_ok.1 h
  cases h
  rw [ensure_eq_ok, List.isEmpty_iff] at hfields
  obtain ⟨hadded, -, -, hexpression, -⟩ := row_eq_ok hfields hrow
  rw [hexpression] at haccept
  obtain ⟨-, hnext⟩ := write_eq_ok.1 hwrite
  rw [scopeOf_eq_ok hscope, hnew, List.nil_append] at hnext
  obtain ⟨_, -, hkeys⟩ := bind_eq_ok.1 hscope
  obtain ⟨_, hconcept, -⟩ := bind_eq_ok.1 hkeys
  exact ⟨hadded.active, acceptExpression_eq_ok haccept, (Key.check_eq_ok.1 hconcept).1, hnext⟩

/-- Each version is found under its id, in the store as it was and with one more formula in it. -/
theorem stored_inserted {before after : List FormulaVersion} {skipped : List SkippedConcept}
    (hr : Reachable e.store) (hversions : versionsOn e.store r.company r.target = .ok p.versions)
    (hnext : Reachable next)
    (hall : versionsOn next r.company r.target = .ok (before ++ v :: after))
    (hsplit : p.versions = before ++ after) (hc : p.calculation.Complete p.setting p.versions) :
    stored now ⟨p.setting, before ++ v :: after, { p.calculation with skipped }⟩
      { e₁ with store := next } = stored now p e₁ := by
  have hsame : ∀ amount ∈ p.calculation.perceptions ++ p.calculation.deductions,
      Recording.versionOf (before ++ v :: after) amount.version =
        Recording.versionOf p.versions amount.version := by
    intro amount hamount
    have hmem : amount.version ∈ p.versions := by
      rcases List.mem_append.1 hamount with ha | ha
      · exact (hc.perceptions amount ha).1
      · exact (hc.deductions amount ha).1
    have hsub : p.versions.Sublist (before ++ v :: after) :=
      hsplit ▸ (List.sublist_cons_self v after).append_left before
    rw [versionOf_eq hr hversions hmem, versionOf_eq hnext hall (hsub.subset hmem)]
  exact congrArg (Recording.storeFrom p.calculation.id 1 e₁.trail) (Recording.pending_inserted hsame)

/-- A formula under a new concept that fails with a fault of its own is skipped, and nothing else
changes. Only a limit of an exemption that leaves the range of the arithmetic, or a value with too
many digits to be rounded, stops the calculation, before anything is recorded. -/
theorem calculate_created {uuid : String} {clock : Instant} {d : Draft}
    (hr : Reachable e.store) (hfresh : (Operation.create uuid clock d).Fresh e.store)
    (h : perform (calculate c now id r) e = (.ok recorded, e'))
    (hcreate : e.store.create uuid clock d = .ok (v, next)) (hcompany : v.company = r.company)
    (hnew : (e.store.scope r.company v.concept).rows = []) (hfails : trial c id r e v = .error f) :
    (f.isFormulaFault = true ∧ ∃ skipped, Inserted ⟨v.concept, f.message⟩
        recorded.calculation.skipped skipped ∧
      perform (calculate c now id r) { e with store := next } =
        (.ok ⟨{ recorded.calculation with skipped }, recorded.entries⟩, { e' with store := next })) ∨
    (f = .digitLimit ∨ f.OutOfRange ∧ (exemptionRule v).Limited) ∧
      ∃ e'', perform (calculate c now id r) { e with store := next } = (.error f, e'') ∧
        e''.trail = e.trail := by
  rcases hprepare : perform (prepare c id r) e with ⟨_ | p, e₁⟩
  · rw [perform_calculate_error hprepare] at h
    cases h
  rw [perform_calculate_ok hprepare, Prod.mk.injEq] at h
  obtain ⟨hresult, rfl⟩ := h
  obtain ⟨entries, hentries, hresult⟩ := bind_eq_ok.1 hresult
  obtain ⟨net, hnet, hresult⟩ := bind_eq_ok.1 hresult
  cases hresult
  rw [← hcompany] at hnew
  obtain ⟨hactive, haccepted, hsafe, hnext⟩ := create_new hcreate hnew
  have hreachable := reachable_of_create hr hfresh hcreate
  rw [hcompany] at hnew hnext
  obtain ⟨hstore, htrail, -⟩ := reads_prepare c id r e
  rw [hprepare] at hstore htrail
  obtain ⟨_, _, -, -, -, -, -, hversions, -⟩ := prepare_eq_ok hprepare
  rw [hstore] at hversions
  obtain ⟨before, after, hsplit, hall⟩ :=
    versionsOn_withRows (hnext ▸ hreachable) hactive hsafe hnew hversions
  rw [← hnext] at hall
  obtain ⟨values, hvalues, hcompute, hagain⟩ := perform_prepare_store hprepare hall
  obtain ⟨w, hw⟩ := exists_bindingsOf hcompute v.kind
  have hv : evaluation p.setting w v = .error f := by
    rw [← hfails, trial, hprepare]
    exact (bind_of_eq_ok rfl (bind_of_eq_ok hvalues (bind_of_eq_ok hw rfl))).symm
  rcases hkind : f.isFormulaFault
  · have hstopped := compute_stopped (hsplit ▸ hcompute) hw hv hkind
    rw [hstopped] at hagain
    refine .inr ⟨(evaluation_fails haccepted hv).resolve_left (by simp [hkind]), _,
      perform_calculate_error hagain, htrail⟩
  · obtain ⟨skipped, hinserted, hok⟩ := compute_inserted (hsplit ▸ hcompute) hw hv hkind
    rw [hok] at hagain
    refine .inl ⟨rfl, skipped, hinserted, ?_⟩
    rw [perform_calculate_ok hagain,
      stored_inserted hr hversions hreachable hall hsplit (complete_of_compute hcompute), hentries]
    have hnet' : Calculation.netPay { p.calculation with skipped } = .ok net := hnet
    exact Prod.ext (bind_of_eq_ok rfl (bind_of_eq_ok hnet' rfl)) rfl

/-- A bonus of one peso, exempt up to more units than an amount can be multiplied by. -/
def boundless : FormulaStore.Draft where
  company := .text "ACME"
  concept := .text "P011"
  kind := .text "PERCEPTION"
  name := .text "Premio"
  expression := .text "1"
  fields := [("exempt_limit", .text "1E+999999"), ("exempt_limit_type", .text "UMA")]

def premium : FormulaVersion :=
  { bonus with
    id := "f2"
    concept := "P011"
    name := "Premio"
    expression := "1"
    exemptLimit := some { negative := false, coefficient := 1, exponent := 999999 }
    limitUnit := some .uma }

theorem create_premium : oneRow.create "f2" noon boundless =
    .ok (premium, oneRow.withRows "ACME" "P011" [premium]) :=
  ok_of_toOption (by decide +kernel)

theorem fresh_premium : (Operation.create "f2" noon boundless).Fresh oneRow :=
  Operation.fresh_of_scope (by decide)

def overflows {α : Type} : Except Fault α → Bool
  | .error (.arithmetic .overflow) => true
  | _ => false

theorem eq_of_overflows {α : Type} {x : Except Fault α} (h : overflows x = true) :
    x = .error (.arithmetic .overflow) := by
  unfold overflows at h
  split at h
  · rfl
  · cases h

/-- The bonus is paid in the period, until one with a limit out of range stands beside it. -/
theorem premium_stops : (Operation.create "f2" noon boundless).Fresh oneRow ∧
    oneRow.create "f2" noon boundless = .ok (premium, oneRow.withRows "ACME" "P011" [premium]) ∧
    ∃ recorded e' e'',
    perform (calculate { directory := "config" } noon "c1" bonusPeriod) { store := oneRow } =
      (.ok recorded, e') ∧
    trial { directory := "config" } "c1" bonusPeriod { store := oneRow } premium =
      .error (.arithmetic .overflow) ∧
    perform (calculate { directory := "config" } noon "c1" bonusPeriod)
      { store := oneRow.withRows "ACME" "P011" [premium] } = (.error (.arithmetic .overflow), e'') ∧
    e''.trail = {} := by
  have hfails : trial { directory := "config" } "c1" bonusPeriod { store := oneRow } premium =
      .error (.arithmetic .overflow) := eq_of_overflows (by decide +kernel)
  have hpaid : (perform (calculate { directory := "config" } noon "c1" bonusPeriod)
      { store := oneRow }).1.isOk = true := by
    decide +kernel
  rcases hcalculate : perform (calculate { directory := "config" } noon "c1" bonusPeriod)
    { store := oneRow } with ⟨_ | recorded, e'⟩
  · rw [hcalculate] at hpaid
    cases hpaid
  obtain ⟨hskipped, -⟩ | ⟨-, e'', hstopped, htrail⟩ := calculate_created reachable_oneRow
    fresh_premium hcalculate create_premium rfl (by decide) hfails
  · cases hskipped
  · exact ⟨fresh_premium, create_premium, recorded, e', e'', rfl, hfails, hstopped, htrail⟩

end Engine

end Payroll
