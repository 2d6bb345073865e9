import Mathlib
import Payroll.Audit.Replay
import Payroll.Fiscal.Published
import Payroll.Proofs.BindingsRange

/-!
Formulas evaluated again from what was written of their variables and terms: the outcome is the same.
-/

namespace Payroll

open Result

theorem Json.toDecimal_ofDecimal {d : Decimal} (h : d.readable) :
    (Json.ofDecimal d).toDecimal = .ok d := by
  simp [toDecimal, ofDecimal, Amount.toDecimal, Amount.ofText, Decimal.read_text h]

namespace Formula

namespace Variable

theorem ofName?_name (v : Variable) : ofName? v.name = some v := by
  cases v <;> rfl

theorem name_injective {v w : Variable} (h : v.name = w.name) : v = w := by
  have hn := congrArg ofName? h
  rw [ofName?_name, ofName?_name] at hn
  exact Option.some.inj hn

theorem lookup_names {f : Variable → Json} {vs : List Variable} {v : Variable} (h : v ∈ vs) :
    Fields.lookup (vs.map fun w => (w.name, f w)) v.name = some (f v) := by
  induction vs with
  | nil => cases h
  | cons w ws ih =>
      by_cases he : w = v
      · subst he
        simp [Fields.lookup]
      · have hn : w.name ≠ v.name := fun hw => he (name_injective hw)
        rcases List.mem_cons.1 h with rfl | hm
        · exact absurd rfl he
        · simpa [Fields.lookup, hn] using ih hm

end Variable

namespace Reading

variable {r r' : Reading} {values : Bindings} {v : Variable} {d : Decimal} {vs : List Variable}

/-- A context has a number for a variable. -/
def Gives (r : Reading) (v : Variable) (d : Decimal) : Prop :=
  ∃ a, r v = .ok (some a) ∧ a.toDecimal = .ok d

theorem number_eq_ok : r.number v = .ok d ↔ r.Gives v d := by
  rw [number, Gives]
  cases r v with
  | error f => simp
  | ok o =>
      cases o with
      | none => simp
      | some a => cases h : a.toDecimal <;> simp [h]

theorem gives_of_numbers {ds : List (Variable × Decimal)} (h : r.numbers vs = .ok ds) :
    ∀ v ∈ vs, ∃ d, r.Gives v d := by
  induction vs generalizing ds with
  | nil =>
      intro v hv
      cases hv
  | cons w ws ih =>
      simp only [numbers] at h
      split at h
      · cases h
      · next d hd =>
        split at h
        · next ds' hds =>
          intro v hv
          rcases List.mem_cons.1 hv with rfl | hv
          · exact ⟨d, number_eq_ok.1 hd⟩
          · exact ih hds v hv
        · cases h

theorem numbers_congr {ds : List (Variable × Decimal)}
    (hr : ∀ v ∈ vs, ∀ d, r.Gives v d → r'.Gives v d) (h : r.numbers vs = .ok ds) :
    r'.numbers vs = .ok ds := by
  induction vs generalizing ds with
  | nil => exact h
  | cons w ws ih =>
      simp only [numbers] at h ⊢
      split at h
      · cases h
      · next d hd =>
        split at h
        · next ds' hds =>
          have hd' := number_eq_ok.2 (hr w List.mem_cons_self d (number_eq_ok.1 hd))
          have hds' := ih (fun v hv => hr v (List.mem_cons_of_mem _ hv)) hds
          simp only [hd', hds']
          exact h
        · cases h

theorem gives_ofValues : (ofValues values).Gives v d ↔ values v = some d := by
  rw [Gives, ofValues]
  cases values v <;> simp

theorem gives_ofFields {fields : Fields} (h : Fields.lookup fields v.name = some (.ofDecimal d))
    (hd : d.readable) : (ofFields fields).Gives v d := by
  refine ⟨.given (.ofDecimal d), ?_, Json.toDecimal_ofDecimal hd⟩
  rw [ofFields]
  rw [h]
  rfl

/-- The number that a context has for a variable. -/
def given (r : Reading) (v : Variable) : Option Decimal := (r.number v).toOption

theorem given_eq_some : r.given v = some d ↔ r.Gives v d := by
  rw [← number_eq_ok, given]
  cases r.number v <;> simp [Except.toOption]

/-- The numbers of a context are in the range of decimals. -/
def Readable (r : Reading) : Prop := ∀ v d, r.Gives v d → d.readable

theorem readable_ofValues (h : Formula.Readable values) : (ofValues values).Readable :=
  fun v d hd => h v d (gives_ofValues.1 hd)

/-- Whatever data a context is, its numbers are in that range. -/
theorem readable_ofJson (j : Json) : (ofJson j).Readable := by
  rintro v d ⟨a, ha, hd⟩
  unfold ofJson at ha
  split at ha
  · unfold ofFields at ha
    split at ha
    · cases ha
    · cases ha
    · cases ha
      exact readable_of_toDecimal hd
  · cases ha

/-- A report on variables that all have numbers. -/
theorem variableReport_eq_ok (h : ∀ v ∈ vs, ∃ d, r.Gives v d) :
    variableReport r vs = .ok (vs.map fun v => (v, r.given v)) := by
  apply mapM_eq_map
  intro v hv
  obtain ⟨d, hd⟩ := h v hv
  rw [given_eq_some.2 hd]
  obtain ⟨a, ha, had⟩ := hd
  simp only [ha]
  exact bind_eq_ok.2 ⟨some a, rfl, bind_eq_ok.2 ⟨d, had, rfl⟩⟩

theorem given_congr (hr : ∀ d, r.Gives v d → r'.Gives v d) (h : r.Gives v d) :
    r'.given v = r.given v :=
  (given_eq_some.2 (hr d h)).trans (given_eq_some.2 h).symm

theorem numbers_eq (hr : ∀ v ∈ vs, r v = r' v) : r.numbers vs = r'.numbers vs := by
  induction vs with
  | nil => rfl
  | cons w ws ih =>
      have hw : r.number w = r'.number w := by rw [number, number, hr w List.mem_cons_self]
      rw [numbers, numbers, hw, ih fun v hv => hr v (List.mem_cons_of_mem _ hv)]

theorem variableReport_eq (hr : ∀ v ∈ vs, r v = r' v) :
    variableReport r vs = variableReport r' vs := by
  apply mapM_congr
  intro v hv
  rw [hr v hv]

end Reading

variable {r r' : Reading} {method : RoundingMethod} {e : Expr} {d : Decimal}

theorem gives_of_evaluateTree (h : evaluateTree method r e = .ok d) :
    ∀ v ∈ e.vars, ∃ d, r.Gives v d := by
  unfold evaluateTree at h
  split at h
  · cases h
  · next ds hds =>
    intro v hv
    exact Reading.gives_of_numbers hds v (List.mem_eraseDups.2 hv)

theorem evaluateTree_congr (hr : ∀ v ∈ e.vars, ∀ d, r.Gives v d → r'.Gives v d)
    (h : evaluateTree method r e = .ok d) : evaluateTree method r' e = .ok d := by
  rw [evaluateTree] at h ⊢
  split at h
  · cases h
  · next ds hds =>
    have hds' := Reading.numbers_congr (fun v hv => hr v (List.mem_eraseDups.1 hv)) hds
    rw [hds']
    exact h

/-- With the values of a year, a division does not look at the context. -/
theorem divide_congr {policy : RoundingPolicy} {rule rule' : ExemptionRule} {fiscal : FiscalValues}
    (htaxable : rule'.taxable = rule.taxable) (hexempt : rule'.exempt = rule.exempt)
    (hlimit : rule'.limitNumber = rule.limitNumber) (hunit : rule'.limitUnit = rule.limitUnit)
    (value : Decimal) : divide policy r' rule' (some fiscal) value =
      divide policy r rule (some fiscal) value := by
  have hvalue (unit : Json) : limitUnitValue r' (some fiscal) unit =
      limitUnitValue r (some fiscal) unit := rfl
  simp only [divide]
  simp only [htaxable, hexempt, hlimit, hunit, hvalue]

theorem readable_of_evaluateWithExemption {policy : RoundingPolicy} {rule : ExemptionRule}
    {fiscal : Option FiscalValues} {s : String} {o : Outcome}
    (h : evaluateWithExemption policy r rule fiscal s = .ok o) : o.value.readable := by
  obtain ⟨_, -, h⟩ := bind_eq_ok.1 h
  obtain ⟨_, -, h⟩ := bind_eq_ok.1 h
  obtain ⟨_, hvalue, h⟩ := bind_eq_ok.1 h
  obtain ⟨_, -, h⟩ := bind_eq_ok.1 h
  obtain ⟨_, -, h⟩ := bind_eq_ok.1 h
  cases h
  exact RoundingPolicy.readable_of_apply (mapError_eq_ok.1 hvalue)

theorem mem_sortVariables {v : Variable} : v ∈ sortVariables e.vars.eraseDups ↔ v ∈ e.vars :=
  List.mem_mergeSort.trans List.mem_eraseDups

section

variable {policy : RoundingPolicy} {rule rule' : ExemptionRule} {fiscal : FiscalValues} {s : String}
  {o : Outcome}

/-- The outcome lists the variables of the formula with their numbers, which they all have. -/
theorem inputs_of_evaluateWithExemption (hs : accept s = .ok e)
    (h : evaluateWithExemption policy r rule (some fiscal) s = .ok o) :
    (∀ v ∈ e.vars, ∃ d, r.Gives v d) ∧
      o.inputs = (sortVariables e.vars.eraseDups).map fun v => (v, r.given v) := by
  obtain ⟨tree, htree, h⟩ := bind_eq_ok.1 h
  cases hs.symm.trans htree
  obtain ⟨raw, hraw, h⟩ := bind_eq_ok.1 h
  obtain ⟨value, -, h⟩ := bind_eq_ok.1 h
  obtain ⟨inputs, hinputs, h⟩ := bind_eq_ok.1 h
  obtain ⟨parts, -, h⟩ := bind_eq_ok.1 h
  cases h
  have hgives := gives_of_evaluateTree hraw
  rw [Reading.variableReport_eq_ok fun v hv => hgives v (mem_sortVariables.1 hv)] at hinputs
  exact ⟨hgives, (Except.ok.inj hinputs).symm⟩

/-- A context that has the same numbers for the variables of a formula gives the same outcome. -/
theorem evaluateWithExemption_congr
    (hr : ∀ tree, accept s = .ok tree → ∀ v ∈ tree.vars, ∀ d, r.Gives v d → r'.Gives v d)
    (htaxable : rule'.taxable = rule.taxable) (hexempt : rule'.exempt = rule.exempt)
    (hlimit : rule'.limitNumber = rule.limitNumber) (hunit : rule'.limitUnit = rule.limitUnit)
    (h : evaluateWithExemption policy r rule (some fiscal) s = .ok o) :
    evaluateWithExemption policy r' rule' (some fiscal) s = .ok o := by
  obtain ⟨tree, htree, h'⟩ := bind_eq_ok.1 h
  obtain ⟨hgives, hinputs⟩ := inputs_of_evaluateWithExemption htree h
  replace hr := hr tree htree
  obtain ⟨raw, hraw, h'⟩ := bind_eq_ok.1 h'
  obtain ⟨value, hvalue, h'⟩ := bind_eq_ok.1 h'
  obtain ⟨inputs, -, h'⟩ := bind_eq_ok.1 h'
  obtain ⟨parts, hparts, h'⟩ := bind_eq_ok.1 h'
  cases h'
  refine bind_eq_ok.2 ⟨tree, htree, bind_eq_ok.2 ⟨raw, evaluateTree_congr hr hraw,
    bind_eq_ok.2 ⟨value, hvalue, bind_eq_ok.2 ⟨inputs, ?_, bind_eq_ok.2 ⟨parts, ?_, rfl⟩⟩⟩⟩⟩
  · rw [Reading.variableReport_eq_ok, show inputs = _ from hinputs]
    · refine congrArg _ (List.map_congr_left fun v hv => ?_)
      obtain ⟨d, hd⟩ := hgives v (mem_sortVariables.1 hv)
      rw [Reading.given_congr (hr v (mem_sortVariables.1 hv)) hd]
    · intro v hv
      obtain ⟨d, hd⟩ := hgives v (mem_sortVariables.1 hv)
      exact ⟨d, hr v (mem_sortVariables.1 hv) d hd⟩
  · rw [divide_congr htaxable hexempt hlimit hunit]
    exact hparts

/-- What was written of the variables is found under their names and reads back. -/
theorem evaluateWithExemption_written (hr : r.Readable) (htaxable : rule'.taxable = rule.taxable)
    (hexempt : rule'.exempt = rule.exempt) (hlimit : rule'.limitNumber = rule.limitNumber)
    (hunit : rule'.limitUnit = rule.limitUnit)
    (h : evaluateWithExemption policy r rule (some fiscal) s = .ok o) :
    evaluateWithExemption policy
      (.ofFields (o.inputs.map fun v => (v.1.name, .optional .ofDecimal v.2))) rule' (some fiscal) s =
        .ok o := by
  refine evaluateWithExemption_congr (fun tree htree v hv d hd => ?_) htaxable hexempt hlimit hunit h
  obtain ⟨-, hinputs⟩ := inputs_of_evaluateWithExemption htree h
  refine Reading.gives_ofFields ?_ (hr v d hd)
  rw [hinputs, List.map_map]
  exact (Variable.lookup_names (mem_sortVariables.2 hv)).trans
    (congrArg (fun o => some (Json.optional Json.ofDecimal o)) (Reading.given_eq_some.2 hd))

/-- Failures are the same too where contexts agree on the variables of a formula. -/
theorem evaluateWithExemption_eq
    (hr : ∀ tree, accept s = .ok tree → ∀ v ∈ tree.vars, r v = r' v) :
    evaluateWithExemption policy r rule (some fiscal) s =
      evaluateWithExemption policy r' rule (some fiscal) s := by
  unfold evaluateWithExemption
  cases htree : accept s with
  | error f => rfl
  | ok tree =>
      replace hr := hr tree htree
      have hvalue : evaluateTree policy.method r tree = evaluateTree policy.method r' tree := by
        rw [evaluateTree, evaluateTree,
          Reading.numbers_eq fun v hv => hr v (List.mem_eraseDups.1 hv)]
      have hreport := Reading.variableReport_eq fun v hv => hr v (mem_sortVariables.1 hv)
      have hparts (value : Decimal) : divide policy r' rule (some fiscal) value =
          divide policy r rule (some fiscal) value := divide_congr rfl rfl rfl rfl value
      simp only [bind, Except.bind, hvalue, hreport, hparts]

end

/-- With the values of a year, a concept can be evaluated again from the variables of its outcome, and
contexts cannot be told apart that agree on the variables of the formula, as given or in number. -/
theorem evaluateWithExemption_replays (policy : RoundingPolicy) (rule : ExemptionRule)
    (fiscal : FiscalValues) (s : String) :
    (∀ r o, r.Readable → evaluateWithExemption policy r rule (some fiscal) s = .ok o →
      evaluateWithExemption policy
        (.ofJson (.object (o.inputs.map fun v => (v.1.name, .optional .ofDecimal v.2)))) rule
        (some fiscal) s = .ok o) ∧
    (∀ j : Json, (Reading.ofJson j).Readable) ∧
    (∀ r r', (∀ tree, accept s = .ok tree → ∀ v ∈ tree.vars, r v = r' v) →
      evaluateWithExemption policy r rule (some fiscal) s =
        evaluateWithExemption policy r' rule (some fiscal) s) ∧
    (∀ r r' o, (∀ tree, accept s = .ok tree → ∀ v ∈ tree.vars, ∀ d, r.Gives v d ↔ r'.Gives v d) →
      (evaluateWithExemption policy r rule (some fiscal) s = .ok o ↔
        evaluateWithExemption policy r' rule (some fiscal) s = .ok o)) := by
  refine ⟨fun r o hr h => ?_, Reading.readable_ofJson, fun r r' hr => evaluateWithExemption_eq hr,
    fun r r' o hr => ⟨fun h => ?_, fun h => ?_⟩⟩
  · exact evaluateWithExemption_written hr rfl rfl rfl rfl h
  · exact evaluateWithExemption_congr (fun tree htree v hv d => (hr tree htree v hv d).1)
      rfl rfl rfl rfl h
  · exact evaluateWithExemption_congr (fun tree htree v hv d => (hr tree htree v hv d).2)
      rfl rfl rfl rfl h

def thirtyUnits : ExemptionRule := { limit := some (.given (.int 30)), limitUnit := .text "UMA" }

/-- The number of a bonus and a number that its formula does not mention. -/
def bonusAnd (n : Int) : Json := .object [("custom1", .text "5000.10"), ("custom2", .int n)]

theorem accept_bonus : accept "custom1" = .ok (.var .custom1) := by cbv

theorem bonus_replayed : ∃ o,
    evaluateWithExemption .standard (.ofJson (bonusAnd 3)) thirtyUnits (some Published.values2025)
      "custom1" = .ok o ∧
    o.value = 5000.10 ∧ o.exempt = 3394.20 ∧ (Reading.ofJson (bonusAnd 3)).Readable ∧
    evaluateWithExemption .standard
      (.ofJson (.object (o.inputs.map fun v => (v.1.name, .optional .ofDecimal v.2)))) thirtyUnits
      (some Published.values2025) "custom1" = .ok o ∧
    evaluateWithExemption .standard (.ofJson (bonusAnd 4)) thirtyUnits (some Published.values2025)
      "custom1" = .ok o ∧
    evaluateWithExemption .standard (.ofValues fun _ => some 5000.10) thirtyUnits
      (some Published.values2025) "custom1" = .ok o := by
  obtain ⟨hreplay, hreadable, hagree, hnumbers⟩ :=
    evaluateWithExemption_replays .standard thirtyUnits Published.values2025 "custom1"
  have hrun : ((evaluateWithExemption .standard (.ofJson (bonusAnd 3)) thirtyUnits
      (some Published.values2025) "custom1").toOption.map fun o => (o.value, o.exempt)) =
      some (5000.10, 3394.20) := by
    decide +kernel
  obtain ⟨o, ho, hparts⟩ := Option.map_eq_some_iff.1 hrun
  obtain ⟨hvalue, hexempt⟩ := Prod.mk.inj hparts
  have hbonus := ok_of_toOption ho
  refine ⟨o, hbonus, hvalue, hexempt, hreadable _, hreplay _ o (hreadable _) hbonus, ?_, ?_⟩
  · refine (hagree _ _ fun tree htree v hv => ?_).symm.trans hbonus
    cases accept_bonus.symm.trans htree
    cases List.mem_singleton.1 hv
    rfl
  · refine (hnumbers _ _ o fun tree htree v hv d => ?_).1 hbonus
    cases accept_bonus.symm.trans htree
    cases List.mem_singleton.1 hv
    have hgiven : (Reading.ofJson (bonusAnd 3)).number .custom1 = .ok 5000.10 :=
      ok_of_toOption (by decide +kernel)
    rw [← Reading.number_eq_ok, hgiven, Reading.gives_ofValues]
    simp

end Formula

end Payroll
