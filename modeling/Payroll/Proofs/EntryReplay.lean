import Mathlib
import Payroll.Proofs.EntryRecord
import Payroll.Proofs.FormulaReplay
import Payroll.Recording

/-!
Amounts computed again from the snapshots of their entries: the tax, the subsidy, the contributions
and the values of formulas.
-/

namespace Payroll

open Decimal (Context ordinary)
open Result

theorem BracketTable.find_eq_ok {α : Type} {t : BracketTable α} {d : Decimal} {m : BracketMatch α}
    (h : t.find d = .ok m) : m = ⟨t.position d, t.rowFor d, d⟩ := by
  unfold find at h
  simp only [Amount.toDecimal_ofDecimal] at h
  split at h
  · cases h
  · exact (Except.ok.inj h).symm

/-- What the amounts of a tax come from. -/
theorem Isr.calculate_eq_ok {policy : RoundingPolicy} {table : BracketTable IsrTerms}
    {base : Decimal} {r : IsrResult} (h : Isr.calculate policy table base = .ok r) :
    r.base = base ∧ r.lower = (table.rowFor base).lower ∧
      r.fixedFee = (table.rowFor base).terms.fixedFee ∧
      (BracketMatch.excess ⟨table.position base, table.rowFor base, base⟩ = .ok r.excess) ∧
      (∃ d, policy.apply d = .ok r.marginal) ∧ ∃ d, policy.apply d = .ok r.isr := by
  obtain ⟨m, hm, h⟩ := bind_eq_ok.1 h
  obtain ⟨excess, hexcess, h⟩ := bind_eq_ok.1 h
  obtain ⟨marginal, -, h⟩ := bind_eq_ok.1 h
  obtain ⟨rounded, hrounded, h⟩ := bind_eq_ok.1 h
  obtain ⟨total, -, h⟩ := bind_eq_ok.1 h
  obtain ⟨isr, hisr, h⟩ := bind_eq_ok.1 h
  cases BracketTable.find_eq_ok hm
  cases h
  exact ⟨rfl, rfl, rfl, hexcess, ⟨_, hrounded⟩, _, hisr⟩

theorem Isr.subsidy_eq_ok {policy : RoundingPolicy} {table : BracketTable SubsidyTerms}
    {base : Decimal} {r : SubsidyResult} (h : Isr.subsidy policy table base = .ok r) :
    r.base = base ∧ r.lower = (table.rowFor base).lower ∧ ∃ d, policy.apply d = .ok r.subsidy := by
  obtain ⟨m, hm, h⟩ := bind_eq_ok.1 h
  obtain ⟨amount, hamount, h⟩ := bind_eq_ok.1 h
  cases BracketTable.find_eq_ok hm
  cases h
  exact ⟨rfl, rfl, _, hamount⟩

theorem Isr.withSubsidy_eq_ok {policy : RoundingPolicy} {table : BracketTable IsrTerms}
    {subsidies : Option (BracketTable SubsidyTerms)} {base : Amount} {n : NetIsrResult}
    (h : Isr.withSubsidy policy table subsidies base = .ok n) :
    Isr.calculate policy table base = .ok n.isr ∧ n.subsidy.isSome = subsidies.isSome ∧
      ∀ r ∈ n.subsidy, ∃ t ∈ subsidies, Isr.subsidy policy t base = .ok r := by
  obtain ⟨isr, hisr, h⟩ := bind_eq_ok.1 h
  obtain ⟨credit, hcredit, h⟩ := bind_eq_ok.1 h
  obtain ⟨_, -, h⟩ := bind_eq_ok.1 h
  obtain ⟨_, -, h⟩ := bind_eq_ok.1 h
  cases h
  cases subsidies with
  | none =>
      cases hcredit
      exact ⟨hisr, rfl, fun _ hr => nomatch hr⟩
  | some t =>
      obtain ⟨r, hr, he⟩ := bind_eq_ok.1 hcredit
      cases he
      refine ⟨hisr, rfl, ?_⟩
      rintro _ ⟨⟩
      exact ⟨t, rfl, hr⟩

namespace Imss

variable {policy : RoundingPolicy} {rates : List ImssRate} {values : FiscalValues}
  {risks : List (String × Amount)} {base : Amount} {days : Int} {risk : Json} {r : ImssResult}

/-- What contributions keep of what they were given, and what they are made of. -/
theorem calculate_eq_ok (h : calculate policy rates values risks base days risk = .ok r) :
    base.toDecimal = .ok r.sbc ∧ days = r.days ∧ risk = r.riskClass ∧
      (∃ cap, ordinary.mul values.umaDaily (.ofInt values.sbcCap) = .ok cap ∧
        r.capped = Decimal.min2 r.sbc cap) ∧
      ∃ quotas rest,
        (rates.filter fun rate => rate.concept != riskConcept).mapM
          (quota policy values r.capped r.days) = .ok quotas ∧
        riskQuota policy r.capped r.days risks r.riskClass = .ok rest ∧
        r.quotas = quotas ++ rest := by
  obtain ⟨d, hd, h⟩ := bind_eq_ok.1 h
  simp only at h
  split at h
  · cases h
  · split at h
    · cases h
    · obtain ⟨cap, hcap, h⟩ := bind_eq_ok.1 h
      obtain ⟨quotas, hquotas, h⟩ := bind_eq_ok.1 h
      obtain ⟨rest, hrest, h⟩ := bind_eq_ok.1 h
      cases h
      exact ⟨hd, rfl, rfl, ⟨cap, signal_eq_ok.1 hcap, rfl⟩, quotas, rest, hquotas, hrest, rfl⟩

/-- Contributions are computed from the number of their base alone. -/
theorem calculate_written (hb : r.sbc.readable)
    (h : calculate policy rates values risks base days risk = .ok r) :
    calculate policy rates values risks (.given (.ofDecimal r.sbc)) r.days r.riskClass = .ok r := by
  obtain ⟨hsbc, rfl, rfl, -⟩ := calculate_eq_ok h
  have hsame : (Amount.given (.ofDecimal r.sbc)).toDecimal = base.toDecimal :=
    (Json.toDecimal_ofDecimal hb).trans hsbc.symm
  rw [calculate]
  rw [hsame]
  exact h

end Imss

namespace Replay

variable {policy : RoundingPolicy} {now : Instant} {employee : Employee} {period : Period}
  {values : FiscalValues} {rule : String}

theorem storedTable_tableRules {α : Type} [BracketTerms α] {table : BracketTable α}
    (ht : ∀ row ∈ table.rows, Bracket.load row.toJson = .ok row) :
    storedTable (.object (Snapshot.tableRules rule table policy)) = .ok (table, true) := by
  have hrows : (table.rows.map Bracket.toJson).mapM Bracket.load = .ok table.rows :=
    mapM_map_eq_ok ht
  have htable : BracketTable.of? table.name table.rows = .ok table :=
    BracketTable.of?_eq_ok.2 ⟨rfl, rfl⟩
  refine bind_eq_ok.2 ⟨_, rfl, bind_eq_ok.2 ⟨_, rfl, bind_eq_ok.2 ⟨_, rfl, bind_eq_ok.2 ⟨_, rfl,
    bind_eq_ok.2 ⟨_, hrows, bind_eq_ok.2 ⟨_, htable, bind_eq_ok.2 ⟨_, rfl, ?_⟩⟩⟩⟩⟩⟩⟩
  simp [isText]
  rfl

theorem storedRates_imssRules {tables : FiscalTables}
    (ht : ∀ r ∈ tables.published.imss, ImssRate.load r.toJson = .ok r) :
    storedRates (.object (Snapshot.imssRules rule tables policy)) = .ok tables.published.imss := by
  have hrates : (tables.published.imss.map ImssRate.toJson).mapM ImssRate.load =
      .ok tables.published.imss := mapM_map_eq_ok ht
  exact bind_eq_ok.2 ⟨_, rfl, bind_eq_ok.2 ⟨_, rfl, hrates⟩⟩

/-- The rates of the risk classes as a snapshot names them. -/
def namedRisks (s : TableSet) : List (String × Decimal) := s.riskRates.map fun r => (r.1.name, r.2)

theorem storedRiskRates_imssRules {tables : FiscalTables}
    (ht : ∀ r ∈ tables.published.riskRates, r.2.readable) :
    storedRiskRates (.object (Snapshot.imssRules rule tables policy)) =
      .ok (namedRisks tables.published) := by
  have hrisks : (tables.published.riskRates.map fun r => (r.1.name, Json.ofDecimal r.2)).mapM
      (fun f => do pure (f.1, ← f.2.toDecimal)) = .ok (namedRisks tables.published) := by
    rw [List.mapM_map]
    apply mapM_eq_map
    intro r hr
    exact bind_eq_ok.2 ⟨r.2, Json.toDecimal_ofDecimal (ht r hr), rfl⟩
  exact bind_eq_ok.2 ⟨_, rfl, bind_eq_ok.2 ⟨_, rfl, hrisks⟩⟩

theorem ratesChecksum_namedRisks (s : TableSet) :
    ratesChecksum s.imss (namedRisks s) = s.imssChecksum := by
  rw [ratesChecksum, namedRisks, TableSet.imssChecksum, TableSet.riskJson, TableSet.ratesJson]
  rw [List.map_map]
  rfl

/-- The base of a tax as the inputs of a snapshot hold it. -/
def baseInput (d : Decimal) : Json := .object [("base", .ofDecimal d)]

theorem recompute_isr {table : BracketTable IsrTerms} {base : Decimal} {r : IsrResult}
    (ht : ∀ row ∈ table.rows, Bracket.load row.toJson = .ok row) (hb : base.readable)
    (hr : Isr.calculate policy table base = .ok r) :
    recompute .isr (Snapshot.input now employee period values (baseInput base))
      (Snapshot.tableRules rule table policy) = .ok ⟨r.isr, true⟩ := by
  have hisr : isr policy (.object (Snapshot.tableRules rule table policy)) (baseInput base) =
      .ok ⟨r.isr, true⟩ :=
    bind_eq_ok.2 ⟨_, storedTable_tableRules ht, bind_eq_ok.2 ⟨_, rfl, bind_eq_ok.2
      ⟨base, Json.toDecimal_ofDecimal hb, bind_eq_ok.2 ⟨r, hr, rfl⟩⟩⟩⟩
  exact bind_eq_ok.2 ⟨_, rfl, bind_eq_ok.2 ⟨policy, policy.load_toJson, hisr⟩⟩

theorem recompute_subsidy {table : BracketTable SubsidyTerms} {base : Decimal} {r : SubsidyResult}
    (ht : ∀ row ∈ table.rows, Bracket.load row.toJson = .ok row) (hb : base.readable)
    (hr : Isr.subsidy policy table base = .ok r) :
    recompute .subsidy (Snapshot.input now employee period values (baseInput base))
      (Snapshot.tableRules rule table policy) = .ok ⟨r.subsidy, true⟩ := by
  have hsubsidy : subsidy policy (.object (Snapshot.tableRules rule table policy)) (baseInput base) =
      .ok ⟨r.subsidy, true⟩ :=
    bind_eq_ok.2 ⟨_, storedTable_tableRules ht, bind_eq_ok.2 ⟨_, rfl, bind_eq_ok.2
      ⟨base, Json.toDecimal_ofDecimal hb, bind_eq_ok.2 ⟨r, hr, rfl⟩⟩⟩⟩
  exact bind_eq_ok.2 ⟨_, rfl, bind_eq_ok.2 ⟨policy, policy.load_toJson, hsubsidy⟩⟩

/-- The amount that an entry of a kind holds of the contributions. -/
def totalOf : AuditKind → ImssResult → Except Fault Decimal
  | .imssEmployer => ImssResult.employerTotal
  | .housing => ImssResult.housing
  | _ => ImssResult.employeeTotal

theorem recompute_imss {tables : FiscalTables} (ht : tables.published.ReadsBack) {r : ImssResult}
    (hr : Imss.calculate policy tables.published.imss tables.values tables.riskRates
      (.given (.ofDecimal r.sbc)) r.days r.riskClass = .ok r)
    {kind : AuditKind} (hk : kind = .imssEmployee ∨ kind = .imssEmployer ∨ kind = .housing)
    {d : Decimal} (hd : totalOf kind r = .ok d) :
    recompute kind
      (Snapshot.input now employee period tables.values (.object (Recording.imssInputs r)))
      (Snapshot.imssRules rule tables policy) = .ok ⟨d, true⟩ := by
  have himss {total : ImssResult → Except Fault Decimal} (htotal : total r = .ok d) :
      imss policy (.object (Snapshot.input now employee period tables.values
          (.object (Recording.imssInputs r))))
        (.object (Snapshot.imssRules rule tables policy)) (.object (Recording.imssInputs r)) total =
          .ok ⟨d, true⟩ := by
    have hamounts : (namedRisks tables.published).map (fun r => (r.1, Amount.ofDecimal r.2)) =
        tables.riskRates := by
      rw [namedRisks, FiscalTables.riskRates]
      rw [List.map_map]
      rfl
    refine bind_eq_ok.2 ⟨_, storedRates_imssRules ht.imss, bind_eq_ok.2 ⟨_,
      storedRiskRates_imssRules ht.riskRates, bind_eq_ok.2 ⟨_, rfl, bind_eq_ok.2 ⟨_, rfl,
      bind_eq_ok.2 ⟨_, rfl, bind_eq_ok.2 ⟨r.days, rfl, bind_eq_ok.2 ⟨_, rfl, bind_eq_ok.2 ⟨_,
      ht.values, bind_eq_ok.2 ⟨r, ?_, bind_eq_ok.2 ⟨d, htotal, ?_⟩⟩⟩⟩⟩⟩⟩⟩⟩⟩
    · rw [hamounts]
      exact hr
    · rw [ratesChecksum_namedRisks]
      simp [isText]
      rfl
  rcases hk with rfl | rfl | rfl
  all_goals exact bind_eq_ok.2 ⟨_, rfl, bind_eq_ok.2 ⟨policy, policy.load_toJson, himss hd⟩⟩

theorem recompute_formula {v : FormulaVersion} {bindings : Formula.Bindings}
    {o : Formula.Outcome} (hvalues : FiscalValues.load values.toJson = .ok values)
    (hlimit : ∀ d ∈ v.exemptLimit, d.readable) (hb : Formula.Readable bindings)
    (ho : Formula.evaluateWithExemption policy (.ofValues bindings) (Calculation.exemptionRule v)
      (some values) v.expression = .ok o) :
    recompute .formula
      (Snapshot.input now employee period values (.object [("variables", .object (o.inputs.map
        fun v => (v.1.name, .optional .ofDecimal v.2)))]))
      (Snapshot.formulaRules v policy) = .ok ⟨o.value, true⟩ := by
  -- the rule of the version as it is written in the snapshot
  let limit : Json := .optional .ofDecimal v.exemptLimit
  let rule' : Formula.ExemptionRule := {
    taxable := v.taxable
    exempt := v.exempt
    limit := if limit.isNull then none else some (.given limit)
    limitUnit := .optional (.text ·.name) v.limitUnit }
  have hnumber : rule'.limitNumber = (Calculation.exemptionRule v).limitNumber := by
    rw [Formula.ExemptionRule.limitNumber, Calculation.exemptionRule]
    simp only [rule', limit]
    cases hd : v.exemptLimit with
    | none => rfl
    | some d => exact Json.toDecimal_ofDecimal (hlimit d hd)
  have hagain : Formula.evaluateWithExemption policy (.ofFields (o.inputs.map
      fun v => (v.1.name, .optional .ofDecimal v.2))) rule' (some values) v.expression = .ok o := by
    refine Formula.evaluateWithExemption_written (Formula.Reading.readable_ofValues hb) ?_ ?_ hnumber
      ?_ ho
    all_goals rfl
  have hformula : formula policy
      (.object (Snapshot.input now employee period values (.object [("variables", .object
        (o.inputs.map fun v => (v.1.name, .optional .ofDecimal v.2)))])))
      (.object (Snapshot.formulaRules v policy)) (.object [("variables", .object
        (o.inputs.map fun v => (v.1.name, .optional .ofDecimal v.2)))]) = .ok ⟨o.value, true⟩ := by
    refine bind_eq_ok.2 ⟨_, rfl, bind_eq_ok.2 ⟨_, rfl, bind_eq_ok.2 ⟨_, rfl, bind_eq_ok.2 ⟨_, rfl,
      bind_eq_ok.2 ⟨_, rfl, bind_eq_ok.2 ⟨_, rfl, bind_eq_ok.2 ⟨_, rfl, bind_eq_ok.2 ⟨_, rfl,
      bind_eq_ok.2 ⟨_, rfl, bind_eq_ok.2 ⟨values, hvalues, bind_eq_ok.2 ⟨v.expression, rfl,
      bind_eq_ok.2 ⟨o, hagain, ?_⟩⟩⟩⟩⟩⟩⟩⟩⟩⟩⟩⟩
    simp [isText]
    rfl
  exact bind_eq_ok.2 ⟨_, rfl, bind_eq_ok.2 ⟨policy, policy.load_toJson, hformula⟩⟩

end Replay

end Payroll
