import Mathlib
import Payroll.Proofs.EntryReplay
import Payroll.Proofs.RecordingSteps

/-!
The entries of a calculation: each reads back as it was stored, and computing its amount again finds
nothing wrong with it.
-/

namespace Payroll

open Decimal (Context)
open Result

namespace Replay

variable {e : AuditEntry} {input output rules : Fields}

/-- What a check finds of an entry that nothing is wrong with. -/
def intact (e : AuditEntry) : IntegrityCheck where
  entry := e.id
  valid := true
  recomputed := some e.result
  stored := e.result
  checksumValid := true
  hashValid := true
  details := []

theorem checkEntry_withSnapshots (hi : input ≠ []) (hr : rules ≠ [])
    (h : recompute e.kind input rules = .ok ⟨e.result, true⟩) :
    checkEntry (e.withSnapshots input output rules) =
      .ok (intact (e.withSnapshots input output rules)) := by
  obtain ⟨i, is, rfl⟩ := List.exists_cons_of_ne_nil hi
  obtain ⟨r, rs, rfl⟩ := List.exists_cons_of_ne_nil hr
  have hagain : recompute (e.withSnapshots (i :: is) output (r :: rs)).kind (i :: is) (r :: rs) =
      .ok ⟨e.result, true⟩ := h
  have hhash : ((e.withSnapshots (i :: is) output (r :: rs)).snapshotHash ==
      some (e.withSnapshots (i :: is) output (r :: rs)).hashedContent.checksum) = true :=
    beq_iff_eq.2 (e.snapshotHash_withSnapshots _ _ _)
  have hsame : e.result.same (e.withSnapshots (i :: is) output (r :: rs)).result = true :=
    Decimal.same_self e.result
  have hcheck : checkEntry (e.withSnapshots (i :: is) output (r :: rs)) =
      .ok (judge (e.withSnapshots (i :: is) output (r :: rs)) true ⟨e.result, true⟩) := by
    unfold checkEntry
    split
    · next hi hr =>
      cases hi
      cases hr
      rw [hagain, hhash]
    · next hnone => exact absurd rfl (hnone i is r rs rfl)
  rw [hcheck]
  simp [judge, intact, hsame]
  rfl

end Replay

/-- An entry that reads back from its stored form, and whose check finds nothing. -/
def AuditEntry.Replays (e : AuditEntry) : Prop :=
  AuditEntry.load e.toJson = .ok e ∧ Replay.checkEntry e = .ok (Replay.intact e)

/-- What the amounts of a calculation come from: the versions in effect and values of variables, the
tax table of the period, and the rates and values of the year. -/
structure Calculation.Traced (s : Calculation.Setting) (versions : List FormulaVersion)
    (c : Calculation) : Prop where
  concepts : ∀ a ∈ c.perceptions ++ c.deductions, a.version ∈ versions ∧
    ∃ values, Formula.Readable values ∧
      Formula.evaluateWithExemption s.policy (.ofValues values) (exemptionRule a.version)
        (some s.tables.values) a.version.expression = .ok a.outcome
  tax : ∃ table taxable, s.tables.isrTable s.period.kind.name = .ok table ∧
    Decimal.readable taxable ∧ Isr.withSubsidy s.policy table
      (s.tables.subsidyTable s.period.kind.name) taxable = .ok c.isr
  contributions : ∃ base days risk, (∀ d, base.toDecimal = .ok d → d.readable) ∧
    Imss.calculate s.policy s.tables.published.imss s.tables.values s.tables.riskRates base days
      risk = .ok c.imss

namespace Calculation

variable {s : Setting} {values : Formula.Bindings} {versions : List FormulaVersion}

theorem evaluateConcepts_eq_ok {amounts : List ConceptAmount} {skipped : List SkippedConcept}
    (h : evaluateConcepts s values versions = .ok (amounts, skipped)) :
    ∀ a ∈ amounts, a.version ∈ versions ∧
      Formula.evaluateWithExemption s.policy (.ofValues values) (exemptionRule a.version)
        (some s.tables.values) a.version.expression = .ok a.outcome := by
  induction versions generalizing amounts skipped with
  | nil =>
      cases h
      intro a ha
      cases ha
  | cons v vs ih =>
      have hrest {as : List ConceptAmount} {ss : List SkippedConcept}
          (hv : evaluateConcepts s values vs = .ok (as, ss)) : ∀ a ∈ as, a.version ∈ v :: vs ∧
            Formula.evaluateWithExemption s.policy (.ofValues values) (exemptionRule a.version)
              (some s.tables.values) a.version.expression = .ok a.outcome := by
        intro a ha
        obtain ⟨hm, he⟩ := ih hv a ha
        exact ⟨List.mem_cons_of_mem _ hm, he⟩
      simp only [evaluateConcepts] at h
      split at h
      · next outcome houtcome =>
        obtain ⟨⟨as, ss⟩, hv, h⟩ := bind_eq_ok.1 h
        cases h
        intro a ha
        rcases List.mem_cons.1 ha with rfl | ha
        · exact ⟨List.mem_cons_self, houtcome⟩
        · exact hrest hv a ha
      · split at h
        · obtain ⟨⟨as, ss⟩, hv, h⟩ := bind_eq_ok.1 h
          cases h
          exact hrest hv
        · cases h

theorem traced_of_compute {c : Configuration} {detail id : String} {calculation : Calculation}
    (hs : s.employee.Loaded) (hv : Formula.Readable values)
    (h : compute c s values detail id versions = .ok calculation) : calculation.Traced s versions := by
  obtain ⟨-, -, ⟨steps⟩⟩ := compute_eq_ok h
  have hv₁ := readable_provide (fun _ => readable_totalValue) hv steps.total
  have hv₂ := readable_provide (fun _ => readable_totalTaxable) hv₁ steps.income
  refine ⟨?_, ?_, ?_⟩
  · intro a ha
    rcases List.mem_append.1 ha with ha | ha
    · obtain ⟨hm, he⟩ := evaluateConcepts_eq_ok steps.perceptions a ha
      exact ⟨List.mem_of_mem_filter hm, values, hv, he⟩
    · obtain ⟨hm, he⟩ := evaluateConcepts_eq_ok steps.deductions a ha
      exact ⟨List.mem_of_mem_filter hm, steps.withTaxable, hv₂, he⟩
  · exact ⟨steps.table, steps.taxable, steps.isrTable, readable_totalTaxable steps.taxableIncome,
      steps.tax⟩
  · exact ⟨contributionBase s steps.withTaxable, steps.days, steps.risk,
      fun d => readable_contributionBase hs hv₂, steps.contributions⟩

end Calculation

namespace ImssResult

variable {r : ImssResult} {d : Decimal}

theorem readable_totalOf {kind : AuditKind} (h : Replay.totalOf kind r = .ok d) : d.readable := by
  cases kind <;> exact Context.readable_of_sum Context.standard_ordinary (signal_eq_ok.1 h)

end ImssResult

namespace Recording

variable {a : Author} {s : Calculation.Setting} {versions : List FormulaVersion} {c : Calculation}

/-- The amounts of what an entry says can be written and read again. -/
structure Content.Readable (x : Content) : Prop where
  base : x.base.readable
  lower : ∀ d ∈ x.lower, d.readable
  excess : ∀ d ∈ x.excess, d.readable
  marginal : ∀ d ∈ x.marginal, d.readable
  fixedFee : ∀ d ∈ x.fixedFee, d.readable
  result : x.result.readable

theorem replays_entryFor {calculation : Json} {breakdown rules : Fields} {x : Content}
    (hx : x.Readable) (hrules : rules ≠ [])
    (h : Replay.recompute x.kind
      (Snapshot.input a.now s.employee s.period s.tables.values calculation) rules =
        .ok ⟨x.result, true⟩) (id : String) :
    (entryFor a s c calculation breakdown rules x id).Replays := by
  constructor
  · exact AuditEntry.load_toJson ⟨hx.base, hx.lower, hx.excess, hx.marginal, hx.fixedFee, hx.result⟩
  · exact Replay.checkEntry_withSnapshots (List.cons_ne_nil _ _) hrules h

theorem replays_formulaEntry (ht : s.tables.ReadsBack) (hc : c.Traced s versions)
    (hversions : ∀ v ∈ versions, versionOf versions v = v ∧ ∀ d ∈ v.exemptLimit, d.readable)
    {amount : ConceptAmount} (hm : amount ∈ c.perceptions ++ c.deductions)
    {make : String → AuditEntry} (h : formulaEntry a s versions c amount = .ok make) (id : String) :
    (make id).Replays := by
  obtain ⟨hv, values, hvalues, houtcome⟩ := hc.concepts amount hm
  obtain ⟨hof, hlimit⟩ := hversions _ hv
  unfold formulaEntry at h
  rw [hof] at h
  cases h
  have hvalue := Formula.readable_of_evaluateWithExemption houtcome
  refine replays_entryFor ⟨hvalue, ?_, ?_, ?_, ?_, hvalue⟩ (List.cons_ne_nil _ _) ?_ id
  · exact fun _ hd => nomatch hd
  · exact fun _ hd => nomatch hd
  · exact fun _ hd => nomatch hd
  · exact fun _ hd => nomatch hd
  · exact Replay.recompute_formula ht.published.values hlimit hvalues houtcome

theorem replays_isrEntry (ht : s.tables.ReadsBack) (hc : c.Traced s versions)
    {table : BracketTable IsrTerms} (htable : s.tables.isrTable s.period.kind.name = .ok table)
    {make : String → AuditEntry} (h : isrEntry a s c table = .ok make) (id : String) :
    (make id).Replays := by
  obtain ⟨table', taxable, htable', hb, htax⟩ := hc.tax
  rw [htable] at htable'
  cases htable'
  obtain ⟨hisr, -⟩ := Isr.withSubsidy_eq_ok htax
  obtain ⟨hbase, hlower, hfee, hexcess, ⟨_, hmarginal⟩, _, hresult⟩ := Isr.calculate_eq_ok hisr
  have hrows := ht.of_isrTable htable
  have hrow := hrows _ (List.get_mem table.rows ⟨_, table.position_lt taxable⟩)
  cases h
  refine replays_entryFor ⟨?_, ?_, ?_, ?_, ?_, ?_⟩ (List.cons_ne_nil _ _) ?_ id
  · exact hbase ▸ hb
  · rintro d ⟨rfl⟩
    rw [hlower]
    exact (Bracket.readable_of_load hrow).1
  · rintro d ⟨rfl⟩
    obtain ⟨_, hsub, he⟩ := bind_eq_ok.1 hexcess
    rw [← pure_eq_ok.1 he]
    exact Decimal.readable_max2 Decimal.readable_zero
      (Context.readable_of_sub Context.standard_ordinary (signal_eq_ok.1 hsub))
  · rintro d ⟨rfl⟩
    exact RoundingPolicy.readable_of_apply hmarginal
  · rintro d ⟨rfl⟩
    rw [hfee]
    exact Bracket.readable_fixedFee hrow
  · exact RoundingPolicy.readable_of_apply hresult
  · rw [hbase]
    exact Replay.recompute_isr hrows hb hisr

theorem replays_subsidyEntry (ht : s.tables.ReadsBack) (hc : c.Traced s versions)
    {r : SubsidyResult} (hr : c.isr.subsidy = some r) {table : BracketTable SubsidyTerms}
    (htable : s.tables.subsidyTable s.period.kind.name = some table)
    {make : String → AuditEntry} (h : subsidyEntry a s c r table = .ok make) (id : String) :
    (make id).Replays := by
  obtain ⟨_, taxable, -, hb, htax⟩ := hc.tax
  obtain ⟨hisr, -, hsubsidy⟩ := Isr.withSubsidy_eq_ok htax
  obtain ⟨table', ht', hsubsidy⟩ := hsubsidy r hr
  rw [htable] at ht'
  cases ht'
  obtain ⟨hbase, -⟩ := Isr.calculate_eq_ok hisr
  obtain ⟨hbase', hlower, _, hresult⟩ := Isr.subsidy_eq_ok hsubsidy
  have hrows := ht.of_subsidyTable htable
  have hrow := hrows _ (List.get_mem table.rows ⟨_, table.position_lt taxable⟩)
  cases h
  refine replays_entryFor ⟨?_, ?_, ?_, ?_, ?_, ?_⟩ (List.cons_ne_nil _ _) ?_ id
  · exact hbase' ▸ hb
  · rintro d ⟨rfl⟩
    rw [hlower]
    exact (Bracket.readable_of_load hrow).1
  · exact fun _ hd => nomatch hd
  · exact fun _ hd => nomatch hd
  · exact fun _ hd => nomatch hd
  · exact RoundingPolicy.readable_of_apply hresult
  · rw [hbase]
    exact Replay.recompute_subsidy hrows hb hsubsidy

theorem mem_imssParts {r : ImssResult} {parts : List ImssPart} (h : imssParts r = .ok parts)
    {part : ImssPart} (hp : part ∈ parts) : (part.kind = .imssEmployee ∨
      part.kind = .imssEmployer ∨ part.kind = .housing) ∧
        Replay.totalOf part.kind r = .ok part.amount := by
  obtain ⟨employee, hemployee, h⟩ := bind_eq_ok.1 h
  obtain ⟨employer, hemployer, h⟩ := bind_eq_ok.1 h
  obtain ⟨housing, hhousing, h⟩ := bind_eq_ok.1 h
  cases h
  rcases List.mem_cons.1 hp with rfl | hp
  · exact ⟨.inl rfl, hemployee⟩
  · rcases List.mem_cons.1 hp with rfl | hp
    · exact ⟨.inr (.inl rfl), hemployer⟩
    · unfold housingPart at hhousing
      split at hhousing
      · obtain ⟨d, hd, hhousing⟩ := bind_eq_ok.1 hhousing
        cases hhousing
        cases List.mem_singleton.1 hp
        exact ⟨.inr (.inr rfl), hd⟩
      · cases hhousing
        cases hp

theorem replays_imssEntry (ht : s.tables.ReadsBack) (hc : c.Traced s versions)
    {parts : List ImssPart} (hparts : imssParts c.imss = .ok parts) {part : ImssPart}
    (hp : part ∈ parts) {make : String → AuditEntry} (h : imssEntry a s c part = .ok make)
    (id : String) : (make id).Replays := by
  obtain ⟨base, days, risk, hb, himss⟩ := hc.contributions
  obtain ⟨hsbc, -, -, ⟨cap, hcap, hcapped⟩, -⟩ := Imss.calculate_eq_ok himss
  obtain ⟨hkind, htotal⟩ := mem_imssParts hparts hp
  rw [(imssEntry_eq_ok h).2]
  refine replays_entryFor ⟨?_, ?_, ?_, ?_, ?_, ?_⟩ (List.cons_ne_nil _ _) ?_ id
  · simp only
    rw [hcapped]
    exact Decimal.readable_min2 (hb _ hsbc)
      (Context.readable_of_mul Context.standard_ordinary hcap)
  · exact fun _ hd => nomatch hd
  · exact fun _ hd => nomatch hd
  · exact fun _ hd => nomatch hd
  · exact fun _ hd => nomatch hd
  · exact ImssResult.readable_totalOf htotal
  · exact Replay.recompute_imss ht.published (Imss.calculate_written (hb _ hsbc) himss) hkind htotal

/-- Whatever a calculation stores can be computed again from what is stored. -/
theorem replays_of_mem_pending (ht : s.tables.ReadsBack) (hc : c.Traced s versions)
    (hversions : ∀ v ∈ versions, versionOf versions v = v ∧ ∀ d ∈ v.exemptLimit, d.readable)
    {make : String → AuditEntry} (h : .ok make ∈ pending a s versions c) (id : String) :
    (make id).Replays := by
  rcases mem_pending h with ⟨amount, hm, he⟩ | ⟨table, htable, he⟩ | ⟨r, table, hr, htable, he⟩ |
    ⟨parts, hparts, part, hp, he⟩
  · exact replays_formulaEntry ht hc hversions hm he id
  · exact replays_isrEntry ht hc htable he id
  · exact replays_subsidyEntry ht hc hr htable he id
  · exact replays_imssEntry ht hc hparts hp he id

end Recording

end Payroll
