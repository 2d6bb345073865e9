import Mathlib
import Payroll.Audit.Replay
import Payroll.Proofs.Faults
import Payroll.Proofs.HashedSnapshots

/-!
What the check of a stored entry says, and what it stops at. Most of what can be wrong with a
snapshot is reported; the rest is listed here.
-/

namespace Payroll

open Result

theorem Amount.toDecimal_fails (a : Amount) :
    FailsIn (fun f => f.isValueFault = true ∨ f = .arithmetic .invalidOperation) a.toDecimal := by
  have htext (j : Json) (s : String) :
      FailsIn (fun f => f.isValueFault = true ∨ f = .arithmetic .invalidOperation) (ofText j s) := by
    unfold ofText
    split
    · exact .ok _
    · exact .error (.inl rfl)
    · exact .error (.inl rfl)
  unfold toDecimal
  split
  · exact .ok _
  · exact .error (.inl rfl)
  · split
    · exact .ok _
    · exact .error (.inr rfl)
  · exact htext _ _
  · exact htext _ _
  · exact .error (.inl rfl)

theorem Record.load_fails {α : Type} {name : String} {read : Record.Reader α} (j : Json) :
    FailsIn (fun f => f.isValueFault = true) (Record.load name read j) := by
  unfold Record.load
  cases read j with
  | ok a => exact .ok a
  | error is => exact .error rfl

namespace Replay

/-- A snapshot that is no good, or a number out of range. -/
def Unusable (f : Fault) : Prop :=
  isReplayFault f = true ∨ f = .arithmetic .overflow ∨ f = .arithmetic .invalidOperation

theorem isReplayFault_of_value {f : Fault} (h : f.isValueFault = true) : isReplayFault f = true := by
  simp [isReplayFault, h]

theorem isReplayFault_of_formula {f : Fault} (h : f.isFormulaFault = true) :
    isReplayFault f = true := by
  simp [isReplayFault, h]

theorem unusable_of_outOfRange {f : Fault} (h : f.OutOfRange) : Unusable f := by
  obtain rfl | h := h
  · exact .inl rfl
  · exact .inr h

section

variable {α : Type} {x : Except Fault α}

theorem unusable_range (h : FailsIn Fault.OutOfRange x) : FailsIn Unusable x :=
  h.mono fun _ => unusable_of_outOfRange

theorem unusable_value (h : FailsIn (fun f => f.isValueFault = true) x) : FailsIn Unusable x :=
  h.mono fun _ hf => .inl (isReplayFault_of_value hf)

end

theorem toDecimal_unusable (a : Amount) : FailsIn Unusable a.toDecimal :=
  a.toDecimal_fails.mono fun _ h => h.elim (.inl ∘ isReplayFault_of_value) fun h => .inr (.inr h)

theorem select_unusable (j : Json) (key : String) : FailsIn Unusable (j.select key) := by
  unfold Json.select
  split
  · split
    · exact .ok _
    · exact .error (.inl rfl)
  · exact .error (.inl rfl)

theorem members_unusable (j : Json) : FailsIn Unusable j.members := by
  unfold Json.members
  split
  · exact .ok _
  · exact .ok _
  · exact .ok _
  · exact .error (.inl rfl)

theorem apply_unusable (p : RoundingPolicy) (d : Decimal) : FailsIn Unusable (p.apply d) :=
  unusable_range (p.apply_fails d)

section Tables

variable {α : Type}

theorem issues_unusable (rows : List (Bracket α)) : FailsIn Unusable (BracketTable.issues rows) := by
  have hbetween (i : Nat) (row next : Bracket α) :
      FailsIn Unusable (BracketTable.issuesBetween i row next) := by
    unfold BracketTable.issuesBetween
    split
    · exact .ok _
    · split_ifs
      · exact .ok _
      · exact .ok _
      · exact FailsIn.bind (unusable_range (signal_fails Decimal.Context.sub_fails)) fun _ _ => .ok _
  have hfrom (rows : List (Bracket α)) (i : Nat) :
      FailsIn Unusable (BracketTable.issuesFrom i rows) := by
    induction rows generalizing i with
    | nil => exact .ok _
    | cons row rows ih =>
        cases rows with
        | nil =>
            unfold BracketTable.issuesFrom
            split <;> exact .ok _
        | cons next rows =>
            unfold BracketTable.issuesFrom
            exact (hbetween i row next).bind fun _ _ => (ih (i + 1)).bind fun _ _ => .ok _
  cases rows with
  | nil => exact .ok _
  | cons row rows => exact (hfrom _ 0).bind fun _ _ => .ok _

theorem storedTable_unusable [BracketTerms α] (rules : Json) :
    FailsIn Unusable (storedTable rules : Except Fault (BracketTable α × Bool)) := by
  have htable (name : String) (rows : List (Bracket α)) :
      FailsIn Unusable (BracketTable.of? name rows) := by
    unfold BracketTable.of?
    split
    · exact .ok _
    · exact .error (.inl rfl)
    · next h => exact .error (issues_unusable rows _ h)
  refine FailsIn.bind (select_unusable _ _) fun stored _ => ?_
  refine FailsIn.bind (select_unusable _ _) fun name _ => ?_
  refine FailsIn.bind (select_unusable _ _) fun rows _ => ?_
  refine FailsIn.bind (members_unusable _) fun rows _ => ?_
  refine FailsIn.bind (.mapM fun row _ => unusable_value (Record.load_fails row)) fun rows _ => ?_
  refine FailsIn.bind (htable _ _) fun table _ => ?_
  exact FailsIn.bind (select_unusable _ _) fun _ _ => .ok _

theorem find_unusable (t : BracketTable α) (base : Amount) : FailsIn Unusable (t.find base) := by
  unfold BracketTable.find
  split
  · next h => exact .error (toDecimal_unusable base _ h)
  · split
    · exact .error (.inl rfl)
    · exact .ok _

end Tables

theorem isr_unusable (policy : RoundingPolicy) (rules calculation : Json) :
    FailsIn Unusable (isr policy rules calculation) := by
  have hcalculate (table : BracketTable IsrTerms) (base : Amount) :
      FailsIn Unusable (Isr.calculate policy table base) := by
    refine FailsIn.bind (find_unusable table base) fun m _ => ?_
    have hexcess : FailsIn Unusable m.excess :=
      FailsIn.bind (unusable_range (signal_fails Decimal.Context.sub_fails)) fun _ _ => .ok _
    refine hexcess.bind fun excess _ => ?_
    refine FailsIn.bind (unusable_range (signal_fails Decimal.Context.mul_fails)) fun marginal _ => ?_
    refine FailsIn.bind (apply_unusable policy marginal) fun rounded _ => ?_
    refine FailsIn.bind (unusable_range (signal_fails Decimal.Context.add_fails)) fun total _ => ?_
    exact FailsIn.bind (apply_unusable policy total) fun _ _ => .ok _
  refine FailsIn.bind (storedTable_unusable rules) fun table _ => ?_
  refine FailsIn.bind (select_unusable _ _) fun base _ => ?_
  refine FailsIn.bind (toDecimal_unusable _) fun base _ => ?_
  exact FailsIn.bind (hcalculate _ _) fun _ _ => .ok _

theorem subsidy_unusable (policy : RoundingPolicy) (rules calculation : Json) :
    FailsIn Unusable (subsidy policy rules calculation) := by
  refine FailsIn.bind (storedTable_unusable rules) fun table _ => ?_
  refine FailsIn.bind (select_unusable _ _) fun base _ => ?_
  refine FailsIn.bind (toDecimal_unusable _) fun base _ => ?_
  refine FailsIn.bind ?_ fun _ _ => .ok _
  refine FailsIn.bind (find_unusable _ _) fun m _ => ?_
  exact FailsIn.bind (apply_unusable policy _) fun _ _ => .ok _

/-! ### Contributions -/

theorem amount_unusable (policy : RoundingPolicy) (daily : Decimal) (days : Int) (rate : Decimal) :
    FailsIn Unusable (Imss.amount policy daily days rate) := by
  refine FailsIn.bind (unusable_range (signal_fails Decimal.Context.mul_fails)) fun total _ => ?_
  refine FailsIn.bind (unusable_range (signal_fails Decimal.Context.mul_fails)) fun _ _ => ?_
  exact apply_unusable policy _

theorem quota_unusable (policy : RoundingPolicy) (values : FiscalValues) (capped : Decimal)
    (days : Int) (rate : ImssRate) : FailsIn Unusable (Imss.quota policy values capped days rate) := by
  have hdaily (base : ImssBase) : FailsIn Unusable (Imss.dailyBase values capped base) := by
    cases base with
    | sbc => exact .ok _
    | uma => exact .ok _
    | excess =>
        refine FailsIn.bind (unusable_range (signal_fails Decimal.Context.mul_fails)) fun _ _ => ?_
        exact FailsIn.bind (unusable_range (signal_fails Decimal.Context.sub_fails)) fun _ _ => .ok _
  refine FailsIn.bind (hdaily _) fun daily _ => ?_
  refine FailsIn.bind (amount_unusable _ _ _ _) fun employer _ => ?_
  exact FailsIn.bind (amount_unusable _ _ _ _) fun employee _ => .ok _

theorem riskQuota_unusable (policy : RoundingPolicy) (capped : Decimal) (days : Int)
    (rates : List (String × Amount)) (risk : Json) :
    FailsIn Unusable (Imss.riskQuota policy capped days rates risk) := by
  have hrate : FailsIn Unusable (Imss.riskRate rates risk) := by
    unfold Imss.riskRate
    split
    · split
      · exact toDecimal_unusable _
      · exact .error (.inl rfl)
    · exact .error (.inl rfl)
    · exact .error (.inl rfl)
    · exact .error (.inl rfl)
  unfold Imss.riskQuota
  split
  · refine hrate.bind fun rate _ => ?_
    refine FailsIn.bind (amount_unusable _ _ _ _) fun employer _ => ?_
    exact FailsIn.bind (apply_unusable policy 0) fun employee _ => .ok _
  · exact .ok _

theorem calculate_unusable (policy : RoundingPolicy) (rates : List ImssRate)
    (values : FiscalValues) (risks : List (String × Amount)) (sbc : Amount) (days : Int)
    (risk : Json) :
    FailsIn Unusable (Imss.calculate policy rates values risks sbc days risk) := by
  refine FailsIn.bind (toDecimal_unusable sbc) fun sbc _ => ?_
  dsimp only
  split
  · exact .error (.inl rfl)
  · split
    · have hdays : Unusable (Imss.refuseDays days) := by
        unfold Imss.refuseDays
        split <;> exact .inl rfl
      exact .error hdays
    · refine FailsIn.bind (unusable_range (signal_fails Decimal.Context.mul_fails)) fun cap _ => ?_
      refine FailsIn.bind (.mapM fun rate _ => quota_unusable _ _ _ _ rate) fun quotas _ => ?_
      exact FailsIn.bind (riskQuota_unusable _ _ _ _ _) fun _ _ => .ok _

theorem totals_unusable (r : ImssResult) :
    FailsIn Unusable r.employeeTotal ∧ FailsIn Unusable r.employerTotal ∧
      FailsIn Unusable r.housing := by
  have hsum (ds : List Decimal) :
      FailsIn Unusable (liftM (Decimal.ordinary.sum ds) : Except Fault Decimal) :=
    unusable_range (signal_fails (Decimal.Context.sum_fails ds))
  exact ⟨hsum _, hsum _, hsum _⟩

/-! ### What a check stops at -/

def contributions : List AuditKind := [.imssEmployee, .imssEmployer, .housing]

def calculationOf (inputs : Fields) : Json :=
  (Fields.lookup inputs "calculation").getD (.object [])

/-- Faults of a snapshot that its check does not report: risk classes or variables that are no
object, a number of days without end, a literal that denotes no number, and results out of range. -/
inductive Stopping (kind : AuditKind) (inputs rules : Fields) : Fault → Prop
  | riskClasses {j : Json} (hk : kind ∈ contributions)
      (h : Fields.lookup rules "risk_classes" = some j) (hj : ∀ fs, j ≠ .object fs) :
      Stopping kind inputs rules (.noAttribute j "items")
  | variables {j : Json} (hk : kind = .formula)
      (h : (calculationOf inputs).field? "variables" = some j) (hj : ∀ fs, j ≠ .object fs) :
      Stopping kind inputs rules (.noAttribute j "get")
  | days {negative : Bool} (hk : kind ∈ contributions)
      (h : (calculationOf inputs).field? "days" = some (.real (.infinity negative))) :
      Stopping kind inputs rules .infiniteInteger
  | literal {stored : Json} {s : String} (hk : kind = .formula)
      (h : Fields.lookup rules "formula" = some stored)
      (hs : stored.field? "expression" = some (.text s))
      (hl : Formula.accept s = .error (.arithmetic .conversionSyntax)) :
      Stopping kind inputs rules (.arithmetic .conversionSyntax)
  | overflow : Stopping kind inputs rules (.arithmetic .overflow)
  | tooLarge : Stopping kind inputs rules (.arithmetic .invalidOperation)

variable {kind : AuditKind} {inputs rules : Fields} {f : Fault}

theorem Stopping.unreported (h : Stopping kind inputs rules f) : isReplayFault f = false := by
  cases h <;> rfl

/-- A fault of a snapshot is reported, or stops the check. -/
def Settled (kind : AuditKind) (inputs rules : Fields) (f : Fault) : Prop :=
  isReplayFault f = true ∨ Stopping kind inputs rules f

theorem settled_of_unusable (h : Unusable f) : Settled kind inputs rules f := by
  obtain h | rfl | rfl := h
  · exact .inl h
  · exact .inr .overflow
  · exact .inr .tooLarge

theorem settled {α : Type} {x : Except Fault α} (h : FailsIn Unusable x) :
    FailsIn (Settled kind inputs rules) x := h.mono fun _ => settled_of_unusable

theorem select_eq_ok {j v : Json} {key : String} (h : j.select key = .ok v) :
    j.field? key = some v := by
  unfold Json.select at h
  split at h
  · split at h
    · next hv => exact hv.trans (congrArg some (Except.ok.inj h))
    · cases h
  · cases h

theorem toInteger_fails (j : Json) :
    FailsIn (fun f => Unusable f ∨ f = .infiniteInteger ∧ ∃ b, j = .real (.infinity b))
      j.toInteger := by
  unfold Json.toInteger
  split
  · exact .ok _
  · exact .ok _
  · exact .ok _
  · exact .error (.inr ⟨rfl, _, rfl⟩)
  · exact .error (.inl (.inl rfl))
  · unfold integerFromText
    dsimp only
    split
    · exact .error (.inl (.inl rfl))
    · split
      · exact .error (.inl (.inl rfl))
      · exact .ok _
  · exact .error (.inl (.inl rfl))

theorem imss_settled (hk : kind ∈ contributions) (policy : RoundingPolicy)
    {total : ImssResult → Except Fault Decimal} (ht : ∀ r, FailsIn Unusable (total r)) :
    FailsIn (Settled kind inputs rules)
      (imss policy (.object inputs) (.object rules) (calculationOf inputs) total) := by
  have hrates : FailsIn Unusable (storedRates (.object rules)) := by
    refine FailsIn.bind (select_unusable _ _) fun rates _ => ?_
    refine FailsIn.bind (members_unusable _) fun rates _ => ?_
    exact .mapM fun rate _ => unusable_value (Record.load_fails rate)
  have hrisks : FailsIn (Settled kind inputs rules) (storedRiskRates (.object rules)) := by
    refine FailsIn.bind (settled (select_unusable _ _)) fun j hj => ?_
    refine FailsIn.bind ?_ fun fs _ =>
      .mapM fun f _ => FailsIn.bind (settled (toDecimal_unusable _)) fun d _ => .ok _
    unfold Json.entries
    split
    · exact .ok _
    · next hobject => exact .error (.inr (.riskClasses hk (select_eq_ok hj) hobject))
  refine FailsIn.bind (settled hrates) fun rates _ => ?_
  refine hrisks.bind fun risks _ => ?_
  refine FailsIn.bind (settled (select_unusable _ _)) fun checksum _ => ?_
  refine FailsIn.bind (settled (select_unusable _ _)) fun sbc _ => ?_
  refine FailsIn.bind (settled (select_unusable _ _)) fun days hdays => ?_
  have hinteger : FailsIn (Settled kind inputs rules) days.toInteger := by
    refine (toInteger_fails days).mono fun f hf => ?_
    obtain hf | ⟨rfl, b, rfl⟩ := hf
    · exact settled_of_unusable hf
    · exact .inr (.days hk (select_eq_ok hdays))
  refine hinteger.bind fun days _ => ?_
  refine FailsIn.bind (settled (select_unusable _ _)) fun parameters _ => ?_
  refine FailsIn.bind (settled (unusable_value (Record.load_fails _))) fun values _ => ?_
  refine FailsIn.bind (settled (calculate_unusable _ _ _ _ _ _ _)) fun result _ => ?_
  exact FailsIn.bind (settled (ht result)) fun _ _ => .ok _

theorem formula_settled (policy : RoundingPolicy) :
    FailsIn (Settled .formula inputs rules)
      (formula policy (.object inputs) (.object rules) (calculationOf inputs)) := by
  refine FailsIn.bind (settled (select_unusable _ _)) fun stored hstored => ?_
  refine FailsIn.bind (settled (select_unusable _ _)) fun expression hexpression => ?_
  refine FailsIn.bind (settled (select_unusable _ _)) fun checksum _ => ?_
  refine FailsIn.bind (settled (select_unusable _ _)) fun given hgiven => ?_
  refine FailsIn.bind (settled (select_unusable _ _)) fun taxable _ => ?_
  refine FailsIn.bind (settled (select_unusable _ _)) fun limit _ => ?_
  refine FailsIn.bind (settled (select_unusable _ _)) fun unit _ => ?_
  refine FailsIn.bind (settled (select_unusable _ _)) fun exempt _ => ?_
  refine FailsIn.bind (settled (select_unusable _ _)) fun parameters _ => ?_
  refine FailsIn.bind (settled (unusable_value (Record.load_fails _))) fun values _ => ?_
  have hsource : FailsIn Unusable (Formula.source expression) := by
    unfold Formula.source
    split
    · exact .ok _
    · exact .error (.inl rfl)
    · exact .error (.inl rfl)
    · exact .error (.inl rfl)
  refine FailsIn.bind (settled hsource) fun s hs => ?_
  refine FailsIn.bind ?_ fun _ _ => .ok _
  have hreading (v : Formula.Variable) :
      FailsIn (Settled .formula inputs rules) (Formula.Reading.ofJson given v) := by
    unfold Formula.Reading.ofJson
    split
    · unfold Formula.Reading.ofFields
      split <;> exact .ok _
    · next hobject => exact .error (.inr (.variables rfl (select_eq_ok hgiven) hobject))
  refine (Formula.evaluateWithExemption_fails hreading (fun _ a _ => settled (toDecimal_unusable a))
    (fun a _ => settled (toDecimal_unusable a)) policy (some values) s).mono fun f hf => ?_
  obtain (hf | rfl | hf) | ⟨hf, -⟩ | ⟨rfl, hf⟩ := hf
  · exact .inl (isReplayFault_of_formula hf)
  · exact .inl rfl
  · exact hf
  · exact settled_of_unusable (unusable_of_outOfRange hf)
  · have htext : expression = .text s := by
      unfold Formula.source at hs
      split at hs <;> cases hs
      rfl
    exact .inr (.literal rfl (select_eq_ok hstored) (htext ▸ select_eq_ok hexpression) hf)

/-- Every fault of computing an amount again is reported or stops the check. -/
theorem recompute_settled (kind : AuditKind) (inputs rules : Fields) :
    FailsIn (Settled kind inputs rules) (recompute kind inputs rules) := by
  refine FailsIn.bind (settled (select_unusable _ _)) fun rounding _ => ?_
  refine FailsIn.bind (settled (unusable_value (Record.load_fails _))) fun policy _ => ?_
  cases kind with
  | isr => exact settled (isr_unusable _ _ _)
  | subsidy => exact settled (subsidy_unusable _ _ _)
  | imssEmployee => exact imss_settled (by decide) policy fun r => (totals_unusable r).1
  | imssEmployer => exact imss_settled (by decide) policy fun r => (totals_unusable r).2.1
  | housing => exact imss_settled (by decide) policy fun r => (totals_unusable r).2.2
  | formula => exact formula_settled policy

/-- What the check of an entry says is true of it. -/
structure Answers (e : AuditEntry) (c : IntegrityCheck) : Prop where
  entry : c.entry = e.id
  stored : c.stored = e.result
  /-- An amount in the answer is the one that the snapshot gives again. -/
  replayed : ∀ d ∈ c.recomputed, ∃ inputs rules o, e.inputSnapshot = some inputs ∧
    e.rulesSnapshot = some rules ∧ recompute e.kind inputs rules = .ok o ∧ o.amount = d ∧
      o.checksumValid = c.checksumValid
  /-- An entry is valid only if its hash, its rules and its amount are. -/
  valid : c.valid = true → e.snapshotHash = some e.hashedContent.checksum ∧
    c.hashValid = true ∧ c.checksumValid = true ∧ ∃ d ∈ c.recomputed, d.same e.result = true

/-- The check of an entry ends with a fault. -/
def Stops (e : AuditEntry) (f : Fault) : Prop :=
  ∃ i is r rs, e.inputSnapshot = some (i :: is) ∧ e.rulesSnapshot = some (r :: rs) ∧
    recompute e.kind (i :: is) (r :: rs) = .error f ∧ Stopping e.kind (i :: is) (r :: rs) f

theorem answers_of_unreplayed {e : AuditEntry} {c : IntegrityCheck} (he : c.entry = e.id)
    (hs : c.stored = e.result) (hr : c.recomputed = none) (hv : c.valid = false) : Answers e c where
  entry := he
  stored := hs
  replayed d hd := by simp [hr] at hd
  valid h := by simp [hv] at h

/-- A check answers, or it stops with a fault of the list; it never does both. -/
theorem checkEntry_cases (e : AuditEntry) :
    (∃ c, checkEntry e = .ok c ∧ Answers e c ∧ ∀ f, ¬Stops e f) ∨
      ∃ f, checkEntry e = .error f ∧ Stops e f := by
  unfold checkEntry
  split
  · next i is r rs hi hr =>
    dsimp only
    split
    · next o ho =>
      refine .inl ⟨_, rfl, ⟨rfl, rfl, ?_, ?_⟩, ?_⟩
      · rintro d ⟨⟩
        exact ⟨_, _, o, hi, hr, ho, rfl, rfl⟩
      · intro hv
        simp only [judge, Bool.and_eq_true] at hv
        obtain ⟨⟨hh, hc⟩, ha⟩ := hv
        exact ⟨beq_iff_eq.1 hh, hh, hc, o.amount, rfl, ha⟩
      · rintro f ⟨i', is', r', rs', hi', hr', hf, -⟩
        cases hi.symm.trans hi'
        cases hr.symm.trans hr'
        rw [ho] at hf
        cases hf
    · next f hf =>
      split
      · next hreport =>
        refine .inl ⟨_, rfl, answers_of_unreplayed rfl rfl rfl rfl, ?_⟩
        rintro f' ⟨i', is', r', rs', hi', hr', hf', hstop⟩
        cases hi.symm.trans hi'
        cases hr.symm.trans hr'
        cases hf.symm.trans hf'
        rw [hstop.unreported] at hreport
        cases hreport
      · next hreport =>
        refine .inr ⟨f, rfl, i, is, r, rs, hi, hr, hf, ?_⟩
        exact (recompute_settled _ _ _ f hf).resolve_left hreport
  · next hnone =>
    refine .inl ⟨_, rfl, answers_of_unreplayed rfl rfl rfl rfl, ?_⟩
    rintro f ⟨i, is, r, rs, hi, hr, -⟩
    exact hnone i is r rs hi hr

end Replay

namespace AuditTrail

open Replay

variable {t : AuditTrail} {e : AuditEntry} {id : Json}

theorem verify_cases (h : t.entry id = .ok e) :
    (∃ c, t.verify id = .ok c ∧ Answers e c ∧ ∀ f, ¬Stops e f) ∨
      ∃ f, t.verify id = .error f ∧ Stops e f := by
  have hverify : t.verify id = checkEntry e := by
    rw [verify, h]
    rfl
  rw [hverify]
  exact checkEntry_cases e

/-- The entry that is found under an id, and can be checked to the end. -/
def Checkable (t : AuditTrail) (id : Json) : Prop :=
  ∃ e, t.entry id = .ok e ∧ ∀ f, ¬Stops e f

theorem verify_eq_ok_iff : (∃ c, t.verify id = .ok c) ↔ t.Checkable id := by
  constructor
  · rintro ⟨c, hc⟩
    obtain ⟨e, he, -⟩ := bind_eq_ok.1 hc
    obtain ⟨c', -, -, hstops⟩ | ⟨f, hf, -⟩ := verify_cases he
    · exact ⟨e, he, hstops⟩
    · rw [hc] at hf
      cases hf
  · rintro ⟨e, he, hstops⟩
    obtain ⟨c, hc, -⟩ | ⟨f, -, hf⟩ := verify_cases he
    · exact ⟨c, hc⟩
    · exact absurd hf (hstops f)

/-- An entry that loads is checked to the end unless its snapshot is of a kind in the list, and the
check of a period gives one answer for each entry unless one of them cannot be checked. -/
theorem verify_answers (t : AuditTrail) :
    (∀ id e, t.entry id = .ok e →
      ((∃ c, t.verify id = .ok c) ↔ ∀ f, ¬Stops e f) ∧
      (∀ c, t.verify id = .ok c → Answers e c) ∧
      ∀ f, t.verify id = .error f → Stops e f) ∧
    ∀ period es, t.list { period } = .ok es →
      ((∃ cs, t.verifyPeriod period = .ok cs) ↔ ∀ e ∈ es, t.Checkable (.text e.id)) ∧
      ∀ cs, t.verifyPeriod period = .ok cs →
        List.Forall₂ (fun e c => ∃ e', t.entry (.text e.id) = .ok e' ∧ Answers e' c) es cs := by
  have hanswers (id : Json) (e : AuditEntry) (he : t.entry id = .ok e) (c : IntegrityCheck)
      (hc : t.verify id = .ok c) : Answers e c := by
    obtain ⟨c', hc', hanswers, -⟩ | ⟨f, hf, -⟩ := verify_cases he
    · cases hc.symm.trans hc'
      exact hanswers
    · cases hc.symm.trans hf
  constructor
  · intro id e he
    refine ⟨verify_eq_ok_iff.trans ⟨?_, fun h => ⟨e, he, h⟩⟩, hanswers id e he, fun f hf => ?_⟩
    · rintro ⟨e', he', hstops⟩
      cases he.symm.trans he'
      exact hstops
    · obtain ⟨c, hc, -⟩ | ⟨f', hf', hstops⟩ := verify_cases he
      · cases hf.symm.trans hc
      · cases hf.symm.trans hf'
        exact hstops
  · intro period es hes
    have hperiod : t.verifyPeriod period = es.mapM fun e => t.verify (.text e.id) := by
      rw [verifyPeriod, hes]
      rfl
    rw [hperiod, exists_mapM_eq_ok]
    refine ⟨forall₂_congr fun e _ => verify_eq_ok_iff, fun cs hcs => ?_⟩
    refine (forall₂_of_mapM hcs).imp fun e c hc => ?_
    obtain ⟨e', he', -⟩ := bind_eq_ok.1 hc
    exact ⟨e', he', hanswers _ e' he' c hc⟩

/-! A contribution whose risk classes are a list -/

def unlisted : AuditEntry :=
  { AuditEntry.contribution
      [("calculation", .object [("sbc", .text "500"), ("days", .int 15)])] with
    rulesSnapshot := some [
      ("rounding", .object []),
      ("rates", .list []),
      ("risk_classes", .list []),
      ("checksum", .text "x")] }

def unlistedTrail : AuditTrail := ⟨[⟨unlisted.detail, unlisted.id, unlisted.toJson⟩]⟩

theorem stops_unlisted : Stops unlisted (.noAttribute (.list []) "items") := by
  refine ⟨_, _, _, _, rfl, rfl, rfl, .riskClasses (by decide) rfl ?_⟩
  rintro fs ⟨⟩

theorem load_unlisted : AuditEntry.load unlisted.toJson = .ok unlisted := by
  have hamount {n : Nat} {e : Int} (h : n < pow10 5) (he : -2 ≤ e ∧ e ≤ 0) :
      (⟨false, n, e⟩ : Decimal).readable := by
    have := digitCount_le h (by decide)
    simp only [Decimal.readable_iff, Decimal.adjusted, Decimal.digits, Decimal.maxReadable,
      Decimal.minReadable]
    omega
  have hnone : ∀ d ∈ (none : Option Decimal), d.readable := by simp
  exact AuditEntry.load_toJson ⟨hamount (by decide) (by decide), hnone, hnone, hnone, hnone,
    hamount (by decide) (by decide)⟩

theorem entry_unlisted : unlistedTrail.entry (.text "imss-e001") = .ok unlisted := by
  have hstored : unlistedTrail.stored (.text "imss-e001") =
      .ok ⟨unlisted.detail, unlisted.id, unlisted.toJson⟩ := rfl
  rw [entry, hstored]
  exact load_unlisted

theorem list_unlisted : unlistedTrail.list { period := .text "2025-01-B1" } = .ok [unlisted] := by
  have horder : unlistedTrail.inFileOrder = unlistedTrail.documents := List.mergeSort_singleton _
  have hload : unlistedTrail.documents.mapM (fun d => AuditEntry.load d.content) = .ok [unlisted] :=
    mapM_cons_eq_ok.2 ⟨unlisted, [], load_unlisted, rfl, rfl⟩
  unfold list
  rw [horder]
  refine bind_eq_ok.2 ⟨_, rfl, bind_eq_ok.2 ⟨_, hload, ?_⟩⟩
  have hadmits : [unlisted].filter (Filter.admits { period := .text "2025-01-B1" }) = [unlisted] :=
    List.filter_cons_of_pos (by decide)
  rw [hadmits, inOrder]
  simp

/-- Neither the entry nor its period gets an answer. -/
theorem unlisted_unanswered :
    (unlistedTrail.entry (.text "imss-e001") = .ok unlisted ∧
      ¬∃ c, unlistedTrail.verify (.text "imss-e001") = .ok c) ∧
    unlistedTrail.list { period := .text "2025-01-B1" } = .ok [unlisted] ∧
      ¬∃ cs, unlistedTrail.verifyPeriod (.text "2025-01-B1") = .ok cs := by
  refine ⟨⟨entry_unlisted, fun h => ?_⟩, list_unlisted, fun h => ?_⟩
  · exact ((verify_answers unlistedTrail).1 _ _ entry_unlisted).1.1 h _ stops_unlisted
  · obtain ⟨e, he, hstops⟩ := ((verify_answers unlistedTrail).2 _ _ list_unlisted).1.1 h unlisted
      List.mem_cons_self
    cases entry_unlisted.symm.trans he
    exact hstops _ stops_unlisted

end AuditTrail

end Payroll
