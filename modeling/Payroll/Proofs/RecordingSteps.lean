import Mathlib
import Payroll.Proofs.CalendarText
import Payroll.Proofs.EngineSteps

/-!
What is stored of a calculation, and when it is stored as a whole or not at all.
-/

namespace Payroll

open Result

namespace Key

/-- Characters of a key with a hyphen among them make an identifier. -/
theorem isSafe_of_isKeyChar {s : String} (h : ∀ c ∈ s.toList, isKeyChar c = true)
    (hd : '-' ∈ s.toList) : isSafe s = true := by
  have hlines : withoutLineBreak s.toList = s.toList := by
    rw [withoutLineBreak]
    rw [if_neg]
    intro hl
    have := h '\n' (List.mem_of_getLast? hl)
    revert this
    decide
  have hne : s ≠ "." ∧ s ≠ ".." := by
    constructor
    · rintro rfl
      revert hd
      decide
    · rintro rfl
      revert hd
      decide
  have hnil : s.toList ≠ [] := List.ne_nil_of_mem hd
  simp [isSafe, hlines, hne, hnil, List.all_eq_true.2 h]

end Key

namespace Recording

theorem toList_entryId (calculation : String) (n : Nat) :
    (entryId calculation n).toList = calculation.toList ++ '-' :: Date.padded 3 n := by
  simp [entryId]

theorem entryId_injective {calculation : String} {m n : Nat}
    (h : entryId calculation m = entryId calculation n) : m = n := by
  have hl := congrArg String.toList h
  rw [toList_entryId, toList_entryId] at hl
  have hp := (List.cons.inj (List.append_cancel_left hl)).2
  have hv := congrArg Decimal.digitsValue hp
  simpa using hv

theorem isSafe_entryId {calculation : String}
    (h : ∀ c ∈ calculation.toList, Key.isKeyChar c = true) (n : Nat) :
    Key.isSafe (entryId calculation n) = true := by
  refine Key.isSafe_of_isKeyChar ?_ ?_
  · intro c hc
    rw [toList_entryId] at hc
    rcases List.mem_append.1 hc with hc | hc
    · exact h c hc
    · rcases List.mem_cons.1 hc with rfl | hc
      · decide
      · simp [Key.isKeyChar, Char.isAlphanum, Date.isDigit_of_mem_padded hc]
  · rw [toList_entryId]
    simp

/-- An entry as it is stored. -/
def document (e : AuditEntry) : AuditDocument := ⟨e.detail, e.id, e.toJson⟩

/-- The entries up to the first that cannot be written. -/
def made (calculation : String) (n : Nat) : List Pending → List AuditEntry
  | .ok make :: ps => make (entryId calculation n) :: made calculation (n + 1) ps
  | _ => []

/-- Why one of the entries cannot be written. -/
def fault? : List Pending → Option Fault
  | [] => none
  | .ok _ :: ps => fault? ps
  | .error f :: _ => some f

theorem fault?_append (ps qs : List Pending) : fault? (ps ++ qs) = (fault? ps).or (fault? qs) := by
  induction ps with
  | nil => rfl
  | cons p ps ih => cases p <;> simp [fault?, ih]

/-- Entries of one payroll detail, each under the id that it is given. -/
def OfDetail (detail : String) (ps : List Pending) : Prop :=
  ∀ make, .ok make ∈ ps → ∀ id, (make id).detail = detail ∧ (make id).id = id

theorem record_eq_ok {t t' : AuditTrail} {e : AuditEntry} : t.record e = .ok t' ↔
    Key.isSafe e.detail = true ∧ Key.isSafe e.id = true ∧ t.holds e.detail e.id = false ∧
      t' = ⟨t.documents ++ [document e]⟩ := by
  constructor
  · intro h
    obtain ⟨_, hd, h⟩ := bind_eq_ok.1 h
    obtain ⟨_, hi, h⟩ := bind_eq_ok.1 h
    obtain ⟨hdetail, rfl⟩ := Key.check_eq_ok.1 hd
    obtain ⟨hid, rfl⟩ := Key.check_eq_ok.1 hi
    cases hholds : t.holds e.detail e.id with
    | true =>
        simp only [hholds] at h
        cases h
    | false =>
        simp only [hholds] at h
        cases h
        exact ⟨hdetail, hid, rfl, rfl⟩
  · rintro ⟨hdetail, hid, hholds, rfl⟩
    refine bind_eq_ok.2 ⟨_, Key.check_eq_ok.2 ⟨hdetail, rfl⟩, ?_⟩
    refine bind_eq_ok.2 ⟨_, Key.check_eq_ok.2 ⟨hid, rfl⟩, ?_⟩
    simp only [hholds]
    rfl

theorem holds_eq_false {t : AuditTrail} {detail id : String} (h : ∀ d ∈ t.documents, d.id ≠ id) :
    t.holds detail id = false := by
  simp only [AuditTrail.holds, List.any_eq_false, Bool.and_eq_true, beq_iff_eq, not_and]
  exact fun d hm _ => h d hm

/-- Once an entry is stored under the next id, those after it are still free. -/
theorem Unused.step {calculation : String} {t : AuditTrail} {n : Nat} {e : AuditEntry}
    (h : Unused t calculation n) (he : e.id = entryId calculation n) :
    Unused ⟨t.documents ++ [document e]⟩ calculation (n + 1) := by
  intro d hm k hk
  rcases List.mem_append.1 hm with hm | hm
  · exact h d hm k (by omega)
  · cases List.mem_singleton.1 hm
    intro hsame
    have := entryId_injective (he.symm.trans hsame)
    omega

theorem storeFrom_eq {calculation detail : String} {t : AuditTrail} {n : Nat} {ps : List Pending}
    (hid : ∀ c ∈ calculation.toList, Key.isKeyChar c = true) (hd : Key.isSafe detail = true)
    (hps : OfDetail detail ps) (ht : Unused t calculation n) :
    storeFrom calculation n t ps =
      (⟨t.documents ++ (made calculation n ps).map document⟩,
        match fault? ps with
        | none => .ok ((made calculation n ps).map (·.id))
        | some f => .error f) := by
  induction ps generalizing t n with
  | nil => simp [storeFrom, made, fault?]
  | cons p ps ih =>
      cases p with
      | error f => simp [storeFrom, made, fault?]
      | ok make =>
          obtain ⟨hdetail, hentry⟩ := hps make List.mem_cons_self (entryId calculation n)
          have hsafe : Key.isSafe (make (entryId calculation n)).id = true := by
            rw [hentry]
            exact isSafe_entryId hid n
          have hnew : ∀ d ∈ t.documents, d.id ≠ (make (entryId calculation n)).id := by
            rw [hentry]
            exact fun d hm => ht d hm n le_rfl
          have hrecord := record_eq_ok.2 ⟨hdetail ▸ hd, hsafe, holds_eq_false hnew, rfl⟩
          have ht' := ht.step hentry
          have hps' : OfDetail detail ps := fun make hm => hps make (List.mem_cons_of_mem _ hm)
          simp only [storeFrom, hrecord, ih hps' ht', made, fault?]
          cases fault? ps <;> simp [Except.map]

/-- Nothing is stored under a detail that is no identifier. -/
theorem storeFrom_unsafe {calculation detail : String} {t : AuditTrail} {n : Nat}
    {make : String → AuditEntry} {ps : List Pending} (hd : Key.isSafe detail = false)
    (hps : OfDetail detail (.ok make :: ps)) :
    storeFrom calculation n t (.ok make :: ps) =
      (t, .error (.unsafeKey "payroll_detail_id" (.text detail))) := by
  obtain ⟨hdetail, -⟩ := hps make List.mem_cons_self (entryId calculation n)
  have hcheck : Key.check "payroll_detail_id" (.text (make (entryId calculation n)).detail) =
      .error (.unsafeKey "payroll_detail_id" (.text detail)) := by
    simp [Key.check, hdetail, hd]
  have hrecord : t.record (make (entryId calculation n)) =
      .error (.unsafeKey "payroll_detail_id" (.text detail)) := by
    rw [AuditTrail.record]
    rw [hcheck]
    rfl
  simp only [storeFrom, hrecord]

variable {a : Author} {s : Calculation.Setting} {versions : List FormulaVersion} {c : Calculation}

theorem mem_imssEntries {make : String → AuditEntry} (h : .ok make ∈ imssEntries a s c) :
    ∃ parts, imssParts c.imss = .ok parts ∧ ∃ part ∈ parts, imssEntry a s c part = .ok make := by
  unfold imssEntries at h
  split at h
  · next parts hparts =>
    obtain ⟨part, hpart, he⟩ := List.mem_map.1 h
    exact ⟨parts, hparts, part, hpart, he⟩
  · cases List.mem_singleton.1 h

theorem mem_subsidyEntries {make : String → AuditEntry} (h : .ok make ∈ subsidyEntries a s c) :
    ∃ r table, c.isr.subsidy = some r ∧ s.tables.subsidyTable s.period.kind.name = some table ∧
      subsidyEntry a s c r table = .ok make := by
  unfold subsidyEntries at h
  split at h
  · next r table hr htable => exact ⟨r, table, hr, htable, (List.mem_singleton.1 h).symm⟩
  · cases h

theorem mem_taxEntries {make : String → AuditEntry} (h : .ok make ∈ taxEntries a s c) :
    ∃ table, s.tables.isrTable s.period.kind.name = .ok table ∧ isrEntry a s c table = .ok make := by
  unfold taxEntries at h
  obtain ⟨table, htable, he⟩ := List.mem_map.1 h
  cases hi : s.tables.isrTable s.period.kind.name with
  | error f =>
      rw [hi] at htable
      cases htable
  | ok table' =>
      rw [hi] at htable
      cases List.mem_singleton.1 htable
      exact ⟨table, rfl, he⟩

/-- An entry of a calculation is that of a concept, of the tax, of the subsidy or of a part of the
contributions. -/
theorem mem_pending {make : String → AuditEntry} (h : .ok make ∈ pending a s versions c) :
    (∃ amount ∈ c.perceptions ++ c.deductions, formulaEntry a s versions c amount = .ok make) ∨
    (∃ table, s.tables.isrTable s.period.kind.name = .ok table ∧ isrEntry a s c table = .ok make) ∨
    (∃ r table, c.isr.subsidy = some r ∧ s.tables.subsidyTable s.period.kind.name = some table ∧
      subsidyEntry a s c r table = .ok make) ∨
    ∃ parts, imssParts c.imss = .ok parts ∧ ∃ part ∈ parts, imssEntry a s c part = .ok make := by
  rcases List.mem_append.1 h with h | h
  · rcases List.mem_append.1 h with h | h
    · rcases List.mem_append.1 h with h | h
      · obtain ⟨amount, hamount, he⟩ := List.mem_map.1 h
        exact .inl ⟨amount, hamount, he⟩
      · exact .inr (.inl (mem_taxEntries h))
    · exact .inr (.inr (.inl (mem_subsidyEntries h)))
  · exact .inr (.inr (.inr (mem_imssEntries h)))

theorem imssEntry_eq_ok {part : ImssPart} {make : String → AuditEntry}
    (h : imssEntry a s c part = .ok make) : digitCount c.imss.days.natAbs ≤ Record.maxIntegerText ∧
      make = entryFor a s c (.object (imssInputs c.imss)) (quotaBreakdown c.imss)
        (Snapshot.imssRules part.rule s.tables s.policy) {
          kind := part.kind
          concept := part.concept
          inputs := imssInputs c.imss
          base := c.imss.capped
          result := part.amount
          rule := part.rule
          ruleVersion := yearText s
          table := some s!"IMSS_{yearText s}" } := by
  obtain ⟨_, hdays, h⟩ := bind_eq_ok.1 h
  refine ⟨?_, (pure_eq_ok.1 h).symm⟩
  unfold writable at hdays
  split at hdays
  · cases hdays
  · next hd => exact not_lt.1 hd

theorem ofDetail_pending (a : Author) (s : Calculation.Setting) (versions : List FormulaVersion)
    (c : Calculation) : OfDetail c.detail (pending a s versions c) := by
  intro make hmake id
  rcases mem_pending hmake with ⟨amount, -, he⟩ | ⟨table, -, he⟩ | ⟨r, table, -, -, he⟩ |
    ⟨parts, -, part, -, he⟩
  · cases he
    exact ⟨rfl, rfl⟩
  · cases he
    exact ⟨rfl, rfl⟩
  · cases he
    exact ⟨rfl, rfl⟩
  · rw [(imssEntry_eq_ok he).2]
    exact ⟨rfl, rfl⟩

/-- The contributions cannot be summed, or their days cannot be written. -/
def Unwritable (r : ImssResult) : Prop :=
  (∃ f, imssParts r = .error f) ∨ Record.maxIntegerText < digitCount r.days.natAbs

theorem fault?_eq_none {ps : List Pending} (h : ∀ p ∈ ps, ∃ make, p = .ok make) :
    fault? ps = none := by
  induction ps with
  | nil => rfl
  | cons p ps ih =>
      obtain ⟨make, rfl⟩ := h p List.mem_cons_self
      exact ih fun q hq => h q (List.mem_cons_of_mem _ hq)

theorem exists_cons_of_imssParts {r : ImssResult} {parts : List ImssPart}
    (h : imssParts r = .ok parts) : ∃ part rest, parts = part :: rest := by
  obtain ⟨_, -, h⟩ := bind_eq_ok.1 h
  obtain ⟨_, -, h⟩ := bind_eq_ok.1 h
  obtain ⟨_, -, h⟩ := bind_eq_ok.1 h
  exact ⟨_, _, (pure_eq_ok.1 h).symm⟩

theorem fault?_imssEntries : (∃ f, fault? (imssEntries a s c) = some f) ↔ Unwritable c.imss := by
  rw [imssEntries, Unwritable]
  cases hparts : imssParts c.imss with
  | error f => simp [fault?]
  | ok parts =>
      simp only [reduceCtorEq, exists_false, false_or]
      by_cases hd : Record.maxIntegerText < digitCount c.imss.days.natAbs
      · obtain ⟨part, rest, rfl⟩ := exists_cons_of_imssParts hparts
        have he : imssEntry a s c part = .error .integerLength := by
          rw [imssEntry, writable]
          rw [if_pos hd]
          rfl
        simp [he, fault?, hd]
      · have hnone : fault? (parts.map (imssEntry a s c)) = none := by
          apply fault?_eq_none
          intro p hp
          obtain ⟨part, -, rfl⟩ := List.mem_map.1 hp
          rw [imssEntry, writable]
          rw [if_neg hd]
          exact ⟨_, rfl⟩
        simp [hnone, hd]

/-- Only the contributions can be impossible to write. -/
theorem fault?_pending : fault? (pending a s versions c) = fault? (imssEntries a s c) := by
  have hconcepts : fault? ((c.perceptions ++ c.deductions).map (formulaEntry a s versions c)) =
      none := by
    apply fault?_eq_none
    intro p hp
    obtain ⟨amount, -, rfl⟩ := List.mem_map.1 hp
    exact ⟨_, rfl⟩
  have htax : fault? (taxEntries a s c) = none := by
    apply fault?_eq_none
    intro p hp
    obtain ⟨table, -, rfl⟩ := List.mem_map.1 hp
    exact ⟨_, rfl⟩
  have hsubsidy : fault? (subsidyEntries a s c) = none := by
    apply fault?_eq_none
    intro p hp
    unfold subsidyEntries at hp
    split at hp
    · cases List.mem_singleton.1 hp
      exact ⟨_, rfl⟩
    · cases hp
  unfold pending
  rw [fault?_append, fault?_append, fault?_append, hconcepts, htax, hsubsidy]
  rfl

/-- The concepts and the tax come first, and there is always a tax. -/
theorem exists_cons_of_isrTable (a : Author) (versions : List FormulaVersion) (c : Calculation)
    {table : BracketTable IsrTerms} (h : s.tables.isrTable s.period.kind.name = .ok table) :
    ∃ make ps, pending a s versions c = .ok make :: ps := by
  have htax : taxEntries a s c = [isrEntry a s c table] := by
    rw [taxEntries]
    rw [h]
    rfl
  rw [pending]
  rw [htax]
  cases c.perceptions ++ c.deductions with
  | nil => exact ⟨_, _, rfl⟩
  | cons amount amounts => exact ⟨_, _, rfl⟩

end Recording

namespace Engine

variable {c : Configuration} {now : Instant} {id : String} {r : Request} {e e' : Engine}

theorem stored_unsafe (now : Instant) {p : Prepared} (h : perform (prepare c id r) e = (.ok p, e'))
    (hd : Key.isSafe r.detailId = false) : ∃ f, stored now p e' = (e'.trail, .error f) := by
  obtain ⟨_, _, -, -, -, -, -, -, hcompute⟩ := prepare_eq_ok h
  obtain ⟨hdetail, -, ⟨steps⟩⟩ := Calculation.compute_eq_ok hcompute
  obtain ⟨make, ps, hps⟩ := Recording.exists_cons_of_isrTable ⟨now, e'.author⟩ p.versions
    p.calculation steps.isrTable
  have hof := hps ▸ Recording.ofDetail_pending ⟨now, e'.author⟩ p.setting p.versions p.calculation
  rw [stored, Recording.store]
  rw [hps]
  exact ⟨_, Recording.storeFrom_unsafe (hdetail ▸ hd) hof⟩

theorem stored_safe (now : Instant) {p : Prepared} (hid : ∀ ch ∈ id.toList, Key.isKeyChar ch = true)
    (hnew : Recording.Unused e'.trail id 1) (h : perform (prepare c id r) e = (.ok p, e'))
    (hd : Key.isSafe r.detailId = true) : ∃ new, new ≠ [] ∧
      (stored now p e').1.documents = e'.trail.documents ++ new ∧
      ((∃ f, (stored now p e').2 = .error f) ↔ Recording.Unwritable p.calculation.imss) ∧
      ∀ entries, (stored now p e').2 = .ok entries → new.map (·.id) = entries := by
  obtain ⟨_, _, -, -, -, -, -, -, hcompute⟩ := prepare_eq_ok h
  obtain ⟨hdetail, rfl, ⟨steps⟩⟩ := Calculation.compute_eq_ok hcompute
  obtain ⟨make, ps, hps⟩ := Recording.exists_cons_of_isrTable ⟨now, e'.author⟩ p.versions
    p.calculation steps.isrTable
  have hof := Recording.ofDetail_pending ⟨now, e'.author⟩ p.setting p.versions p.calculation
  have heq := Recording.storeFrom_eq hid (hdetail ▸ hd) hof hnew
  refine ⟨(Recording.made p.calculation.id 1
    (Recording.pending ⟨now, e'.author⟩ p.setting p.versions p.calculation)).map
      Recording.document, ?_, ?_, ?_, ?_⟩
  · rw [hps]
    exact List.cons_ne_nil _ _
  · unfold stored Recording.store
    rw [heq]
  · rw [← Recording.fault?_imssEntries, ← Recording.fault?_pending]
    unfold stored Recording.store
    rw [heq]
    cases Recording.fault? (Recording.pending ⟨now, e'.author⟩ p.setting p.versions p.calculation) <;>
      simp
  · intro entries hentries
    unfold stored Recording.store at hentries
    rw [heq] at hentries
    simp only at hentries
    split at hentries
    · rw [List.map_map]
      exact Except.ok.inj hentries
    · cases hentries

/-- A calculation is recorded as a whole, or nothing of it is. -/
def AllOrNothing (c : Configuration) (now : Instant) (id : String) (r : Request) (e : Engine) :
    Prop :=
  (perform (calculate c now id r) e).2.store = e.store ∧
    match perform (calculate c now id r) e with
    | (.ok recorded, e') => ∃ new, e'.trail.documents = e.trail.documents ++ new ∧
        new.map (·.id) = recorded.entries
    | (.error _, e') => e'.trail = e.trail

/-- What can still fail once entries are stored: the sums of the contributions, the text of their
days, and the net pay. -/
def FailsLate (p : Prepared) : Prop :=
  Recording.Unwritable p.calculation.imss ∨ ∃ f, p.calculation.netPay = .error f

/-- A calculation is torn exactly if it fails once its amounts are known and its detail can be
stored. -/
theorem allOrNothing_iff {c : Configuration} {now : Instant} {id : String} {r : Request}
    {e : Engine} (hid : ∀ ch ∈ id.toList, Key.isKeyChar ch = true)
    (hnew : Recording.Unused e.trail id 1) : AllOrNothing c now id r e ↔
      ¬∃ p e', perform (prepare c id r) e = (.ok p, e') ∧ Key.isSafe r.detailId = true ∧
        FailsLate p := by
  obtain ⟨hstore, htrail, -⟩ := reads_prepare c id r e
  rw [AllOrNothing]
  rcases hp : perform (prepare c id r) e with ⟨f | p, e₁⟩
  · rw [hp] at hstore htrail
    rw [perform_calculate_error hp]
    simpa using ⟨hstore, htrail⟩
  · rw [hp] at hstore htrail
    simp only at hstore htrail
    have hlate : (∃ p' e', (Except.ok p, e₁) = ((.ok p', e') : Except Fault Prepared × Engine) ∧
        Key.isSafe r.detailId = true ∧ FailsLate p') ↔
          Key.isSafe r.detailId = true ∧ FailsLate p := by
      constructor
      · rintro ⟨p', e', he, h⟩
        cases he
        exact h
      · exact fun h => ⟨p, e₁, rfl, h⟩
    rw [perform_calculate_ok hp, hlate]
    apply (and_iff_right hstore).trans
    cases hd : Key.isSafe r.detailId with
    | false =>
        obtain ⟨f, hf⟩ := stored_unsafe now hp hd
        rw [hf]
        apply iff_of_true htrail
        rintro ⟨h, -⟩
        cases h
    | true =>
        obtain ⟨new, hne, hdocs, hfault, hids⟩ := stored_safe now hid (htrail ▸ hnew) hp hd
        -- entries were stored, so that any failure from here on leaves them behind
        have htorn : (stored now p e₁).1 ≠ e.trail := by
          intro he
          rw [he, htrail] at hdocs
          exact hne (List.append_right_eq_self.1 hdocs.symm)
        rw [and_iff_right rfl]
        cases hs : (stored now p e₁).2 with
        | error f => exact iff_of_false htorn (not_not.2 (.inl (hfault.1 ⟨f, hs⟩)))
        | ok entries =>
            cases hn : p.calculation.netPay with
            | error f => exact iff_of_false htorn (not_not.2 (.inr ⟨f, hn⟩))
            | ok d =>
                refine iff_of_true ⟨new, ?_, hids entries hs⟩ ?_
                · rw [← htrail]
                  exact hdocs
                · rintro (hu | ⟨f, hf⟩)
                  · obtain ⟨f, hf⟩ := hfault.2 hu
                    rw [hs] at hf
                    cases hf
                  · rw [hn] at hf
                    cases hf

/-- More days than can be written as an integer. -/
def longPeriod : Request where
  company := "ACME"
  employee := {
    id := "E001"
    number := none
    rfc := none
    baseSalary := 15000
    dailySalary := none
    sbc := none
    hireDate := { year := 2020, month := 6, day := 1 }
    riskClass := none }
  period := {
    id := "2025-01-B1"
    kind := .biweekly
    year := 2025
    start := { year := 2025, month := 1, day := 1 }
    stop := Instant.midJanuary.date
    payment := none }
  overrides := .object [("workedDays", .text "1E+4300")]

theorem longPeriod_allOrNothing_iff :
    (∀ ch ∈ "c1".toList, Key.isKeyChar ch = true) ∧ Recording.Unused {} "c1" 1 ∧
      (AllOrNothing { directory := "config" } Instant.latest "c1" longPeriod {} ↔
        ¬∃ p e', perform (prepare { directory := "config" } "c1" longPeriod) {} = (.ok p, e') ∧
          Key.isSafe longPeriod.detailId = true ∧ FailsLate p) := by
  have hid : ∀ ch ∈ "c1".toList, Key.isKeyChar ch = true := List.all_eq_true.1 (by decide)
  have hnew : Recording.Unused {} "c1" 1 := fun d hd => nomatch hd
  exact ⟨hid, hnew, allOrNothing_iff hid hnew⟩

end Engine

end Payroll
