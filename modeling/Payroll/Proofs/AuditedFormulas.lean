import Mathlib
import Payroll.Proofs.AuditReplay
import Payroll.Proofs.StoredScopes

/-!
Formulas that the audit trail cites. Once an amount was recorded, the row that it was computed by
stays in the store, in the scope of the company, with the terms that the entry holds of it.
-/

namespace Payroll

open Result

namespace AuditEntry

/-- What the snapshot of the rules says of the formula that was applied. -/
def appliedTerms (e : AuditEntry) : Option Json :=
  e.rulesSnapshot.bind fun rules => Fields.lookup rules "formula"

/-- An entry names a row and holds its terms. -/
structure Cites (e : AuditEntry) (v : FormulaVersion) : Prop where
  rule : e.rule = v.id
  ruleVersion : e.ruleVersion = toString v.version
  concept : e.concept = v.concept
  terms : e.appliedTerms = some (.object [
    ("id", .text v.id),
    ("version", .int v.version),
    ("concept_code", .text v.concept),
    ("expression", .text v.expression),
    ("is_taxable", .bool v.taxable),
    ("is_exempt", .bool v.exempt),
    ("exempt_limit", .optional .ofDecimal v.exemptLimit),
    ("exempt_limit_type", .optional (.text ·.name) v.limitUnit)])

/-- The state of a row is no term of it. -/
theorem Cites.of_state {e : AuditEntry} {v : FormulaVersion} (h : e.Cites v) (active : Bool)
    (at' : Option Instant) (by' : Option String) :
    e.Cites { v with active, supersededAt := at', supersededBy := by' } :=
  ⟨h.rule, h.ruleVersion, h.concept, h.terms⟩

end AuditEntry

namespace FormulaStore

open Version

variable {store next : FormulaStore} {op : Operation} {company concept : String}
  {rows rows' : List FormulaVersion}

namespace Edit

theorem unreferenced {isReferenced : String → Except Fault Bool} {formula : Json}
    (h : Edit company concept rows (.delete isReferenced formula) rows') :
    ∃ id, formula = .text id ∧ isReferenced id = .ok false := by
  cases h with
  | deleted _ _ _ unreferenced => exact ⟨_, rfl, unreferenced⟩

/-- A row that is not to be removed stays, in the same or another state. -/
theorem keeps (hs : Sound rows) (hf : ∀ id ∈ op.newId?, ∀ v ∈ rows, v.id ≠ id)
    (h : Edit company concept rows op rows') {v : FormulaVersion} (hv : v ∈ rows)
    (hcited : ∀ isReferenced, op = .delete isReferenced (.text v.id) →
      isReferenced v.id ≠ .ok false) :
    ∃ w ∈ rows', w = { v with
      active := w.active
      supersededAt := w.supersededAt
      supersededBy := w.supersededBy } := by
  by_cases hgone : ∀ w ∈ rows', w.id ≠ v.id
  · obtain ⟨-, -, isReferenced, rfl⟩ := h.gone hs hv hgone
    obtain ⟨id, hid, hfalse⟩ := h.unreferenced
    cases hid
    exact absurd hfalse (hcited isReferenced rfl)
  · push Not at hgone
    obtain ⟨w, hw, hid⟩ := hgone
    exact ⟨w, hw, h.keeps_fields hs hf hv hw hid⟩

end Edit

/-- The row that an entry cites is stored under its id once, with the versions that the company has
of the concept. -/
structure Holds (store : FormulaStore) (company : String) (e : AuditEntry) : Prop where
  cited : ∃ v ∈ (store.scope company e.concept).rows, e.Cites v
  once : ((store.scope company e.concept).rows.map (·.id)).count e.rule = 1
  elsewhere : ∀ company' concept', ¬(company = company' ∧ e.concept = concept') →
    ∀ v ∈ (store.scope company' concept').rows, v.id ≠ e.rule

theorem holds_of_cites (hr : Reachable store) {v : FormulaVersion} {e : AuditEntry}
    (hv : v ∈ (store.scope company concept).rows) (he : e.Cites v) : store.Holds company e := by
  obtain ⟨-, hconcept⟩ := placed_of_reachable hr company concept v hv
  have hscope : e.concept = concept := he.concept.trans hconcept
  subst hscope
  refine ⟨⟨v, hv, he⟩, ?_, ?_⟩
  · rw [he.rule]
    exact List.count_eq_one_of_mem (sound_of_reachable hr _ _).distinct (List.mem_map_of_mem hv)
  · intro company' concept' hne w hw hid
    exact hne (separate_of_reachable hr _ _ _ _ v hv w hw (he.rule.symm.trans hid.symm))

/-- A change to stored formulas keeps the cited rows, if it looks at who cites them. -/
theorem holds_after (hr : Reachable store) (hf : op.Fresh store) {e : AuditEntry}
    (hcited : ∀ isReferenced, op = .delete isReferenced (.text e.rule) →
      isReferenced e.rule ≠ .ok false)
    (h : store.Holds company e) : (op.after store).Holds company e := by
  have hr' : Reachable (op.after store) := .step op hr hf
  obtain ⟨v, hv, hcites⟩ := h.cited
  rw [Operation.after] at hr' ⊢
  split at hr'
  · next next hrun =>
    obtain ⟨company', concept', rows', hedit, rfl⟩ :=
      run_eq_ok (fun company concept => (sound_of_reachable hr company concept).sources) hrun
    by_cases he : company' = company ∧ concept' = e.concept
    · obtain ⟨rfl, rfl⟩ := he
      obtain ⟨w, hw, hfields⟩ := hedit.keeps (sound_of_reachable hr _ _)
        (fun id hid => hf id hid _ _) hv (hcites.rule ▸ hcited)
      have hmem : w ∈ ((store.withRows company' e.concept rows').scope company' e.concept).rows := by
        rw [scope_withRows]
        exact hw
      refine holds_of_cites hr' hmem ?_
      rw [hfields]
      exact hcites.of_state _ _ _
    · have hmem : v ∈ ((store.withRows company' concept' rows').scope company e.concept).rows := by
        rw [scope_withRows_of_ne he]
        exact hv
      exact holds_of_cites hr' hmem hcites
  · exact h

end FormulaStore

namespace AuditTrail

theorem references_eq_false {rule : String} {ds : List AuditDocument}
    (h : references rule ds = .ok false) {d : AuditDocument} (hd : d ∈ ds) {e : AuditEntry}
    (he : AuditEntry.load d.content = .ok e) : e.rule ≠ rule := by
  induction ds with
  | nil => cases hd
  | cons d' ds ih =>
      obtain ⟨e', he', h⟩ := bind_eq_ok.1 h
      split at h
      · cases h
      · next hne =>
        rcases List.mem_cons.1 hd with rfl | hd
        · rw [he] at he'
          cases he'
          exact hne
        · exact ih h hd

/-- Whoever is cited is referenced. -/
theorem isReferenced_ne_false {t : AuditTrail} {d : AuditDocument} (hd : d ∈ t.documents)
    {e : AuditEntry} (he : AuditEntry.load d.content = .ok e) :
    t.isReferenced e.rule ≠ .ok false :=
  fun h => references_eq_false h (List.mem_mergeSort.2 hd) he rfl

end AuditTrail

namespace Recording

variable {a : Author} {s : Calculation.Setting} {versions : List FormulaVersion} {c : Calculation}

theorem cites_of_mem_pending (hc : c.Traced s versions)
    (hversions : ∀ v ∈ versions, versionOf versions v = v) {make : String → AuditEntry}
    (h : .ok make ∈ pending a s versions c) (id : String) (hkind : (make id).kind = .formula) :
    ∃ v ∈ versions, (make id).Cites v := by
  rcases mem_pending h with ⟨amount, hm, he⟩ | ⟨table, -, he⟩ | ⟨r, table, -, -, he⟩ |
    ⟨parts, hparts, part, hp, he⟩
  · obtain ⟨hv, -⟩ := hc.concepts amount hm
    unfold formulaEntry at he
    rw [hversions _ hv] at he
    cases he
    exact ⟨_, hv, rfl, rfl, rfl, rfl⟩
  · cases he
    cases hkind
  · cases he
    cases hkind
  · obtain ⟨hpart, -⟩ := mem_imssParts hparts hp
    rw [(imssEntry_eq_ok he).2] at hkind
    have hpart' : part.kind = .formula := hkind
    rw [hpart'] at hpart
    rcases hpart with h | h | h <;> cases h

end Recording

namespace Engine

variable {c : Configuration} {now : Instant} {id company : String} {r : Request}
  {e e₁ e₂ : Engine}

/-- An engine goes on with entries computed for a company by the rows of an unchanged store. -/
def Computes (company : String) (e e' : Engine) : Prop :=
  e'.store = e.store ∧ ∃ new, e'.trail.documents = e.trail.documents ++ new ∧
    ∀ d ∈ new, ∃ entry, AuditEntry.load d.content = .ok entry ∧
      (entry.kind = .formula → e.store.Holds company entry)

theorem Computes.refl_of_eq (hstore : e₁.store = e.store) (htrail : e₁.trail = e.trail) :
    Computes company e e₁ :=
  ⟨hstore, [], by rw [htrail, List.append_nil], fun _ hd => nomatch hd⟩

theorem Computes.trans (h : Computes company e e₁) (h' : Computes company e₁ e₂) :
    Computes company e e₂ := by
  obtain ⟨hstore, new, hdocs, hnew⟩ := h
  obtain ⟨hstore', new', hdocs', hnew'⟩ := h'
  refine ⟨hstore'.trans hstore, new ++ new', ?_, ?_⟩
  · rw [hdocs', hdocs, List.append_assoc]
  · intro d hd
    rcases List.mem_append.1 hd with hd | hd
    · exact hnew d hd
    · exact hstore ▸ hnew' d hd

theorem computes_calculate (c : Configuration) (now : Instant) (he : e.Sound)
    (hemployee : r.employee.Loaded) (hperiod : r.period.Loaded) :
    Computes r.company e (perform (calculate c now id r) e).2 := by
  obtain ⟨hstore, htrail, -⟩ := reads_prepare c id r e
  rcases hp : perform (prepare c id r) e with ⟨f | p, e₁⟩
  · rw [hp] at hstore htrail
    rw [perform_calculate_error hp]
    exact .refl_of_eq hstore htrail
  · rw [hp] at hstore htrail
    simp only at hstore htrail
    obtain ⟨-, htraced, hversions⟩ := traced_of_prepare he hemployee hperiod hp
    obtain ⟨es, hdocs, hmade, -⟩ := Recording.exists_entries_storeFrom p.calculation.id 1 e₁.trail
      (Recording.pending ⟨now, e₁.author⟩ p.setting p.versions p.calculation)
    rw [perform_calculate_ok hp]
    refine ⟨hstore, es.map Recording.document, htrail ▸ hdocs, ?_⟩
    intro d hd
    obtain ⟨entry, hentry, rfl⟩ := List.mem_map.1 hd
    obtain ⟨make, hmake, k, -, rfl⟩ := hmade entry hentry
    refine ⟨make _, (replays_of_prepare he hemployee hperiod hp hmake _).1, ?_⟩
    intro hkind
    obtain ⟨v, hv, hcites⟩ := Recording.cites_of_mem_pending htraced
      (fun v hv => versionOf_eq he.store hversions hv) hmake _ hkind
    obtain ⟨concept, hmem, -⟩ := versionsOn_eq_ok hversions v hv
    exact FormulaStore.holds_of_cites he.store hmem hcites

theorem computes_runPeriod {period : Period} {employees : List (Employee × Json)} (he : e.Sound)
    (hfree : ∀ k : Nat, Recording.Unused e.trail s!"{id}.{k}" 1) (hperiod : period.Loaded)
    (hemployees : ∀ p ∈ employees, p.1.Loaded) :
    Computes company e (perform (runPeriod c now id company period employees) e).2 := by
  refine relates_runPeriod (R := Computes company) (fun _ _ _ => .refl_of_eq)
    (fun _ _ _ => .trans) ?_ he hfree hperiod hemployees
  rintro r rfl hemployee hperiod e he id -
  exact computes_calculate c now he hemployee hperiod

end Engine

namespace Event

variable {c : Configuration} {e : Engine} {x : Event} {company : String}

/-- The company that an event computes amounts for. -/
def company? : Event → Option String
  | .calculate _ _ request => some request.company
  | .runPeriod _ _ company _ _ => some company
  | _ => none

theorem trail_run_of_company?_eq_none (h : x.company? = none) : (x.run c e).trail = e.trail := by
  cases x with
  | calculate | runPeriod => cases h
  | _ => rfl

theorem computes_run (he : e.Sound) (hx : x.Admissible e) (h : x.company? = some company) :
    Engine.Computes company e (x.run c e) := by
  cases x with
  | calculate now id request =>
      cases h
      exact Engine.computes_calculate c now he hx.2.1 hx.2.2
  | runPeriod now id company period employees =>
      cases h
      exact Engine.computes_runPeriod he hx.1 hx.2.1 hx.2.2
  | _ => cases h

/-- An event keeps the rows that the trail cites. -/
theorem holds_run (he : e.Sound) (hx : x.Admissible e) {d : AuditDocument}
    (hd : d ∈ e.trail.documents) {entry : AuditEntry}
    (hload : AuditEntry.load d.content = .ok entry) (h : e.store.Holds company entry) :
    (x.run c e).store.Holds company entry := by
  cases x with
  | create id now draft => exact FormulaStore.holds_after he.store hx (fun _ h => nomatch h) h
  | newVersion id now formula changes createdBy =>
      exact FormulaStore.holds_after he.store hx (fun _ h => nomatch h) h
  | delete formula =>
      have hfresh : (FormulaStore.Operation.delete e.trail.isReferenced formula).Fresh e.store :=
        fun _ hid => nomatch hid
      refine FormulaStore.holds_after he.store hfresh ?_ h
      intro isReferenced hop
      cases hop
      exact AuditTrail.isReferenced_ne_false hd hload
  | configure | setPolicy | invalidate | clearPolicies | clearTables => exact h
  | calculate now id request =>
      exact (computes_run he hx rfl).1.symm ▸ h
  | runPeriod now id company period employees => exact (computes_run he hx rfl).1.symm ▸ h

/-- What an event adds to the trail of an installation. -/
def added (i : Installation) (x : Event) : List AuditDocument :=
  (x.after i).engine.trail.documents.drop i.engine.trail.documents.length

/-- The documents that an event adds, each with the company that it was computed for. -/
def computed (i : Installation) (x : Event) : List (String × AuditDocument) :=
  x.company?.toList.flatMap fun company => (x.added i).map fun d => (company, d)

end Event

namespace Installation

/-- The installations that events lead to, with the documents that were stored on the way and the
companies that they were computed for. -/
inductive Ledger : Installation → List (String × AuditDocument) → Prop
  | start (root : String) (author : Option String) : Ledger (below root author) []
  | step {i : Installation} {ledger : List (String × AuditDocument)} (x : Event) :
      Ledger i ledger → x.Admissible i.engine → Ledger (x.after i) (ledger ++ x.computed i)

/-- A document of a store that holds the row of the formula, if it is that of a formula. -/
def Supported (store : FormulaStore) (company : String) (d : AuditDocument) : Prop :=
  ∃ e, AuditEntry.load d.content = .ok e ∧ (e.kind = .formula → store.Holds company e)

variable {i : Installation} {ledger : List (String × AuditDocument)} {x : Event}

theorem computed_of_computes {company : String} (hx : x.company? = some company)
    {new : List AuditDocument}
    (h : (x.run i.config i.engine).trail.documents = i.engine.trail.documents ++ new) :
    x.computed i = new.map fun d => (company, d) := by
  have hadded : x.added i = new := by
    rw [Event.added, Event.after]
    simp only [h, List.drop_left]
  rw [Event.computed, hx, hadded]
  simp

theorem Ledger.sound (h : Ledger i ledger) : i.engine.Sound := by
  induction h with
  | start root author => exact sound_below root author
  | step x _ hx ih => exact (Event.sound_run _ ih hx).1

theorem Ledger.documents_eq (h : Ledger i ledger) :
    ledger.map (·.2) = i.engine.trail.documents := by
  induction h with
  | start root author => rfl
  | @step i ledger x hl hx ih =>
      rw [List.map_append, ih]
      cases hc : x.company? with
      | none =>
          have htrail := Event.trail_run_of_company?_eq_none (c := i.config) (e := i.engine) hc
          simp [Event.computed, hc, Event.after, htrail]
      | some company =>
          obtain ⟨-, new, hdocs, -⟩ := Event.computes_run (c := i.config) hl.sound hx hc
          rw [computed_of_computes hc hdocs]
          simp [Event.after, hdocs, Function.comp_def]

/-- Whatever happens, the documents of the trail are those of the ledger, and the row of every
formula among them is stored once, in the scope of the company and with the terms that were
recorded. -/
theorem ledger_supported (h : Ledger i ledger) : ledger.map (·.2) = i.engine.trail.documents ∧
    ∀ p ∈ ledger, Supported i.engine.store p.1 p.2 := by
  refine ⟨h.documents_eq, ?_⟩
  induction h with
  | start root author => exact fun _ hp => nomatch hp
  | @step i ledger x hl hx ih =>
      intro p hp
      rcases List.mem_append.1 hp with hp | hp
      · obtain ⟨e, hload, hholds⟩ := ih p hp
        have hd : p.2 ∈ i.engine.trail.documents :=
          hl.documents_eq ▸ List.mem_map_of_mem hp
        exact ⟨e, hload, fun hk => Event.holds_run hl.sound hx hd hload (hholds hk)⟩
      · cases hc : x.company? with
        | none =>
            rw [Event.computed, hc] at hp
            cases hp
        | some company =>
            obtain ⟨hstore, new, hdocs, hnew⟩ :=
              Event.computes_run (c := i.config) hl.sound hx hc
            rw [computed_of_computes hc hdocs] at hp
            obtain ⟨d, hd, rfl⟩ := List.mem_map.1 hp
            obtain ⟨e, hload, hholds⟩ := hnew d hd
            exact ⟨e, hload, fun hk => hstore.symm ▸ hholds hk⟩

/-! A bonus that was paid and then got another name -/

def granting : Event := .create "f1" FormulaStore.noon {
  company := .text "ACME"
  concept := .text "P010"
  kind := .text "PERCEPTION"
  name := .text "Bono"
  expression := .text "custom1" }

def paying : Event := .calculate FormulaStore.noon "c1"
  { Engine.longPeriod with overrides := .object [("custom1", .text "250")] }

def retitling : Event :=
  .newVersion "f2" FormulaStore.noon (.text "f1") [("name", .text "Premio")] .null

def bonusGranted : Installation :=
  { below "srv" none with engine := { store := FormulaStore.oneRow } }

def bonusPaid : Installation := paying.after bonusGranted

def bonusRenamed : Installation := retitling.after bonusPaid

theorem granting_after : granting.after (below "srv" none) = bonusGranted := by
  change { below "srv" none with engine := { store := FormulaStore.granted.after {} } } = _
  rw [FormulaStore.granted_after]
  rfl

theorem ledger_bonusGranted : Ledger bonusGranted [] := by
  rw [← granting_after]
  refine .step granting (.start "srv" none) ?_
  intro id _ company concept v hv
  cases hv

theorem admissible_paying : paying.Admissible bonusGranted.engine :=
  ⟨fun _ hd => (nomatch hd), longPeriod_loaded⟩

theorem store_bonusPaid : bonusPaid.engine.store = FormulaStore.oneRow :=
  (Event.computes_run (c := bonusGranted.config) ledger_bonusGranted.sound
    admissible_paying rfl).1

theorem ledger_bonusRenamed :
    Ledger bonusRenamed (paying.computed bonusGranted ++ retitling.computed bonusPaid) := by
  refine .step retitling (.step paying ledger_bonusGranted admissible_paying) ?_
  have hfresh := FormulaStore.fresh_renamed
  rw [← store_bonusPaid] at hfresh
  exact hfresh

theorem store_bonusRenamed : bonusRenamed.engine.store = FormulaStore.twoRows := by
  change FormulaStore.renamed.after bonusPaid.engine.store = _
  rw [store_bonusPaid, FormulaStore.renamed_after]

theorem bonusRenamed_supported : ∃ ledger, Ledger bonusRenamed ledger ∧
    bonusRenamed.engine.store = FormulaStore.twoRows ∧
    bonusRenamed.engine.trail.documents.map (fun d => (d.id,
      (AuditEntry.load d.content).toOption.map (·.rule))) =
        [("c1-001", some "f1"), ("c1-002", some "ISR_LISR_ART_96"),
          ("c1-003", some "SUBSIDIO_EMPLEO_LISR"), ("c1-004", some "IMSS_LSS_ART_15"),
          ("c1-005", some "IMSS_LSS_ART_15_PATRON"), ("c1-006", some "INFONAVIT_LEY_ART_29")] ∧
    ledger.map (·.2) = bonusRenamed.engine.trail.documents ∧
      ∀ p ∈ ledger, Supported bonusRenamed.engine.store p.1 p.2 := by
  refine ⟨_, ledger_bonusRenamed, store_bonusRenamed, ?_, ledger_supported ledger_bonusRenamed⟩
  decide +kernel

end Installation

end Payroll
