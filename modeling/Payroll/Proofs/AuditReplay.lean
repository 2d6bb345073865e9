import Mathlib
import Payroll.Event
import Payroll.Proofs.Resolution
import Payroll.Proofs.TrailHistory
import Payroll.Proofs.VersionHistory

/-!
Every entry of the audit trail replays, whatever happens after it was stored: later versions of the
formulas, other settings and other tables do not reach into it.
-/

namespace Payroll

open Result

namespace Engine

variable {store : FormulaStore} {company : String} {target : Date} {versions : List FormulaVersion}

theorem versionsOn_eq_ok (h : versionsOn store company target = .ok versions) :
    ∀ v ∈ versions, ∃ concept, v ∈ (store.scope company concept).rows ∧ v.active = true := by
  obtain ⟨codes, -, h⟩ := bind_eq_ok.1 h
  obtain ⟨found, hfound, h⟩ := bind_eq_ok.1 h
  cases h
  intro v hv
  obtain ⟨o, ho, hrow⟩ := List.mem_filterMap.1 hv
  obtain ⟨r, rfl, rfl⟩ := Option.map_eq_some_iff.1 hrow
  obtain ⟨concept, -, hresolve⟩ := exists_of_mem_mapM hfound ho
  obtain ⟨scope, hscope, hresolve⟩ := bind_eq_ok.1 hresolve
  obtain rfl := FormulaStore.scopeOf_eq_ok hscope
  exact ⟨concept, Version.resolve_eq_some (pure_eq_ok.1 hresolve)⟩

/-- The rows that are stored have ids of their own, so that each is found under its id. -/
theorem versionOf_eq (hs : FormulaStore.Reachable store)
    (h : versionsOn store company target = .ok versions) {v : FormulaVersion} (hv : v ∈ versions) :
    Recording.versionOf versions v = v := by
  have hstored := versionsOn_eq_ok h
  rw [Recording.versionOf]
  cases hfound : versions.reverse.find? fun w => w.id == v.id with
  | none => rfl
  | some w =>
      have hw := List.mem_reverse.1 (List.mem_of_find?_eq_some hfound)
      have hsame := List.find?_some hfound
      have hid : w.id = v.id := beq_iff_eq.1 hsame
      obtain ⟨concept, hmem, -⟩ := hstored v hv
      obtain ⟨concept', hmem', -⟩ := hstored w hw
      obtain ⟨-, rfl⟩ := FormulaStore.separate_of_reachable hs _ _ _ _ w hmem' v hmem hid
      exact (FormulaStore.sound_of_reachable hs _ _).eq_of_id hmem' hmem hid

theorem readable_exemptLimit (hs : FormulaStore.Reachable store)
    (h : versionsOn store company target = .ok versions) {v : FormulaVersion} (hv : v ∈ versions) :
    ∀ d ∈ v.exemptLimit, d.readable := by
  intro d hd
  obtain ⟨concept, hmem, ha⟩ := versionsOn_eq_ok h v hv
  have hread := (FormulaStore.sound_of_reachable hs _ _).sources.readable v hmem ha
  obtain ⟨j, hj⟩ := Record.exists_read_of_optional (hread.exemptLimit.trans (congrArg _ hd))
  exact Record.readable_of_decimal (Record.bounded_eq_ok.1 hj).1

section

variable {κ α : Type} [BEq κ]

theorem exists_mem_of_lookUp {key : κ} {entries : List (κ × α)} {a : α}
    (h : lookUp key entries = some a) : ∃ p ∈ entries, p.2 = a := by
  obtain ⟨p, hp, rfl⟩ := Option.map_eq_some_iff.1 h
  exact ⟨p, List.mem_of_find?_eq_some hp, rfl⟩

theorem mem_putEntry {key : κ} {a : α} {entries : List (κ × α)} {p : κ × α}
    (h : p ∈ putEntry key a entries) : p = (key, a) ∨ p ∈ entries := by
  induction entries with
  | nil => exact .inl (List.mem_singleton.1 h)
  | cons e es ih =>
      simp only [putEntry] at h
      split at h
      · rcases List.mem_cons.1 h with rfl | h
        · exact .inl rfl
        · exact .inr (List.mem_cons_of_mem _ h)
      · rcases List.mem_cons.1 h with rfl | h
        · exact .inr List.mem_cons_self
        · exact (ih h).imp_right (List.mem_cons_of_mem _)

end

variable {c : Configuration} {now : Instant} {id : String} {r : Request} {e e' : Engine}

/-- The tables that are kept since they were loaded read back. -/
def TablesReadBack (e : Engine) : Prop := ∀ p ∈ e.tables, p.2.ReadsBack

theorem TablesReadBack.put (h : e.TablesReadBack) {year : Int} {t : FiscalTables}
    (ht : c.loadTables year = .ok t) :
    TablesReadBack { e with tables := putEntry year t e.tables } := by
  intro p hp
  rcases mem_putEntry hp with rfl | hp
  · exact Configuration.readsBack_of_loadTables ht
  · exact h p hp

theorem readsBack_of_tablesFor {year : Int} {t : FiscalTables} (he : e.TablesReadBack)
    (h : perform (tablesFor c year) e = (.ok t, e')) : t.ReadsBack := by
  obtain ⟨e₁, e₂, hget, hrun⟩ := perform_bind_eq_ok.1 h
  obtain ⟨rfl, rfl⟩ := perform_get_eq_ok.1 hget
  split at hrun
  · next t' ht =>
    cases hrun
    obtain ⟨p, hp, rfl⟩ := exists_mem_of_lookUp ht
    exact he p hp
  · obtain ⟨t', _, hload, hrun⟩ := perform_bind_eq_ok.1 hrun
    obtain ⟨_, _, -, hrun⟩ := perform_bind_eq_ok.1 hrun
    cases hrun
    exact Configuration.readsBack_of_loadTables (perform_lift_eq_ok.1 hload).1

/-- What every engine has that its installation can come to. -/
structure Sound (e : Engine) : Prop where
  store : FormulaStore.Reachable e.store
  tables : e.TablesReadBack
  trail : e.trail.Sound

theorem Sound.putPolicies (h : e.Sound) (policies : List (String × RoundingPolicy)) :
    Sound { e with policies } := ⟨h.store, h.tables, h.trail⟩

theorem Sound.putTables (h : e.Sound) {year : Int} {t : FiscalTables}
    (ht : c.loadTables year = .ok t) : Sound { e with tables := putEntry year t e.tables } :=
  ⟨h.store, h.tables.put ht, h.trail⟩

theorem sound_prepare (c : Configuration) (id : String) (r : Request) (he : e.Sound) :
    (perform (prepare c id r) e).2.Sound :=
  keeps_prepare (fun _ _ h => h.putPolicies _) (fun _ _ h ht => h.putTables ht) e he

/-- What was prepared has tables that read back, versions of the store, and numbers that trace to them. -/
theorem traced_of_prepare {p : Prepared} (he : e.Sound) (hemployee : r.employee.Loaded)
    (hperiod : r.period.Loaded) (h : perform (prepare c id r) e = (.ok p, e')) :
    p.setting.tables.ReadsBack ∧ p.calculation.Traced p.setting p.versions ∧
      versionsOn e.store r.company r.target = .ok p.versions := by
  obtain ⟨e₁, values, hpolicy, htables, hemp, -, hvalues, hversions, hcompute⟩ := prepare_eq_ok h
  have hkept : TablesReadBack (perform (policy c r.company) e).2 :=
    keeps_policy (fun _ _ h => h) _ e he.tables
  rw [hpolicy] at hkept
  have ht := readsBack_of_tablesFor hkept htables
  have hstore : e'.store = e.store := by
    have hreads := (reads_prepare c id r e).1
    rwa [h] at hreads
  have hreadable := Formula.readable_bindings hemployee hperiod ht.published.values hvalues
  exact ⟨ht, Calculation.traced_of_compute (hemp ▸ hemployee) hreadable hcompute, hstore ▸ hversions⟩

theorem replays_of_prepare {p : Prepared} (he : e.Sound) (hemployee : r.employee.Loaded)
    (hperiod : r.period.Loaded) (h : perform (prepare c id r) e = (.ok p, e'))
    {a : Recording.Author} {make : String → AuditEntry}
    (hmake : .ok make ∈ Recording.pending a p.setting p.versions p.calculation) (entry : String) :
    (make entry).Replays := by
  obtain ⟨ht, htraced, hversions⟩ := traced_of_prepare he hemployee hperiod h
  refine Recording.replays_of_mem_pending ht htraced ?_ hmake entry
  exact fun v hv => ⟨versionOf_eq he.store hversions hv, readable_exemptLimit he.store hversions hv⟩

theorem sound_calculate (c : Configuration) (now : Instant) (he : e.Sound)
    (hemployee : r.employee.Loaded) (hperiod : r.period.Loaded)
    (hfree : Recording.Unused e.trail id 1) : (perform (calculate c now id r) e).2.Sound ∧
      Recording.Extends id 1 e.trail (perform (calculate c now id r) e).2.trail := by
  have hsound := sound_prepare c id r he
  obtain ⟨-, htrail, -⟩ := reads_prepare c id r e
  rcases hp : perform (prepare c id r) e with ⟨f | p, e₁⟩
  · rw [hp] at hsound htrail
    rw [perform_calculate_error hp]
    exact ⟨hsound, htrail ▸ Recording.extends_refl _ _ _⟩
  · rw [hp] at hsound htrail
    simp only at hsound htrail
    obtain ⟨_, _, -, -, -, -, -, -, hcompute⟩ := prepare_eq_ok hp
    obtain ⟨-, rfl, -⟩ := Calculation.compute_eq_ok hcompute
    rw [perform_calculate_ok hp, ← htrail]
    have hreplays : ∀ make, .ok make ∈ Recording.pending ⟨now, e₁.author⟩ p.setting p.versions
        p.calculation → ∀ entry, (make entry).Replays :=
      fun _ hmake => replays_of_prepare he hemployee hperiod hp hmake
    obtain ⟨hstored, hext⟩ := Recording.storeFrom_sound (Recording.ofDetail_pending _ _ _ _) hreplays
      (htrail ▸ hfree) hsound.trail
    exact ⟨⟨hsound.store, hsound.tables, hstored⟩, hext⟩

theorem perform_attempts {α β : Type} {x : StateM Engine α} {f : α → Action β} :
    perform (liftM x >>= f) e = perform (f (x.run e).1) (x.run e).2 := rfl

section Relations

variable {R : Engine → Engine → Prop} {company : String}

/-- A relation to what every calculation leaves is one to what a sequence of them leaves. -/
theorem relates_attemptFrom (hrefl : ∀ e, e.Sound → R e e)
    (htrans : ∀ e e₁ e₂, R e e₁ → R e₁ e₂ → R e e₂) {rs : List Request} {k : Nat}
    (hcalculate : ∀ r ∈ rs, ∀ e, e.Sound → ∀ id, Recording.Unused e.trail id 1 →
      R e (perform (calculate c now id r) e).2)
    (he : e.Sound) (hloaded : ∀ r ∈ rs, r.employee.Loaded ∧ r.period.Loaded)
    (hfree : ∀ j, k ≤ j → Recording.Unused e.trail s!"{id}.{j}" 1) :
    R e ((attemptFrom c now id k rs).run e).2 := by
  induction rs generalizing e k with
  | nil => exact hrefl e he
  | cons r rs ih =>
      obtain ⟨⟨hemployee, hperiod⟩, hrest⟩ := List.forall_mem_cons.1 hloaded
      obtain ⟨hfirst, hcalculate⟩ := List.forall_mem_cons.1 hcalculate
      obtain ⟨hsound, hext⟩ := sound_calculate c now he hemployee hperiod (hfree k le_rfl)
      exact htrans _ _ _ (hfirst e he _ (hfree k le_rfl)) (ih hcalculate hsound hrest fun j hj =>
        hext.unused (by omega) (hfree j (by omega)))

/-- A relation to what every calculation leaves is one to what a run of a period leaves. -/
theorem relates_runPeriod {period : Period} {employees : List (Employee × Json)}
    (hkept : ∀ e e₁, e₁.Sound → e₁.store = e.store → e₁.trail = e.trail → R e e₁)
    (htrans : ∀ e e₁ e₂, R e e₁ → R e₁ e₂ → R e e₂)
    (hcalculate : ∀ r : Request, r.company = company → r.employee.Loaded → r.period.Loaded →
      ∀ e, e.Sound → ∀ id, Recording.Unused e.trail id 1 → R e (perform (calculate c now id r) e).2)
    (he : e.Sound) (hfree : ∀ k : Nat, Recording.Unused e.trail s!"{id}.{k}" 1)
    (hperiod : period.Loaded) (hemployees : ∀ p ∈ employees, p.1.Loaded) :
    R e (perform (runPeriod c now id company period employees) e).2 := by
  have hpolicy : Keeps (fun e' => e'.Sound ∧ e'.store = e.store ∧ e'.trail = e.trail)
      (policy c company) :=
    keeps_policy (fun _ _ h => ⟨h.1.putPolicies _, h.2⟩) company
  have htables : Keeps (fun e' => e'.Sound ∧ e'.store = e.store ∧ e'.trail = e.trail)
      (tablesFor c period.year) :=
    keeps_tablesFor fun _ _ h ht => ⟨h.1.putTables ht, h.2⟩
  have hstop (e' : Engine) (h : e'.Sound ∧ e'.store = e.store ∧ e'.trail = e.trail) : R e e' :=
    hkept e e' h.1 h.2.1 h.2.2
  refine bind_of_keeps (Q := R e) hpolicy hstop (fun _ e₁ h₁ => ?_) ⟨he, rfl, rfl⟩
  refine bind_of_keeps (Q := R e) htables hstop (fun _ e₂ h₂ => ?_) h₁
  obtain ⟨hsound, hstore, htrail⟩ := h₂
  simp only
  rw [perform_attempts]
  have hloaded : ∀ r ∈ employees.map fun x =>
      ({ company, employee := x.1, period, overrides := x.2 } : Request),
      r.company = company ∧ r.employee.Loaded ∧ r.period.Loaded := by
    intro r hr
    obtain ⟨x, hx, rfl⟩ := List.mem_map.1 hr
    exact ⟨rfl, hemployees x hx, hperiod⟩
  have hattempts (rs : List Request)
      (hrs : ∀ r ∈ rs, r.company = company ∧ r.employee.Loaded ∧ r.period.Loaded) :
      R e₂ ((attemptFrom c now id 1 rs).run e₂).2 :=
    relates_attemptFrom (fun e' he' => hkept e' e' he' rfl rfl) htrans
      (fun r hr => hcalculate r (hrs r hr).1 (hrs r hr).2.1 (hrs r hr).2.2) hsound
      (fun r hr => (hrs r hr).2) fun j _ => htrail ▸ hfree j
  -- what is left only reads the trail
  refine keeps_bind (P := R e) keeps_get (fun _ => ?_) _ (htrans _ _ _ (hkept e e₂ hsound hstore htrail)
    (hattempts _ hloaded))
  exact keeps_bind (keeps_lift _) fun _ => keeps_pure _

end Relations

theorem sound_runPeriod {company : String} {period : Period} {employees : List (Employee × Json)}
    (he : e.Sound) (hfree : ∀ k : Nat, Recording.Unused e.trail s!"{id}.{k}" 1)
    (hperiod : period.Loaded) (hemployees : ∀ p ∈ employees, p.1.Loaded) :
    (perform (runPeriod c now id company period employees) e).2.Sound ∧ e.trail.documents <+:
      (perform (runPeriod c now id company period employees) e).2.trail.documents := by
  refine relates_runPeriod (R := fun e e' => e'.Sound ∧ e.trail.documents <+: e'.trail.documents)
    (fun _ _ hsound _ htrail => ⟨hsound, htrail ▸ List.prefix_refl _⟩)
    (fun _ _ _ h h' => ⟨h'.1, h.2.trans h'.2⟩) ?_ he hfree hperiod hemployees
  intro r _ hemployee hperiod e he id hfree
  obtain ⟨hsound, hext⟩ := sound_calculate c now he hemployee hperiod hfree
  exact ⟨hsound, hext.documents_prefix⟩

end Engine

namespace Event

variable {c : Configuration} {e : Engine} {x : Event}

/-- Whatever happens, all entries replay, and none of them goes away. -/
theorem sound_run (c : Configuration) (he : e.Sound) (hx : x.Admissible e) :
    (x.run c e).Sound ∧ e.trail.documents <+: (x.run c e).trail.documents := by
  have hchange {op : FormulaStore.Operation} (hop : op.Fresh e.store) : (e.change op).Sound :=
    ⟨.step op he.store hop, he.tables, he.trail⟩
  cases x with
  | create | newVersion => exact ⟨hchange hx, List.prefix_refl _⟩
  | delete => exact ⟨hchange fun _ hid => (nomatch hid), List.prefix_refl _⟩
  | configure => exact ⟨he, List.prefix_refl _⟩
  | setPolicy | invalidate | clearPolicies => exact ⟨he.putPolicies _, List.prefix_refl _⟩
  | clearTables => exact ⟨⟨he.store, fun _ hp => (nomatch hp), he.trail⟩, List.prefix_refl _⟩
  | calculate now id request =>
      obtain ⟨hfree, hemployee, hperiod⟩ := hx
      obtain ⟨hsound, hext⟩ := Engine.sound_calculate c now he hemployee hperiod hfree
      exact ⟨hsound, hext.documents_prefix⟩
  | runPeriod now id company period employees =>
      obtain ⟨hfree, hperiod, hemployees⟩ := hx
      exact Engine.sound_runPeriod he hfree hperiod hemployees

end Event

namespace Installation

variable {i j : Installation}

theorem sound_of_reaches (hi : i.engine.Sound) (hj : Reaches i j) : j.engine.Sound ∧
    i.engine.trail.documents <+: j.engine.trail.documents := by
  induction hj with
  | refl => exact ⟨hi, List.prefix_refl _⟩
  | step x _ hx ih =>
      obtain ⟨hsound, hprefix⟩ := Event.sound_run _ ih.1 hx
      exact ⟨hsound, ih.2.trans hprefix⟩

theorem sound_below (root : String) (author : Option String) :
    (below root author).engine.Sound :=
  ⟨.empty, fun _ hp => (nomatch hp), .empty⟩

/-- An entry that a calculation has stored stays in the trail, and from then on its check finds the
amount that it holds, both checksums as they were, and nothing to complain of. -/
theorem replays_of_reaches (hi : i.Reachable) (hj : Reaches i j) :
    ∀ d ∈ i.engine.trail.documents, d ∈ j.engine.trail.documents ∧
      ∃ e : AuditEntry, AuditEntry.load d.content = .ok e ∧ e.id = d.id ∧
        j.engine.trail.verify (.text d.id) = .ok {
          entry := d.id
          valid := true
          recomputed := some e.result
          stored := e.result
          checksumValid := true
          hashValid := true
          details := [] } := by
  intro d hd
  obtain ⟨root, author, hi⟩ := hi
  obtain ⟨hsound, -⟩ := sound_of_reaches (sound_below root author) hi
  obtain ⟨hsound, hprefix⟩ := sound_of_reaches hsound hj
  have hmem := hprefix.subset hd
  obtain ⟨e, hload, hid, hverify⟩ := hsound.trail.verify hmem
  refine ⟨hmem, e, hload, hid, ?_⟩
  rw [hverify, ← hid]
  rfl

/-- The calculation of an ordinary period. -/
def paid : Event := .calculate FormulaStore.noon "c1" { Engine.longPeriod with overrides := .null }

def rounded : Event := .setPolicy "ACME" ⟨.floor, 0, by decide⟩

def payday : Installation := paid.after (below "srv" none)

theorem longPeriod_loaded :
    Engine.longPeriod.employee.Loaded ∧ Engine.longPeriod.period.Loaded := by
  constructor
  · refine ⟨.object [("id", .text "E001"), ("base_salary", .text "15000"),
      ("hire_date", .text "2020-06-01")], ok_of_toOption ?_⟩
    decide +kernel
  · refine ⟨.object [("id", .text "2025-01-B1"), ("period_type", .text "BIWEEKLY"),
      ("year", .int 2025), ("start_date", .text "2025-01-01"), ("end_date", .text "2025-01-15")],
      ok_of_toOption ?_⟩
    decide +kernel

theorem reachable_payday : payday.Reachable :=
  ⟨"srv", none, .step paid .refl ⟨fun _ hd => (nomatch hd), longPeriod_loaded⟩⟩

theorem reaches_rounded : Reaches payday (rounded.after payday) := .step rounded .refl trivial

theorem payday_replays : payday.Reachable ∧ Reaches payday (rounded.after payday) ∧
    payday.engine.trail.documents.map (·.id) =
      ["c1-001", "c1-002", "c1-003", "c1-004", "c1-005"] ∧
    ∀ d ∈ payday.engine.trail.documents, d ∈ (rounded.after payday).engine.trail.documents ∧
      ∃ e : AuditEntry, AuditEntry.load d.content = .ok e ∧ e.id = d.id ∧
        (rounded.after payday).engine.trail.verify (.text d.id) = .ok {
          entry := d.id
          valid := true
          recomputed := some e.result
          stored := e.result
          checksumValid := true
          hashValid := true
          details := [] } := by
  refine ⟨reachable_payday, reaches_rounded, ?_, replays_of_reaches reachable_payday reaches_rounded⟩
  decide +kernel

end Installation

end Payroll
