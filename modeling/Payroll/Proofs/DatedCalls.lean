import Mathlib
import Payroll.Calls
import Payroll.Proofs.AuditReplay

/-!
Entries that are dated by a clock replay like those of one time, and a call leaves entries of its
own behind those that are there.
-/

namespace Payroll

open Result
open Recording (document)

namespace AuditEntry

variable {e : AuditEntry}

theorem readable_of_load {j : Json} (h : load j = .ok e) : e.Readable := by
  obtain ⟨fs, -, -, hrun, -⟩ := Record.record_eq_ok.1 (Record.load_eq_ok.1 h)
  rw [Record.FieldReader.run_eq_ok] at hrun
  unfold fieldReader at hrun
  iterate 23 rw [Record.FieldReader.exists_run_seq] at hrun
  rw [Record.FieldReader.exists_run_map] at hrun
  obtain ⟨_, -, _, -, _, -, _, -, _, -, _, -, _, -, _, hbase, _, hlower, _, hexcess, _, hmarginal, _,
    hfee, _, hresult, _, -, _, -, _, -, _, -, _, -, _, -, _, -, _, -, _, -, _, -, _, -, rfl⟩ := hrun
  have hamount {name : String} {d : Decimal}
      (hr : (Record.required name Record.decimal).run fs = .ok d) : d.readable := by
    obtain ⟨i, -, hi⟩ := Record.required_eq_ok.1 hr
    exact Record.readable_of_decimal hi
  have hoption {name : String} {o : Option Decimal}
      (hr : (Record.optional name Record.decimal).run fs = .ok o) : ∀ d ∈ o, d.readable := by
    intro d hd
    cases hd
    obtain ⟨i, hi⟩ := Record.exists_read_of_optional hr
    exact Record.readable_of_decimal hi
  exact ⟨hamount hbase, hoption hlower, hoption hexcess, hoption hmarginal, hoption hfee,
    hamount hresult⟩

/-- The time of an entry has no part in its check. -/
theorem Replays.redated (h : e.Replays) (t : Instant) : Replays { e with calculatedAt := t } := by
  obtain ⟨hload, hcheck⟩ := h
  have hr := readable_of_load hload
  exact ⟨load_toJson ⟨hr.base, hr.lower, hr.excess, hr.marginal, hr.fixedFee, hr.result⟩, hcheck⟩

end AuditEntry

namespace Recording

variable {calculation detail : String} {clock : Nat → Instant} {n : Nat} {ps : List Pending}
  {make : String → AuditEntry}

theorem mem_dated (h : .ok make ∈ dated clock n ps) : ∃ make', .ok make' ∈ ps ∧
    ∃ k, make = fun id => { make' id with calculatedAt := clock k } := by
  induction ps generalizing n with
  | nil => cases h
  | cons p ps ih =>
      rcases List.mem_cons.1 h with h | h
      · obtain ⟨make', rfl, rfl⟩ := map_eq_ok.1 h.symm
        exact ⟨make', List.mem_cons_self, n, rfl⟩
      · obtain ⟨make', hmake', hk⟩ := ih h
        exact ⟨make', List.mem_cons_of_mem _ hmake', hk⟩

theorem OfDetail.dated (h : OfDetail detail ps) : OfDetail detail (dated clock n ps) := by
  intro make hmake id
  obtain ⟨make', hmake', k, rfl⟩ := mem_dated hmake
  exact h make' hmake' id

/-- Entries that already have the time of a clock that stands still. -/
theorem dated_const {t : Instant} (h : ∀ make, .ok make ∈ ps → ∀ id, (make id).calculatedAt = t) :
    dated (fun _ => t) n ps = ps := by
  induction ps generalizing n with
  | nil => rfl
  | cons p ps ih =>
      have hp : p.map (fun make id => { make id with calculatedAt := t }) = p := by
        cases p with
        | error f => rfl
        | ok make =>
            have hmake : (fun id => { make id with calculatedAt := t }) = make := by
              funext id
              rw [← h make List.mem_cons_self id]
            exact congrArg _ hmake
      rw [dated, hp, ih fun make hm => h make (List.mem_cons_of_mem _ hm)]

variable {a : Author} {s : Calculation.Setting} {versions : List FormulaVersion} {c : Calculation}

theorem made_of_mem_pending (h : .ok make ∈ pending a s versions c) (id : String) :
    (make id).calculation = some c.id ∧ (make id).period = some s.period.id ∧
      (make id).calculatedAt = a.now := by
  rcases mem_pending h with ⟨amount, -, he⟩ | ⟨table, -, he⟩ | ⟨r, table, -, -, he⟩ |
    ⟨parts, -, part, -, he⟩
  · cases he
    exact ⟨rfl, rfl, rfl⟩
  · cases he
    exact ⟨rfl, rfl, rfl⟩
  · cases he
    exact ⟨rfl, rfl, rfl⟩
  · rw [(imssEntry_eq_ok he).2]
    exact ⟨rfl, rfl, rfl⟩

end Recording

namespace Engine

variable {c : Configuration} {now : Instant} {clock : Nat → Instant} {id : String} {r : Request}
  {e e' : Engine} {p : Prepared}

/-- With a clock that stands still, entries are dated like their snapshots. -/
theorem calculateBy_const (c : Configuration) (now : Instant) (id : String) (r : Request) :
    calculateBy c now (fun _ => now) id r = calculate c now id r := by
  have hentries (p : Prepared) (e : Engine) : datedEntries now (fun _ => now) p e =
      Recording.pending ⟨now, e.author⟩ p.setting p.versions p.calculation :=
    Recording.dated_const fun _ hmake id => (Recording.made_of_mem_pending hmake id).2.2
  have hrecord (p : Prepared) : recordBy now (fun _ => now) p = record now p := by
    simp only [recordBy, hentries]
    rfl
  simp only [calculateBy, hrecord]
  rfl

/-- What storing the dated entries of a prepared calculation leaves and gives. -/
def storedBy (now : Instant) (clock : Nat → Instant) (p : Prepared) (e : Engine) :
    AuditTrail × Except Fault (List String) :=
  Recording.storeFrom p.calculation.id 1 e.trail (datedEntries now clock p e)

theorem perform_recordBy : perform (recordBy now clock p) e =
    ((storedBy now clock p e).2, { e with trail := (storedBy now clock p e).1 }) := by
  have hrun : perform (recordBy now clock p) e = perform (liftM (storedBy now clock p e).2)
      { e with trail := (storedBy now clock p e).1 } := rfl
  rw [hrun, perform_lift]

theorem perform_calculateBy_error {f : Fault} (h : perform (prepare c id r) e = (.error f, e')) :
    perform (calculateBy c now clock id r) e = (.error f, e') := perform_recorded_error h

theorem perform_calculateBy_ok (h : perform (prepare c id r) e = (.ok p, e')) :
    perform (calculateBy c now clock id r) e =
      ((storedBy now clock p e').2 >>= fun entries => p.calculation.netPay >>= fun _ =>
        pure ⟨p.calculation, entries⟩, { e' with trail := (storedBy now clock p e').1 }) :=
  perform_recorded_ok h perform_recordBy

theorem replays_dated (he : e.Sound) (hemployee : r.employee.Loaded) (hperiod : r.period.Loaded)
    (h : perform (prepare c id r) e = (.ok p, e')) {make : String → AuditEntry}
    (hmake : .ok make ∈ datedEntries now clock p e') (entry : String) : (make entry).Replays := by
  obtain ⟨make', hmake', k, rfl⟩ := Recording.mem_dated hmake
  exact (replays_of_prepare he hemployee hperiod h hmake' entry).redated (clock k)

theorem sound_calculateBy (c : Configuration) (now : Instant) (clock : Nat → Instant) (he : e.Sound)
    (hemployee : r.employee.Loaded) (hperiod : r.period.Loaded)
    (hfree : Recording.Unused e.trail id 1) : (perform (calculateBy c now clock id r) e).2.Sound := by
  have hsound := sound_prepare c id r he
  obtain ⟨-, htrail, -⟩ := reads_prepare c id r e
  rcases hp : perform (prepare c id r) e with ⟨f | p, e₁⟩
  · rw [hp] at hsound
    rw [perform_calculateBy_error hp]
    exact hsound
  · rw [hp] at hsound htrail
    obtain ⟨_, _, -, -, -, -, -, -, hcompute⟩ := prepare_eq_ok hp
    obtain ⟨-, rfl, -⟩ := Calculation.compute_eq_ok hcompute
    rw [perform_calculateBy_ok hp]
    have hof : Recording.OfDetail p.calculation.detail (datedEntries now clock p e₁) :=
      (Recording.ofDetail_pending _ _ _ _).dated
    obtain ⟨hstored, -⟩ := Recording.storeFrom_sound hof
      (fun _ hmake => replays_dated he hemployee hperiod hp hmake) (htrail ▸ hfree) hsound.trail
    exact ⟨hsound.store, hsound.tables, hstored⟩

/-- An entry of a call: it reads back, and it belongs to the detail and the period that were asked
for, to the calculation of that call, and to its time. -/
structure Call.Made (x : Call) (entry : AuditEntry) : Prop where
  load : AuditEntry.load entry.toJson = .ok entry
  id : ∃ k, 1 ≤ k ∧ entry.id = Recording.entryId x.id k
  detail : entry.detail = x.request.detailId
  period : entry.period = some x.request.period.id
  calculation : entry.calculation = some x.id
  dated : ∃ n, entry.calculatedAt = x.clock n

theorem made_of_mem_dated {x : Call} (he : e.Sound) (hemployee : x.request.employee.Loaded)
    (hperiod : x.request.period.Loaded) (h : perform (prepare c x.id x.request) e = (.ok p, e'))
    {make : String → AuditEntry} (hmake : .ok make ∈ datedEntries now x.clock p e') {k : Nat}
    (hk : 1 ≤ k) : x.Made (make (Recording.entryId x.id k)) := by
  obtain ⟨_, _, -, -, -, hp, -, -, hcompute⟩ := prepare_eq_ok h
  obtain ⟨hdetail, hid, -⟩ := Calculation.compute_eq_ok hcompute
  have hload := (replays_dated he hemployee hperiod h hmake (Recording.entryId x.id k)).1
  obtain ⟨make', hmake', n, rfl⟩ := Recording.mem_dated hmake
  obtain ⟨hdetail', hid'⟩ := Recording.ofDetail_pending _ _ _ _ make' hmake' (Recording.entryId x.id k)
  obtain ⟨hcalculation, hperiod', -⟩ :=
    Recording.made_of_mem_pending hmake' (Recording.entryId x.id k)
  refine ⟨hload, ⟨k, hk, hid'⟩, hdetail'.trans hdetail, ?_, ?_, ⟨n, rfl⟩⟩
  · exact hperiod'.trans (congrArg (fun p => some p.id) hp)
  · exact hcalculation.trans (congrArg some hid)

/-- A call adds entries of its own to the trail; one that succeeds adds those whose ids it gives. -/
theorem exists_entries_calculateBy {x : Call} (c : Configuration) (he : e.Sound)
    (hemployee : x.request.employee.Loaded) (hperiod : x.request.period.Loaded) :
    ∃ es : List AuditEntry, (x.run c e).2.trail.documents = e.trail.documents ++ es.map document ∧
      (∀ entry ∈ es, x.Made entry) ∧
      ∀ recorded, (x.run c e).1 = .ok recorded → es.map (·.id) = recorded.entries ∧ es ≠ [] := by
  obtain ⟨-, htrail, -⟩ := reads_prepare c x.id x.request e
  change ∃ es : List AuditEntry,
    (perform (calculateBy c x.now x.clock x.id x.request) e).2.trail.documents = _ ∧ _ ∧
      ∀ recorded, (perform (calculateBy c x.now x.clock x.id x.request) e).1 = .ok recorded → _
  rcases hp : perform (prepare c x.id x.request) e with ⟨f | p, e₁⟩
  · rw [hp] at htrail
    rw [perform_calculateBy_error hp]
    refine ⟨[], ?_, fun _ => (nomatch ·), fun _ => (nomatch ·)⟩
    rw [List.map_nil, List.append_nil]
    exact congrArg _ htrail
  · rw [hp] at htrail
    simp only at htrail
    obtain ⟨_, _, -, -, -, -, -, -, hcompute⟩ := prepare_eq_ok hp
    obtain ⟨-, hid, ⟨steps⟩⟩ := Calculation.compute_eq_ok hcompute
    obtain ⟨es, hdocs, hmade, hids⟩ := Recording.exists_entries_storeFrom p.calculation.id 1 e₁.trail
      (datedEntries x.now x.clock p e₁)
    rw [perform_calculateBy_ok hp]
    refine ⟨es, htrail ▸ hdocs, ?_, ?_⟩
    · intro entry hentry
      obtain ⟨make, hmake, k, hk, rfl⟩ := hmade entry hentry
      rw [hid]
      exact made_of_mem_dated he hemployee hperiod hp hmake hk
    · intro recorded h
      obtain ⟨entries, hentries, h⟩ := bind_eq_ok.1 h
      obtain ⟨_, -, h⟩ := bind_eq_ok.1 h
      cases h
      obtain ⟨hids, hlength⟩ := hids entries hentries
      refine ⟨hids, ?_⟩
      -- there is always a tax
      obtain ⟨make, ps, hps⟩ := Recording.exists_cons_of_isrTable ⟨x.now, e₁.author⟩ p.versions
        p.calculation steps.isrTable
      rintro rfl
      rw [datedEntries, hps] at hlength
      cases hlength

end Engine

namespace AuditTrail

variable {es : List AuditEntry}

theorem filterMap_load (hload : ∀ e ∈ es, AuditEntry.load e.toJson = .ok e) :
    (es.map document).filterMap (fun d => (AuditEntry.load d.content).toOption) = es := by
  rw [List.filterMap_map]
  refine (List.filterMap_congr fun e he => ?_).trans List.filterMap_some
  exact congrArg Except.toOption (hload e he)

theorem since_eq {earlier t : AuditTrail}
    (hdocs : t.documents = earlier.documents ++ es.map document)
    (hload : ∀ e ∈ es, AuditEntry.load e.toJson = .ok e) : earlier.since t = es := by
  rw [since, hdocs, List.drop_left]
  exact filterMap_load hload

end AuditTrail

namespace FinishedCall

/-- The clock of a call is behind that of a later one, and entries of both are told apart. -/
def Precedes (x y : FinishedCall) : Prop :=
  (∀ m n, (x.call.clock m).Before (y.call.clock n)) ∧ (x.entries ≠ [] → x.call.id ≠ y.call.id)

/-- The documents of a trail are the entries that calls left one after the other. -/
structure Logged (t : AuditTrail) (calls : List FinishedCall) : Prop where
  documents : t.documents = (calls.flatMap (·.entries)).map document
  made : ∀ x ∈ calls, ∀ e ∈ x.entries, x.call.Made e
  recorded : ∀ x ∈ calls, ∀ r, x.outcome = .ok r → x.entries.map (·.id) = r.entries ∧ x.entries ≠ []
  comparable : ∀ x ∈ calls, ∀ m n,
    (x.call.clock m).offset.isNone = (x.call.clock n).offset.isNone
  ordered : calls.Pairwise Precedes

theorem Logged.nil : Logged {} [] :=
  ⟨rfl, fun _ => (nomatch ·), fun _ => (nomatch ·), fun _ => (nomatch ·), .nil⟩

end FinishedCall

namespace Installation

open FinishedCall (Logged)

variable {i : Installation} {calls : List FinishedCall}

theorem logged_call {x : Engine.Call} (hi : i.engine.Sound) (h : Logged i.engine.trail calls)
    (hx : x.Admissible i.engine calls) :
    Logged (x.after i).engine.trail (calls ++ [x.finish i]) := by
  obtain ⟨es, hdocs, hmade, hrecorded⟩ :=
    Engine.exists_entries_calculateBy i.config hi hx.employee hx.period
  have hentries : (x.finish i).entries = es :=
    AuditTrail.since_eq hdocs fun e he => (hmade e he).load
  constructor
  case documents =>
    have hafter : (x.after i).engine.trail.documents = i.engine.trail.documents ++ es.map document :=
      hdocs
    rw [hafter, h.documents, List.flatMap_append, List.map_append, List.flatMap_singleton, hentries]
  case made =>
    refine List.forall_mem_append.2 ⟨h.made, List.forall_mem_singleton.2 ?_⟩
    rw [hentries]
    exact hmade
  case recorded =>
    refine List.forall_mem_append.2 ⟨h.recorded, List.forall_mem_singleton.2 ?_⟩
    rw [hentries]
    exact hrecorded
  case comparable =>
    exact List.forall_mem_append.2 ⟨h.comparable, List.forall_mem_singleton.2 hx.comparable⟩
  case ordered =>
    refine List.pairwise_append.2 ⟨h.ordered, List.pairwise_singleton _ _, ?_⟩
    intro y hy z hz
    cases List.mem_singleton.1 hz
    refine ⟨hx.later y hy, fun hne hid => ?_⟩
    -- an entry of the earlier call has an id that the new call must not use
    obtain ⟨e, he⟩ := List.exists_mem_of_ne_nil _ hne
    obtain ⟨k, hk, hentry⟩ := (h.made y hy e he).id
    have hmem : document e ∈ i.engine.trail.documents := by
      rw [h.documents]
      exact List.mem_map_of_mem (List.mem_flatMap.2 ⟨y, hy, he⟩)
    have hsame : y.call.id = x.id := hid
    exact hx.unused _ hmem k hk (hsame ▸ hentry)

theorem logged_of_calls (h : Calls i calls) : i.engine.Sound ∧ Logged i.engine.trail calls := by
  induction h with
  | start root author => exact ⟨sound_below root author, .nil⟩
  | event x _ hx htrail ih => exact ⟨(Event.sound_run _ ih.1 hx).1, htrail.symm ▸ ih.2⟩
  | call x _ hx ih =>
      refine ⟨?_, logged_call ih.1 ih.2 hx⟩
      exact Engine.sound_calculateBy _ _ _ ih.1 hx.employee hx.period hx.unused

end Installation

end Payroll
