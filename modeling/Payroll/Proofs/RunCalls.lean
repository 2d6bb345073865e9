import Mathlib
import Payroll.Proofs.ConceptCoverage
import Payroll.Proofs.DatedCalls

/-!
A run of a period as calls one after the other: what they leave in the audit trail, and which failures
are kept.
-/

namespace Payroll

open Result
open Recording (document made fault?)

/-! ### What fails in a run -/

namespace Engine

variable {α : Type} {key other id : String} {a : α} {entries : List (String × α)}

theorem lookUp_putEntry_self : lookUp key (putEntry key a entries) = some a := by
  induction entries with
  | nil => simp [putEntry, lookUp]
  | cons e es ih =>
      by_cases h : e.1 = key
      · simp [putEntry, lookUp, h]
      · simpa [putEntry, lookUp, h] using ih

theorem lookUp_putEntry_of_ne (h : key ≠ other) :
    lookUp other (putEntry key a entries) = lookUp other entries := by
  induction entries with
  | nil => simp [putEntry, lookUp, h]
  | cons e es ih =>
      by_cases hk : e.1 = key
      · simp [putEntry, lookUp, hk, h]
      · by_cases ho : e.1 = other
        · simp [putEntry, lookUp, ho, Ne.symm h]
        · simpa [putEntry, lookUp, hk, ho] using ih

theorem map_fst_putEntry : (putEntry key a entries).map Prod.fst =
    if key ∈ entries.map Prod.fst then entries.map Prod.fst else entries.map Prod.fst ++ [key] := by
  induction entries with
  | nil => simp [putEntry]
  | cons e es ih =>
      by_cases hk : e.1 = key
      · simp [putEntry, hk]
      · rw [putEntry, if_neg (by simpa using hk), List.map_cons, ih]
        simp only [List.map_cons, List.mem_cons, Ne.symm hk, false_or]
        split <;> rfl

/-- Why a calculation failed. -/
def failure? (outcome : Except Fault Recorded) : Option Fault :=
  match outcome with
  | .ok _ => none
  | .error f => some f

/-- The ids under which a calculation failed, as often as one did. -/
def failing (os : List (String × Except Fault Recorded)) : List String :=
  (os.filter fun o => (failure? o.2).isSome).map Prod.fst

variable {os : List (String × Except Fault Recorded)} {o : String × Except Fault Recorded}

theorem failuresOf_append (os : List (String × Except Fault Recorded))
    (o : String × Except Fault Recorded) : failuresOf (os ++ [o]) =
      match failure? o.2 with
      | none => failuresOf os
      | some f => putEntry o.1 f.message (failuresOf os) := by
  rw [failuresOf, List.foldl_append]
  rcases o with ⟨id, f | r⟩ <;> rfl

theorem failing_append (os : List (String × Except Fault Recorded))
    (o : String × Except Fault Recorded) : failing (os ++ [o]) =
      match failure? o.2 with
      | none => failing os
      | some _ => failing os ++ [o.1] := by
  rw [failing, List.filter_append, List.map_append]
  cases hf : failure? o.2 <;> simp [hf, failing]

/-- Failures stand under the failing ids, once under each. -/
theorem map_fst_failuresOf (os : List (String × Except Fault Recorded)) :
    ((failuresOf os).map Prod.fst).Nodup ∧
      ∀ id, id ∈ (failuresOf os).map Prod.fst ↔ id ∈ failing os := by
  induction os using List.reverseRecOn with
  | nil => exact ⟨.nil, fun _ => Iff.rfl⟩
  | append_singleton os o ih =>
      obtain ⟨hnodup, hmem⟩ := ih
      rw [failuresOf_append, failing_append]
      cases hf : failure? o.2 with
      | none => exact ⟨hnodup, hmem⟩
      | some f =>
          simp only [map_fst_putEntry]
          split
          · next hknown =>
            refine ⟨hnodup, fun id => ?_⟩
            rw [List.mem_append, List.mem_singleton, ← hmem, iff_self_or]
            rintro rfl
            exact hknown
          · next hnew =>
            refine ⟨hnodup.append (List.nodup_singleton _) ?_, fun id => ?_⟩
            · exact List.disjoint_singleton.2 hnew
            · rw [List.mem_append, List.mem_append, hmem]

/-- There are as many failures as failing calculations if and only if these are of different ids. -/
theorem length_failuresOf (os : List (String × Except Fault Recorded)) :
    (failuresOf os).length = (failing os).length ↔ (failing os).Nodup := by
  obtain ⟨hnodup, hmem⟩ := map_fst_failuresOf os
  have hperm : ((failuresOf os).map Prod.fst).Perm (failing os).dedup :=
    (List.perm_ext_iff_of_nodup hnodup (List.nodup_dedup _)).2 fun id =>
      (hmem id).trans List.mem_dedup.symm
  rw [← List.length_map Prod.fst, hperm.length_eq]
  constructor
  · intro hlength
    rw [← (List.dedup_sublist _).eq_of_length hlength]
    exact List.nodup_dedup _
  · intro h
    rw [h.dedup]

/-- The message of an id is that of its last failure. -/
theorem lookUp_failuresOf (os : List (String × Except Fault Recorded)) (id : String) :
    lookUp id (failuresOf os) =
      ((os.filter fun o => o.1 == id).filterMap fun o => failure? o.2).getLast?.map (·.message) := by
  induction os using List.reverseRecOn with
  | nil => rfl
  | append_singleton os o ih =>
      rw [failuresOf_append, List.filter_append, List.filterMap_append]
      by_cases hid : o.1 = id
      · cases hf : failure? o.2 with
        | none => simpa [hid, hf] using ih
        | some f => simp [hid, hf, lookUp_putEntry_self]
      · cases hf : failure? o.2 with
        | none => simpa [hid, hf] using ih
        | some f => simpa [hid, hf, lookUp_putEntry_of_ne hid] using ih

end Engine

/-! ### The amounts that entries state -/

/-- The amounts that are recorded of a calculation, each with its kind. -/
def Calculation.amounts (c : Calculation) : List (AuditKind × Decimal) :=
  (c.perceptions ++ c.deductions).map (fun a => (.formula, a.outcome.value)) ++
    (.isr, c.isr.isr.isr) :: c.isr.subsidy.toList.map (fun r => (.subsidy, r.subsidy)) ++
    ((Recording.imssParts c.imss).toOption.toList.flatten.map fun p => (p.kind, p.amount))

namespace Recording

variable {calculation : String} {n m : Nat} {clock : Nat → Instant} {ps : List Pending}
  {a : Author} {s : Calculation.Setting} {versions : List FormulaVersion} {c : Calculation}

theorem fault?_dated : fault? (dated clock n ps) = fault? ps := by
  induction ps generalizing n with
  | nil => rfl
  | cons p ps ih =>
      cases p with
      | error f => rfl
      | ok make => exact ih

theorem map_amount_made_dated : (made calculation n (dated clock m ps)).map AuditEntry.amount =
    (made calculation n ps).map AuditEntry.amount := by
  induction ps generalizing n m with
  | nil => rfl
  | cons p ps ih =>
      cases p with
      | error f => rfl
      | ok make => exact congrArg (_ :: ·) ih

/-- The entries of a calculation state its amounts. -/
theorem map_amount_made_pending (hc : c.Complete s versions)
    (h : fault? (pending a s versions c) = none) :
    (made calculation n (pending a s versions c)).map AuditEntry.amount = c.amounts := by
  obtain ⟨table, htable⟩ := hc.tax
  rw [pending, fault?_append_eq_none, fault?_append_eq_none, fault?_append_eq_none] at h
  obtain ⟨⟨⟨hformulas, htax⟩, hsubsidy⟩, himss⟩ := h
  obtain ⟨parts, hparts⟩ := exists_imssParts himss
  have hformula (k : Nat) : (made calculation k
      ((c.perceptions ++ c.deductions).map (formulaEntry a s versions c))).map AuditEntry.amount =
        (c.perceptions ++ c.deductions).map fun a => (.formula, a.outcome.value) :=
    map_made fun amount _ => ⟨_, rfl, fun _ => rfl⟩
  rw [pending, List.append_assoc, List.append_assoc, made_append hformulas, made_append htax,
    made_append hsubsidy]
  simp only [List.map_append (f := AuditEntry.amount), hformula,
    map_amount_made_taxEntries htable, map_amount_made_subsidyEntries hc.subsidy,
    map_amount_made_imssEntries hparts himss, Calculation.amounts, hparts]
  simp [Except.toOption]

end Recording

/-! ### The calls of a run -/

namespace FinishedCall

def employee (x : FinishedCall) : String := x.call.request.employee.id

/-- The entries of a call that succeeded state the amounts of its calculation. -/
def States (x : FinishedCall) : Prop :=
  ∀ r, x.outcome = .ok r → x.entries.map AuditEntry.amount = r.calculation.amounts

end FinishedCall

namespace Engine

open FinishedCall (Logged States)

variable {c : Configuration} {now : Nat → Instant} {clock : Nat → Nat → Instant} {id : String}
  {k : Nat} {rs : List Request} {e : Engine} {x : Call} {done : List FinishedCall}

theorem run_makeCalls_cons (xs : List Call) : (makeCalls c (x :: xs)).run e =
    (⟨x, (x.run c e).1, e.trail.since (x.run c e).2.trail⟩ ::
      ((makeCalls c xs).run (x.run c e).2).1, ((makeCalls c xs).run (x.run c e).2).2) := rfl

theorem states_call (he : e.Sound) (hemployee : x.request.employee.Loaded)
    (hperiod : x.request.period.Loaded) :
    States ⟨x, (x.run c e).1, e.trail.since (x.run c e).2.trail⟩ := by
  intro r hr
  have hrun : x.run c e = perform (calculateBy c x.now x.clock x.id x.request) e := rfl
  simp only at hr ⊢
  rw [hrun] at hr ⊢
  obtain ⟨-, htrail, -⟩ := reads_prepare c x.id x.request e
  rcases hp : perform (prepare c x.id x.request) e with ⟨f | p, e₁⟩
  · rw [perform_calculateBy_error hp] at hr
    cases hr
  · rw [hp] at htrail
    simp only at htrail
    rw [perform_calculateBy_ok hp] at hr ⊢
    obtain ⟨entries, hentries, hr⟩ := bind_eq_ok.1 hr
    obtain ⟨_, -, hr⟩ := bind_eq_ok.1 hr
    cases hr
    obtain ⟨hdocs, -, hfault⟩ := Recording.storeFrom_eq_ok hentries
    obtain ⟨_, _, -, -, -, -, -, -, hcompute⟩ := prepare_eq_ok hp
    have hload : ∀ entry ∈ made p.calculation.id 1 (datedEntries x.now x.clock p e₁),
        AuditEntry.load entry.toJson = .ok entry := by
      intro entry hentry
      obtain ⟨make, hmake, id, rfl⟩ := Recording.mem_made hentry
      exact (replays_dated he hemployee hperiod hp hmake id).1
    have hsince : e.trail.since (storedBy x.now x.clock p e₁).1 =
        made p.calculation.id 1 (datedEntries x.now x.clock p e₁) := by
      rw [← htrail]
      exact AuditTrail.since_eq hdocs hload
    simp only [hsince]
    rw [datedEntries, Recording.fault?_dated] at hfault
    rw [datedEntries, Recording.map_amount_made_dated]
    exact Recording.map_amount_made_pending (Calculation.complete_of_compute hcompute) hfault

/-- The readings of a clock come after those of all earlier ones, and have a common order. -/
structure Orderly (clock : Nat → Nat → Instant) (count : Nat) : Prop where
  comparable : ∀ k m n, (clock k m).offset.isNone = (clock k n).offset.isNone
  later : ∀ j k, 1 ≤ j → j < k → k ≤ count → ∀ m n, (clock j m).Before (clock k n)

/-- Calls under ids of their own and by clocks one behind the other are logged. -/
theorem logged_makeCalls (c : Configuration) (now : Nat → Instant) (id : String) {count : Nat}
    (he : e.Sound) (hlog : Logged e.trail done)
    (hdone : ∀ y ∈ done, ∃ j < k, 1 ≤ j ∧ y.call.id = s!"{id}.{j}" ∧ y.call.clock = clock j)
    (hk : 1 ≤ k)
    (hloaded : ∀ r ∈ rs, r.employee.Loaded ∧ r.period.Loaded)
    (hclock : Orderly clock count) (hcount : k + rs.length ≤ count + 1) :
    Logged ((makeCalls c (callsFrom now clock id k rs)).run e).2.trail
        (done ++ ((makeCalls c (callsFrom now clock id k rs)).run e).1) ∧
      ((makeCalls c (callsFrom now clock id k rs)).run e).1.map (·.call) =
        callsFrom now clock id k rs ∧
      ∀ y ∈ ((makeCalls c (callsFrom now clock id k rs)).run e).1, y.States := by
  induction rs generalizing e k done with
  | nil => exact ⟨(List.append_nil done).symm ▸ hlog, rfl, fun _ => (nomatch ·)⟩
  | cons r rs ih =>
      obtain ⟨⟨hemployee, hperiod⟩, hrest⟩ := List.forall_mem_cons.1 hloaded
      rw [List.length_cons] at hcount
      let x : Call := ⟨s!"{id}.{k}", now k, clock k, r⟩
      have hunused : Recording.Unused e.trail x.id 1 := by
        intro d hd n hn hsame
        rw [hlog.documents] at hd
        obtain ⟨entry, hentry, rfl⟩ := List.mem_map.1 hd
        obtain ⟨y, hy, hentry⟩ := List.mem_flatMap.1 hentry
        obtain ⟨m, hm, hid⟩ := (hlog.made y hy entry hentry).id
        obtain ⟨j, hj, -, hcall, -⟩ := hdone y hy
        have heq : Recording.entryId s!"{id}.{j}" m = Recording.entryId s!"{id}.{k}" n :=
          hcall ▸ hid.symm.trans hsame
        exact absurd (Recording.entryId_numbered heq) (by omega)
      have hx : x.Admissible e done := by
        refine ⟨hunused, hemployee, hperiod, hclock.comparable k, fun y hy m n => ?_⟩
        obtain ⟨j, hj, hfirst, -, hy⟩ := hdone y hy
        rw [hy]
        exact hclock.later j k hfirst hj (by omega) m n
      have hfirst : Logged (x.run c e).2.trail
          (done ++ [⟨x, (x.run c e).1, e.trail.since (x.run c e).2.trail⟩]) :=
        Installation.logged_call (i := ⟨c, "", e, [], []⟩) he hlog hx
      have hsound : (x.run c e).2.Sound :=
        sound_calculateBy c x.now x.clock he hemployee hperiod hunused
      have hdone' : ∀ y ∈ done ++ [⟨x, (x.run c e).1, e.trail.since (x.run c e).2.trail⟩],
          ∃ j < k + 1, 1 ≤ j ∧ y.call.id = s!"{id}.{j}" ∧ y.call.clock = clock j := by
        refine List.forall_mem_append.2 ⟨fun y hy => ?_, List.forall_mem_singleton.2 ?_⟩
        · obtain ⟨j, hj, hy⟩ := hdone y hy
          exact ⟨j, by omega, hy⟩
        · exact ⟨k, by omega, hk, rfl, rfl⟩
      obtain ⟨hlogged, hcalls, hstates⟩ := ih hsound hfirst hdone' (by omega) hrest (by omega)
      rw [callsFrom, run_makeCalls_cons]
      refine ⟨?_, ?_, ?_⟩
      · rw [List.append_assoc] at hlogged
        exact hlogged
      · exact congrArg (x :: ·) hcalls
      · exact List.forall_mem_cons.2 ⟨states_call he hemployee hperiod, hstates⟩

/-- The outcome of a call under the id of its employee. -/
def outcomeOf (x : FinishedCall) : String × Except Fault Recorded := (x.employee, x.outcome)

/-- With clocks that stand still, the attempts of a run are its calls. -/
theorem run_attemptFrom (t : Instant) (rs : List Request) (k : Nat) (e : Engine) :
    (attemptFrom c t id k rs).run e =
      (((makeCalls c (callsFrom (fun _ => t) (fun _ _ => t) id k rs)).run e).1.map outcomeOf,
        ((makeCalls c (callsFrom (fun _ => t) (fun _ _ => t) id k rs)).run e).2) := by
  induction rs generalizing k e with
  | nil => rfl
  | cons r rs ih =>
      have hcall : (⟨s!"{id}.{k}", t, fun _ => t, r⟩ : Call).run c e =
          (attempt c t s!"{id}.{k}" r).run e := by
        rw [Call.run, calculateBy_const]
        rfl
      have hstep : (attemptFrom c t id k (r :: rs)).run e =
          ((r.employee.id, ((attempt c t s!"{id}.{k}" r).run e).1) ::
              ((attemptFrom c t id (k + 1) rs).run ((attempt c t s!"{id}.{k}" r).run e).2).1,
            ((attemptFrom c t id (k + 1) rs).run ((attempt c t s!"{id}.{k}" r).run e).2).2) := rfl
      rw [hstep, ih, callsFrom, run_makeCalls_cons, hcall]
      rfl

variable {company : String} {period : Period} {employees : List (Employee × Json)}

theorem map_request_callsFrom : (callsFrom now clock id k rs).map (·.request) = rs := by
  induction rs generalizing k with
  | nil => rfl
  | cons r rs ih => exact congrArg (r :: ·) ih

/-- A run at one time is that by clocks that stand still. -/
theorem runPeriodBy_const (t : Instant) (e : Engine) :
    perform (runPeriodBy c (fun _ => t) (fun _ _ => t) id company period employees) e =
      perform (runPeriod c t id company period employees) e := by
  rw [runPeriodBy, runPeriod, perform_bind, perform_bind]
  rcases perform (policy c company) e with ⟨f | p, e₁⟩
  · rfl
  · simp only
    rw [perform_bind, perform_bind]
    rcases perform (tablesFor c period.year) e₁ with ⟨f | tables, e₂⟩
    · rfl
    · simp only
      rw [perform_attempts, perform_attempts, run_attemptFrom]
      rfl

/-- What a new engine is when it has loaded what a run shares. -/
def warmed (store : FormulaStore) (author : Option String) (company : String)
    (policy : RoundingPolicy) (year : Int) (tables : FiscalTables) : Engine where
  store
  policies := [(company, policy)]
  tables := [(year, tables)]
  author

theorem perform_runPeriodBy {store : FormulaStore} {author : Option String}
    {policy : RoundingPolicy} {tables : FiscalTables} {calls : List FinishedCall} {e' : Engine}
    {s : AuditTrail.PeriodSummary} (hpolicy : c.roundingPolicy company = .ok policy)
    (htables : c.loadTables period.year = .ok tables)
    (hcalls : (makeCalls c (callsFrom now clock id 1 (employees.map fun p =>
      ({ company, employee := p.1, period, overrides := p.2 } : Request)))).run
        (warmed store author company policy period.year tables) = (calls, e'))
    (hs : e'.trail.summarize (.text period.id) = .ok s) :
    perform (runPeriodBy c now clock id company period employees) { store, author } =
      (.ok ⟨period.id, (calls.map outcomeOf).filterMap fun o => o.2.toOption,
        failuresOf (calls.map outcomeOf), s⟩, e') := by
  have hfirst : perform (Engine.policy c company) { store, author } =
      (.ok policy, { store, policies := [(company, policy)], author }) := by
    rw [Engine.policy, perform_bind, perform_get]
    simp only [lookUp, List.find?_nil, Option.map_none]
    rw [perform_bind, perform_lift, hpolicy]
    rfl
  have hsecond : perform (tablesFor c period.year)
      { store, policies := [(company, policy)], author } =
        (.ok tables, warmed store author company policy period.year tables) := by
    rw [tablesFor, perform_bind, perform_get]
    simp only [lookUp, List.find?_nil, Option.map_none]
    rw [perform_bind, perform_lift, htables]
    rfl
  rw [runPeriodBy, perform_bind, hfirst]
  simp only
  rw [perform_bind, hsecond]
  simp only
  rw [perform_attempts, hcalls]
  simp only
  rw [perform_bind, perform_get]
  simp only
  rw [perform_bind, perform_lift, hs]
  rfl

end Engine

end Payroll
