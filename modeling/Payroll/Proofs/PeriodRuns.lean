import Mathlib
import Payroll.Proofs.PeriodSummaries
import Payroll.Proofs.RunCalls
import Payroll.Proofs.RunLines

/-!
What a run of a period reports of the lines of a file. Each line has its calculation or its failure as
far as the lines have employees of their own.
-/

namespace Payroll

open Result
open Recording (document)

namespace FinishedCall

open AuditTrail (ofKind)

variable {calls : List FinishedCall} {P : String}

theorem filter_detail (hmade : ∀ x ∈ calls, ∀ e ∈ x.entries, x.call.Made e) {detail : String}
    (h : detail ∉ calls.map (·.detail)) :
    (calls.flatMap (·.entries)).filter (fun e => e.detail != detail) =
      calls.flatMap (·.entries) := by
  refine List.filter_eq_self.2 fun e he => bne_iff_ne.2 ?_
  rintro rfl
  obtain ⟨x, hx, he⟩ := List.mem_flatMap.1 he
  exact h (List.mem_map.2 ⟨x, hx, (hmade x hx e he).detail.symm⟩)

/-- If all calls are for details of their own, all entries count. -/
theorem latest_of_nodup (hmade : ∀ x ∈ calls, ∀ e ∈ x.entries, x.call.Made e)
    (hP : ∀ x ∈ calls, x.period = P) (h : (calls.map (·.detail)).Nodup) :
    latest leavesEntries P calls = calls.flatMap (·.entries) := by
  induction calls using List.reverseRecOn with
  | nil => rfl
  | append_singleton calls x ih =>
      obtain ⟨hcalls, -⟩ := List.forall_mem_append.1 hmade
      obtain ⟨hperiods, hx⟩ := List.forall_mem_append.1 hP
      rw [List.map_append, List.map_singleton] at h
      obtain ⟨hnodup, -, hdisjoint⟩ := List.nodup_append.1 h
      have hnew : x.detail ∉ calls.map (·.detail) := fun hmem =>
        hdisjoint _ hmem _ (List.mem_singleton_self _) rfl
      rw [latest_append, ih hcalls hperiods hnodup, List.flatMap_append, List.flatMap_singleton,
        filter_detail hcalls hnew, hx x (List.mem_singleton_self x), beq_self_eq_true, Bool.and_true]
      split
      · rfl
      · next hnone =>
        have hempty : x.entries = [] := by
          by_contra hne
          exact hnone (leavesEntries_iff.2 hne)
        rw [hempty, List.append_nil]

/-- If only calls that succeeded left entries, these state the amounts of their calculations. -/
theorem map_amount_entries (hstates : ∀ x ∈ calls, x.States)
    (h : ∀ x ∈ calls, x.leavesEntries → x.succeeded) :
    (calls.flatMap (·.entries)).map AuditEntry.amount =
      (calls.filterMap fun x => x.outcome.toOption).flatMap (·.calculation.amounts) := by
  induction calls with
  | nil => rfl
  | cons x calls ih =>
      obtain ⟨hx, hstates⟩ := List.forall_mem_cons.1 hstates
      obtain ⟨hleaves, hrest⟩ := List.forall_mem_cons.1 h
      rw [List.flatMap_cons, List.map_append, ih hstates hrest]
      cases houtcome : x.outcome with
      | ok r =>
          rw [hx r houtcome, List.filterMap_cons_some (b := r) (by rw [houtcome]; rfl),
            List.flatMap_cons]
      | error f =>
          have hempty : x.entries = [] := by
            by_contra hne
            have hsucceeded := hleaves (leavesEntries_iff.2 hne)
            rw [succeeded, houtcome] at hsucceeded
            cases hsucceeded
          rw [hempty, List.filterMap_cons_none (by rw [houtcome]; rfl)]
          rfl

/-- The sum of the amounts of a kind. -/
theorem sum_ofKind (kind : AuditKind) (es : List AuditEntry) :
    ((ofKind kind es).map fun e => e.result.value).sum =
      (((es.map AuditEntry.amount).filter fun a => a.1 == kind).map fun a => a.2.value).sum := by
  rw [List.filter_map, List.map_map]
  rfl

end FinishedCall

namespace Engine.Run

open AuditTrail (Summable)
open FinishedCall (latest leavesEntries)
open Command.Runs (requests)

/-- What a run says of its calls, one for each line of a file. Overrides, failures and payroll details
go by the ids of employees: of several lines with one id, each is calculated with the overrides of the
last that has any, and the last failure and the last entries are reported. -/
structure Accounts (company : String) (f : RunFile) (calls : List FinishedCall) (run : Run) :
    Prop where
  lines : calls.map (·.call.request) = requests company f
  calculations : run.calculations = calls.filterMap fun x => x.outcome.toOption
  failures : ∀ id, lookUp id run.failures =
    ((calls.filter fun x => x.employee == id).filterMap fun x =>
      failure? x.outcome).getLast?.map (·.message)
  counted : run.calculations.length + run.failures.length = f.lines.length ↔
    ((calls.filter fun x => !x.succeeded).map (·.employee)).Nodup
  summary : run.summary.Counts (latest leavesEntries f.period.id calls)

/-- What holds besides for lines with employees of their own. -/
structure Balanced (company : String) (f : RunFile) (calls : List FinishedCall) (run : Run) :
    Prop where
  own : calls.map (·.call.request) = Command.Runs.ownRequests company f
  counted : run.calculations.length + run.failures.length = f.lines.length
  totals : (∀ x ∈ calls, x.leavesEntries → x.succeeded) → ∀ kind,
    (run.summary.total kind).value =
      (((run.calculations.flatMap (·.calculation.amounts)).filter fun a => a.1 == kind).map
        fun a => a.2.value).sum

variable {company : String} {f : RunFile} {calls : List FinishedCall} {run : Run}

theorem Accounts.map_employee (h : run.Accounts company f calls) :
    calls.map (·.employee) = f.lines.map (·.employee.id) := by
  have hids := congrArg (List.map fun r : Request => r.employee.id) h.lines
  rw [List.map_map, requests, List.map_map] at hids
  exact hids

theorem period_of_requests (h : calls.map (·.call.request) = requests company f) :
    ∀ x ∈ calls, x.period = f.period.id := by
  intro x hx
  have hmem : x.call.request ∈ calls.map (·.call.request) := List.mem_map_of_mem hx
  rw [h] at hmem
  obtain ⟨l, -, hl⟩ := List.mem_map.1 hmem
  exact congrArg (·.period.id) hl.symm

/-- Entries of one period are admitted when that is asked for, also if its id is empty. -/
theorem admits_entries {P : String} (hmade : ∀ x ∈ calls, ∀ e ∈ x.entries, x.call.Made e)
    (hP : ∀ x ∈ calls, x.period = P) : ∀ e ∈ calls.flatMap (·.entries),
      ({ period := .text P } : AuditTrail.Filter).admits e = (e.period == some P) := by
  intro e he
  obtain ⟨x, hx, he⟩ := List.mem_flatMap.1 he
  have hperiod : e.period = some P := (hmade x hx e he).period.trans (congrArg some (hP x hx))
  by_cases h : P = ""
  · rw [hperiod, h]
    simp [AuditTrail.Filter.admits, Json.truthy, hperiod]
  · exact AuditTrail.admits_period h e

/-- Details of one period differ as the ids of the employees do. -/
theorem Accounts.nodup_details (h : run.Accounts company f calls)
    (hids : (f.lines.map (·.employee.id)).Nodup) : (calls.map (·.detail)).Nodup := by
  have hdetails : calls.map (·.detail) =
      (f.lines.map (·.employee.id)).map fun id => s!"{f.period.id}-{id}" := by
    have hrequests := congrArg (List.map Request.detailId) h.lines
    rw [List.map_map, requests, List.map_map] at hrequests
    rw [List.map_map]
    exact hrequests
  rw [hdetails]
  refine hids.map fun a b hab => ?_
  have hchars := congrArg String.toList hab
  simpa [toString, String.toList_inj] using hchars

theorem Accounts.balanced (h : run.Accounts company f calls)
    (hids : (f.lines.map (·.employee.id)).Nodup)
    (hmade : ∀ x ∈ calls, ∀ e ∈ x.entries, x.call.Made e) (hstates : ∀ x ∈ calls, x.States) :
    run.Balanced company f calls := by
  refine ⟨?_, ?_, fun hleaves kind => ?_⟩
  · exact h.lines.trans (Command.Runs.requests_of_nodup company hids)
  · refine h.counted.2 ((List.filter_sublist.map _).nodup ?_)
    rw [h.map_employee]
    exact hids
  · rw [h.summary.total,
      FinishedCall.latest_of_nodup hmade (period_of_requests h.lines) (h.nodup_details hids),
      FinishedCall.sum_ofKind, FinishedCall.map_amount_entries hstates hleaves, h.calculations]

theorem failing_outcomes (calls : List FinishedCall) : failing (calls.map outcomeOf) =
    (calls.filter fun x => !x.succeeded).map (·.employee) := by
  have hfails (x : FinishedCall) : (failure? x.outcome).isSome = !x.succeeded := by
    rw [FinishedCall.succeeded]
    cases x.outcome <;> rfl
  rw [failing, List.filter_map, List.map_map]
  congr 1
  exact List.filter_congr fun x _ => hfails x

theorem length_calculations (calls : List FinishedCall) :
    (calls.filterMap fun x => x.outcome.toOption).length +
      (calls.filter fun x => !x.succeeded).length = calls.length := by
  induction calls with
  | nil => rfl
  | cons x calls ih =>
      cases houtcome : x.outcome with
      | ok r =>
          have hx : x.succeeded = true := by
            rw [FinishedCall.succeeded, houtcome]
            rfl
          rw [List.filterMap_cons_some (b := r) (by rw [houtcome]; rfl),
            List.filter_cons_of_neg (by simp [hx])]
          simp only [List.length_cons]
          omega
      | error f =>
          have hx : x.succeeded = false := by
            rw [FinishedCall.succeeded, houtcome]
            rfl
          rw [List.filterMap_cons_none (by rw [houtcome]; rfl),
            List.filter_cons_of_pos (by simp [hx])]
          simp only [List.length_cons]
          omega

/-- Calculations and failures are as many as the calls if those that fail are of different employees,
and fewer if they are not. -/
theorem length_outcomes (calls : List FinishedCall) :
    (calls.filterMap fun x => x.outcome.toOption).length +
        (failuresOf (calls.map outcomeOf)).length = calls.length ↔
      ((calls.filter fun x => !x.succeeded).map (·.employee)).Nodup := by
  have hall := length_calculations calls
  rw [← failing_outcomes, ← length_failuresOf, failing_outcomes, List.length_map]
  omega

/-- A run on an empty trail, each line at a time of its own, accounts for every line of its file. If
every line has an employee of its own, each is calculated with its own overrides, there are as many
calculations and failures as lines, and the totals are those of the calculations unless calls that
failed left entries. -/
theorem accounts_of_runPeriodBy {c : Configuration} {now : Nat → Instant}
    {clock : Nat → Nat → Instant} {id : String} {data : Json} {store : FormulaStore}
    {author : Option String} {policy : RoundingPolicy} {tables : FiscalTables}
    (hr : FormulaStore.Reachable store) (hf : RunFile.load data = .ok f)
    (hpolicy : c.roundingPolicy company = .ok policy)
    (htables : c.loadTables f.period.year = .ok tables) (hclock : Orderly clock f.lines.length)
    (hcalls : ((makeCalls c (callsFrom now clock id 1 (requests company f))).run
      (warmed store author company policy f.period.year tables)).1 = calls)
    (hsums : Summable (latest leavesEntries f.period.id calls)) :
    ∃ run e', perform (runPeriodBy c now clock id company f.period (Command.Runs.employees f))
        { store, author } = (.ok run, e') ∧ run.Accounts company f calls ∧
      ((f.lines.map (·.employee.id)).Nodup → run.Balanced company f calls) := by
  obtain ⟨hperiod, hemployees⟩ := RunFile.loaded hf
  have hsound : (warmed store author company policy f.period.year tables).Sound := by
    refine ⟨hr, fun p hp => ?_, .empty⟩
    obtain rfl := List.mem_singleton.1 hp
    exact Configuration.readsBack_of_loadTables htables
  have hloaded : ∀ r ∈ requests company f, r.employee.Loaded ∧ r.period.Loaded := by
    intro r hr
    obtain ⟨l, hl, rfl⟩ := List.mem_map.1 hr
    exact ⟨hemployees l hl, hperiod⟩
  have hcount : 1 + (requests company f).length ≤ f.lines.length + 1 := by
    rw [requests, List.length_map, Nat.add_comm]
  obtain ⟨hlogged, hsame, hstates⟩ := logged_makeCalls c now id hsound
    FinishedCall.Logged.nil (fun _ => (nomatch ·)) le_rfl hloaded hclock hcount
  rcases hmade : (makeCalls c (callsFrom now clock id 1 (requests company f))).run
    (warmed store author company policy f.period.year tables) with ⟨calls', e'⟩
  rw [hmade] at hcalls hlogged hsame hstates
  subst hcalls
  have hlines : calls'.map (·.call.request) = requests company f := by
    have h := congrArg (List.map Call.request) hsame
    rwa [List.map_map, map_request_callsFrom] at h
  obtain ⟨s, hs, -, hcounts, -⟩ := hlogged.summarize_of_admits
    (admits_entries hlogged.made (period_of_requests hlines)) hsums
  have hrequests : (Command.Runs.employees f).map (fun p =>
      ({ company, employee := p.1, period := f.period, overrides := p.2 } : Request)) =
        requests company f := List.map_map
  refine ⟨_, e', perform_runPeriodBy hpolicy htables (hrequests ▸ hmade) hs, ?_⟩
  have haccounts : Accounts company f calls' ⟨f.period.id,
      (calls'.map outcomeOf).filterMap fun o => o.2.toOption,
      failuresOf (calls'.map outcomeOf), s⟩ := by
    refine ⟨hlines, List.filterMap_map, fun id => ?_, ?_, hcounts⟩
    · rw [lookUp_failuresOf, List.filter_map, List.filterMap_map]
      rfl
    · have hlength : calls'.length = f.lines.length := by
        simpa [requests] using congrArg List.length hlines
      rw [List.filterMap_map, ← hlength]
      exact length_outcomes calls'
  exact ⟨haccounts, fun hids => haccounts.balanced hids hlogged.made hstates⟩

/-- A line for ten days, and one of some employee with a variable that does not exist. -/
def wagesData (second : String) : Json :=
  let line (id : String) (overrides : Fields) : Json := .object [("id", .text id),
    ("base_salary", .text "15000"), ("hire_date", .text "2020-06-01"),
    ("variables", .object overrides)]
  .object [
    ("period", .object [("id", .text "2025-01-B1"), ("period_type", .text "BIWEEKLY"),
      ("year", .int 2025), ("start_date", .text "2025-01-01"), ("end_date", .text "2025-01-15")]),
    ("employees", .list [line "E001" [("workedDays", .int 10)], line second [("bogus", .int 1)]])]

def wages (second : String) : RunFile :=
  (RunFile.load (wagesData second)).toOption.getD ⟨longPeriod.period, []⟩

def wagesClock (k : Nat) (_ : Nat) : Instant :=
  if k ≤ 1 then FormulaStore.noon else Installation.later

/-- The calls of the run, if there are tables for its year. -/
def wagesCalls (second : String) : List FinishedCall :=
  match ({ directory := "config" } : Configuration).loadTables 2025 with
  | .ok tables =>
    ((makeCalls { directory := "config" } (callsFrom (fun _ => FormulaStore.noon) wagesClock "c1" 1
      (requests "ACME" (wages second)))).run (warmed {} none "ACME" .standard 2025 tables)).1
  | .error _ => []

theorem load_wages {second : String}
    (h : (RunFile.load (wagesData second)).toOption.isSome = true) :
    RunFile.load (wagesData second) = .ok (wages second) := by
  obtain ⟨f, hf⟩ := Option.isSome_iff_exists.1 h
  rw [wages, hf]
  exact ok_of_toOption hf

theorem orderly_wagesClock : Orderly wagesClock 2 := by
  refine ⟨fun _ _ _ => rfl, fun j k hj hlt hk m n => ?_⟩
  obtain rfl : j = 1 := by omega
  obtain rfl : k = 2 := by omega
  have hlater : FormulaStore.noon.micros < Installation.later.micros := by decide +kernel
  exact ⟨rfl, hlater⟩

theorem standard_rounding :
    ({ directory := "config" } : Configuration).roundingPolicy "ACME" = .ok .standard :=
  ok_of_toOption (by decide +kernel)

/-- The amounts of the first line are in ten-thousandths, and the second leaves none. -/
theorem entries_wages :
    ((∀ e ∈ latest leavesEntries "2025-01-B1" (wagesCalls "E002"),
        -4 ≤ e.base.exponent ∧ -4 ≤ e.result.exponent) ∧
      ((latest leavesEntries "2025-01-B1" (wagesCalls "E002")).map fun e => e.base.units (-4)).sum <
        pow10 28 ∧
      ((latest leavesEntries "2025-01-B1" (wagesCalls "E002")).map fun e => e.result.units (-4)).sum <
        pow10 28) ∧
    ((wagesCalls "E002").filterMap fun x => x.outcome.toOption).length = 1 := by
  decide +kernel

/-- Two employees, of whom one is calculated and one fails. -/
theorem wages_balanced : ∃ tables run e',
    RunFile.load (wagesData "E002") = .ok (wages "E002") ∧
    ({ directory := "config" } : Configuration).loadTables (wages "E002").period.year = .ok tables ∧
    Orderly wagesClock (wages "E002").lines.length ∧
    Summable (latest leavesEntries (wages "E002").period.id (wagesCalls "E002")) ∧
    perform (runPeriodBy { directory := "config" } (fun _ => FormulaStore.noon) wagesClock "c1" "ACME"
      (wages "E002").period (Command.Runs.employees (wages "E002"))) {} = (.ok run, e') ∧
    run.calculations.length = 1 ∧ run.failures.length = 1 ∧
    run.Accounts "ACME" (wages "E002") (wagesCalls "E002") ∧
    run.Balanced "ACME" (wages "E002") (wagesCalls "E002") := by
  have hf : RunFile.load (wagesData "E002") = .ok (wages "E002") := load_wages (by decide +kernel)
  have hperiod : (wages "E002").period.id = "2025-01-B1" ∧ (wages "E002").period.year = 2025 ∧
      (wages "E002").lines.map (·.employee.id) = ["E001", "E002"] := by
    decide +kernel
  obtain ⟨hid, hyear, hids⟩ := hperiod
  have hcount : (wages "E002").lines.length = 2 := by simpa using congrArg List.length hids
  have hclock : Orderly wagesClock (wages "E002").lines.length := hcount ▸ orderly_wagesClock
  obtain ⟨⟨hexp, hbase, hresult⟩, hone⟩ := entries_wages
  have hsums : Summable (latest leavesEntries (wages "E002").period.id (wagesCalls "E002")) := by
    rw [hid]
    exact AuditTrail.summable_of_lt hexp hbase hresult (by decide) (by decide)
  have hloaded : (({ directory := "config" } : Configuration).loadTables 2025).toOption.isSome =
      true := by
    decide +kernel
  obtain ⟨tables, htables⟩ := Option.isSome_iff_exists.1 hloaded
  have htables := ok_of_toOption htables
  have hcalls : ((makeCalls { directory := "config" } (callsFrom (fun _ => FormulaStore.noon)
      wagesClock "c1" 1 (requests "ACME" (wages "E002")))).run
        (warmed {} none "ACME" .standard (wages "E002").period.year tables)).1 =
          wagesCalls "E002" := by
    rw [wagesCalls, htables, hyear]
  obtain ⟨run, e', hrun, haccounts, hbalanced⟩ := accounts_of_runPeriodBy .empty hf
    standard_rounding (hyear.symm ▸ htables) hclock hcalls hsums
  have hbalanced := hbalanced (by rw [hids]; decide)
  have hcalculated : run.calculations.length = 1 := haccounts.calculations ▸ hone
  have hboth := hbalanced.counted
  exact ⟨tables, run, e', hf, hyear.symm ▸ htables, hclock, hsums, hrun, hcalculated, by omega,
    haccounts, hbalanced⟩

/-- If both lines are of one employee, they fail together and count once. -/
example : (perform (runPeriodBy { directory := "config" } (fun _ => FormulaStore.noon) wagesClock "c1"
    "ACME" (wages "E001").period (Command.Runs.employees (wages "E001"))) {}).1.toOption.map
      (fun run => (run.calculations.length, run.failures.length, (wages "E001").lines.length)) =
        some (0, 1, 2) := by
  decide +kernel

end Engine.Run

end Payroll
