import Mathlib
import Payroll.Command.Runs
import Payroll.Proofs.RecordFields

/-!
The lines of a run file. The employees of lines that were read are records on their own, and the
overrides of a line go to all lines with its employee.
-/

namespace Payroll

open Record

theorem RiskClass.ofName?_name (c : RiskClass) : ofName? c.name = some c := by
  cases c <;> rfl

namespace Employee

variable {e : Employee} {fs : Fields}

theorem run_toFields (h : fieldReader.run fs = .ok e) : fieldReader.run e.toFields = .ok e := by
  have htext : Lossless text .text := lossless_text
  have hsalary : Lossless (atLeast 0 decimal) .ofDecimal := lossless_bounded lossless_decimal
  have hnumber (d : Decimal) : Json.ofDecimal d ≠ .null := Json.noConfusion
  rw [FieldReader.run_eq_ok] at h ⊢
  unfold fieldReader at h ⊢
  iterate 7 rw [FieldReader.exists_run_seq] at h ⊢
  rw [FieldReader.exists_run_map] at h ⊢
  obtain ⟨id, hid, number, hnumber', rfc, hrfc, base, hbase, daily, hdaily, sbc, hsbc, hired, hhired,
    risk, hrisk, rfl⟩ := h
  exact ⟨id, required_rewritten htext hid rfl,
    number, optional_rewritten htext (fun _ => Json.noConfusion) hnumber' rfl,
    rfc, optional_rewritten htext (fun _ => Json.noConfusion) hrfc rfl,
    base, required_rewritten hsalary hbase rfl,
    daily, optional_rewritten hsalary hnumber hdaily rfl,
    sbc, optional_rewritten hsalary hnumber hsbc rfl,
    hired, required_rewritten lossless_date hhired rfl,
    risk, optional_rewritten (lossless_oneOf RiskClass.ofName?_name) (fun _ => Json.noConfusion)
      hrisk rfl, rfl⟩

theorem loaded_of_run (h : fieldReader.run fs = .ok e) : e.Loaded := by
  refine ⟨e.toJson, load_eq_ok.2 (record_eq_ok.2 ⟨e.toFields, rfl, ?_, run_toFields h, rfl⟩)⟩
  intro f hf
  exact List.mem_map_of_mem (f := Prod.fst) hf

end Employee

/-- The period and the employees of a file that was read. -/
theorem RunFile.loaded {j : Json} {f : RunFile} (h : load j = .ok f) :
    f.period.Loaded ∧ ∀ l ∈ f.lines, l.employee.Loaded := by
  obtain ⟨fs, -, -, hrun, -⟩ := record_eq_ok.1 (load_eq_ok.1 h)
  rw [FieldReader.run_eq_ok, FieldReader.exists_run_seq, FieldReader.exists_run_map] at hrun
  obtain ⟨period, hperiod, lines, hlines, rfl⟩ := hrun
  obtain ⟨p, -, hp⟩ := required_eq_ok.1 hperiod
  refine ⟨⟨p, load_eq_ok.2 hp⟩, fun l hl => ?_⟩
  obtain ⟨ls, -, hls⟩ := required_eq_ok.1 hlines
  have hread : ∃ i, RunLine.read i = .ok l := by
    unfold nonemptyListOf at hls
    split at hls
    · cases hls
    · exact exists_of_mem_listOf hls l hl
  obtain ⟨i, hi⟩ := hread
  obtain ⟨gs, -, -, hline, -⟩ := record_eq_ok.1 hi
  rw [FieldReader.run_eq_ok, FieldReader.exists_run_seq, FieldReader.exists_run_map] at hline
  obtain ⟨employee, hemployee, overrides, -, rfl⟩ := hline
  exact Employee.loaded_of_run hemployee

/-- The overrides that a line gives, if it gives any. -/
def RunLine.given (l : RunLine) : Json :=
  if l.overrides.isEmpty then .null else .object l.overrides

namespace Command.Runs

/-- What a run asks for: each line with the overrides that go to its employee. -/
def requests (company : String) (f : RunFile) : List Engine.Request :=
  f.lines.map fun l => {
    company
    employee := l.employee
    period := f.period
    overrides := overridesFor f.lines l.employee.id }

/-- Each line with its own overrides. -/
def ownRequests (company : String) (f : RunFile) : List Engine.Request :=
  f.lines.map fun l => { company, employee := l.employee, period := f.period, overrides := l.given }

variable {lines : List RunLine} {l : RunLine}

/-- If no other line has its employee, a line is calculated with its own overrides. -/
theorem overridesFor_of_nodup (h : (lines.map (·.employee.id)).Nodup) (hl : l ∈ lines) :
    overridesFor lines l.employee.id = l.given := by
  obtain ⟨before, after, rfl⟩ := List.append_of_mem hl
  rw [List.map_append, List.map_cons, List.nodup_middle, List.nodup_cons, List.mem_append,
    not_or] at h
  have hothers {ls : List RunLine} (hls : l.employee.id ∉ ls.map (·.employee.id)) :
      (ls.filter fun k => k.employee.id == l.employee.id && !k.overrides.isEmpty) = [] := by
    refine List.filter_eq_nil_iff.2 fun k hk hsame => hls ?_
    obtain ⟨hid, -⟩ := Bool.and_eq_true_iff.1 hsame
    exact List.mem_map.2 ⟨k, hk, beq_iff_eq.1 hid⟩
  have hown : ((before ++ l :: after).filter fun k =>
      k.employee.id == l.employee.id && !k.overrides.isEmpty) =
        if l.overrides.isEmpty then [] else [l] := by
    rw [List.filter_append, List.filter_cons, hothers h.1.1, hothers h.1.2]
    cases l.overrides.isEmpty <;> simp
  rw [overridesFor, RunLine.given]
  simp only [hown]
  split <;> rfl

theorem requests_of_nodup {f : RunFile} (company : String)
    (h : (f.lines.map (·.employee.id)).Nodup) : requests company f = ownRequests company f :=
  List.map_congr_left fun l hl => by rw [overridesFor_of_nodup h hl]

end Command.Runs

end Payroll
