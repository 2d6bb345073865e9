import Mathlib
import Payroll.Proofs.CommandOutcomes
import Payroll.Proofs.CommandStates
import Payroll.Proofs.RunLines
import Payroll.Proofs.RunOutcomes
import Payroll.Proofs.UnexplainedFaults

/-!
How the command for payroll runs ends. What it records stays in the data directory, and it does not explain
the places of a rounding that have given way to an object, nor a total that is too large.
-/

namespace Payroll.Command.Runs

open Result
open Engine (Recorded Run)

variable {i : Installation} {F : Fault → Prop} {o : Occasion} {words : List String}

theorem looks_runFile (path : String) :
    Looks i F (runFile path) fun f => ∃ j, RunFile.load j = .ok f := by
  refine looks_get.bind fun s _ => ?_
  split
  · exact looks_throw (by nofun)
  · next content _ =>
    dsimp only
    generalize (if content.truthy then content.reread else .object []) = j
    have hsettles : (∃ f, RunFile.load j = .ok f) ∨
        ∃ issues, RunFile.load j = .error (.invalidRecord "PayrollRunFile" issues) :=
      Configuration.load_settles j
    rcases hsettles with ⟨f, hf⟩ | ⟨issues, hissues⟩
    · rw [hf]
      exact .pure ⟨j, hf⟩
    · rw [hissues]
      exact looks_fail _

theorem amounts_of_totalled {r : Recorded} (h : r.Totalled) : ∃ a, Amounts.of r.calculation = .ok a := by
  obtain ⟨⟨taxable, htaxable⟩, net, hnet⟩ := h
  obtain ⟨earned, hearned, h⟩ := bind_eq_ok.1 hnet
  obtain ⟨deducted, hdeducted, -⟩ := bind_eq_ok.1 h
  obtain ⟨_, -, h⟩ := bind_eq_ok.1 hdeducted
  obtain ⟨_, -, h⟩ := bind_eq_ok.1 h
  obtain ⟨imss, himss, -⟩ := bind_eq_ok.1 h
  exact ⟨_, bind_eq_ok.2 ⟨earned, hearned, bind_eq_ok.2 ⟨taxable, htaxable, bind_eq_ok.2 ⟨imss, himss,
    bind_eq_ok.2 ⟨deducted, hdeducted, bind_eq_ok.2 ⟨net, hnet, rfl⟩⟩⟩⟩⟩⟩

theorem exists_runJson {r : Run} (h : ∀ c ∈ r.calculations, c.Totalled) : ∃ j, runJson r = .ok j := by
  have hall : ∀ c ∈ r.calculations, ∃ j, employeeJson c = .ok j := by
    intro c hc
    obtain ⟨a, ha⟩ := amounts_of_totalled (h c hc)
    exact ⟨_, bind_eq_ok.2 ⟨a, ha, rfl⟩⟩
  obtain ⟨employees, hemployees⟩ := exists_mapM_eq_ok.2 hall
  exact ⟨_, bind_eq_ok.2 ⟨employees, hemployees, rfl⟩⟩

theorem exists_runLines {r : Run} (h : ∀ c ∈ r.calculations, c.Totalled) (f : RunFile) :
    ∃ lines, runLines f r = .ok lines := by
  have hall : ∀ c ∈ r.calculations.mergeSort byEmployee, ∃ lines, employeeLines c = .ok lines := by
    intro c hc
    obtain ⟨a, ha⟩ := amounts_of_totalled (h c (List.mem_mergeSort.1 hc))
    exact ⟨_, bind_eq_ok.2 ⟨a, ha, rfl⟩⟩
  obtain ⟨employees, hemployees⟩ := exists_mapM_eq_ok.2 hall
  exact ⟨_, bind_eq_ok.2 ⟨employees, hemployees, rfl⟩⟩

theorem loaded_employees {f : RunFile} (h : ∀ l ∈ f.lines, l.employee.Loaded) :
    ∀ p ∈ employees f, p.1.Loaded := by
  intro p hp
  obtain ⟨l, hl, rfl⟩ := List.mem_map.1 hp
  exact h l hl

/-- What a run leaves in a data directory, and how it ends. -/
theorem runPeriod_settles {c : Configuration} (hc : c.Written) {d : DataDirectory} (hd : d.Kept)
    (hnow : o.now.offset.isSome = true)
    (hfree : ∀ k : Nat, Recording.Unused d.trail s!"{o.id}.{k}" 1) (r : RunRequest) {f : RunFile}
    {j : Json} (hf : RunFile.load j = .ok f) :
    ∃ result engine, (Engine.runPeriod c o.now o.id r.company f.period (employees f)).run.run
        { store := d.store, trail := d.trail, author := r.user } = (result, engine) ∧
      DataDirectory.Kept ⟨engine.store, engine.trail⟩ ∧
      EndsIn (fun run => ∀ r ∈ run.calculations, r.Totalled) (Engine.Stops c r.company) result := by
  obtain ⟨hperiod, hlines⟩ := RunFile.loaded hf
  have hemployees := loaded_employees hlines
  have he : Engine.Sound { store := d.store, trail := d.trail, author := r.user } :=
    ⟨hd.store, fun _ hp => (nomatch hp), hd.trail⟩
  have hends := Engine.runPeriod_ends r.company hc hnow rfl rfl he hd.dated hfree hperiod hemployees
  have hkept := Engine.kept_runPeriod c r.company hnow he hd.dated hfree hperiod hemployees
  rcases hrun : Engine.perform (Engine.runPeriod c o.now o.id r.company f.period (employees f))
    { store := d.store, trail := d.trail, author := r.user } with ⟨result, engine⟩
  rw [hrun] at hends hkept
  obtain ⟨hsound, hdated⟩ := hkept
  exact ⟨result, engine, hrun, ⟨hsound.store, hsound.trail, hdated⟩, hends⟩

/-- What is printed of a run. -/
theorem looks_report {r : Run} (h : ∀ c ∈ r.calculations, c.Totalled) (l : RunRequest) (f : RunFile) :
    Looks i F (do
      if l.asJson then say (← expecting (runJson r)).indented
      else sayAll (← expecting (runLines f r))
      unless r.failures.isEmpty do fail s!"{r.failures.length} employee(s) failed") fun _ => True := by
  have hfailures : Looks i F (if r.failures.isEmpty = true then pure ()
      else fail s!"{r.failures.length} employee(s) failed") fun _ => True :=
    .ite (fun _ => .pure trivial) fun _ => looks_fail _
  refine .ite (fun _ => ?_) fun _ => ?_
  · obtain ⟨j, hj⟩ := exists_runJson h
    refine (looks_expecting (Q := fun _ => True) (hj ▸ trivial)).bind fun _ _ => ?_
    exact (looks_say _).bind fun _ _ => hfailures
  · obtain ⟨lines, hlines⟩ := exists_runLines h f
    refine (looks_expecting (Q := fun _ => True) (hlines ▸ trivial)).bind fun _ _ => ?_
    exact (looks_sayAll _).bind fun _ _ => hfailures

theorem run_ends (h : i.Kept) (ho : o.Fresh i) :
    Ends Installation.Kept (Unexplained i.config words "payroll" "run") i (run.run o words) := by
  refine ends_taking h fun l hl => ?_
  refine (looks_runFile l.file).endsBind h fun f ⟨j, hf⟩ => ?_
  obtain ⟨path, hpath⟩ := Installation.exists_dataPath h.config
  simp only [runPeriod, bind_assoc]
  refine (looks_data hpath).endsBind h fun d hd => ?_
  refine looks_config.endsBind h fun c hc => ?_
  subst hd hc
  obtain ⟨result, engine, hrun, hkept, hends⟩ :=
    runPeriod_settles h.config (h.data path) ho.dated (ho.entries path) l hf
  rw [hrun]
  simp only [bind_assoc, pure_bind]
  refine ends_setData hpath (Looks.ends (Q := fun _ => True) ?_ (h.putDirectory hkept))
  have hexplained : EndsIn (fun run => ∀ r ∈ run.calculations, r.Totalled)
      (fun f => (f.isValueFault || among [.noTables] f) = true ∨
        Unexplained i.config words "payroll" "run" f) result := by
    refine hends.mono (fun _ h => h) fun f hf => ?_
    cases hf with
    | rounding h =>
        cases h with
        | method => exact .inl rfl
        | places hoverwritten => exact .inr (.roundingPlaces (.run hl rfl) (by simp) (.places hoverwritten))
    | value h => exact .inl (by rw [h]; rfl)
    | noTables h => exact .inl (by simp [among, h])
    | total h => exact .inr (h ▸ .total (by simp))
  exact (looks_explainingAs hexplained).bind fun r hr => looks_report hr l f

end Payroll.Command.Runs
