import Mathlib
import Payroll.Proofs.AuditCommands
import Payroll.Proofs.ConfigurationCommands
import Payroll.Proofs.FormulaCommands
import Payroll.Proofs.RunCommand
import Payroll.Proofs.TaxCommands

/-!
Which faults leave the program unexplained, in every installation that commands lead to.
-/

namespace Payroll

open Command Result

/-- The installations that commands lead to from one in which nothing is set or stored. Their files may change
in between, and each command has a time and identifiers of its own. -/
inductive Installation.Commanded : Installation → Prop
  | start (directory : String) (named : Bool) (standardDirectory : String) (author : Option String)
      (files : Fields) : Commanded {
        config := { directory, named }
        standardDirectory
        engine := { author }
        files }
  | files {i : Installation} (files : Fields) : Commanded i → Commanded { i with files }
  | step {i : Installation} {o : Occasion} (typed : String) (line : List String) :
      Commanded i → o.Fresh i → Commanded (answer i o typed line).2

namespace Command

variable {i : Installation} {o : Occasion}

theorem command_ends (h : i.Kept) (ho : o.Fresh i) (words : List String) :
    ∀ g ∈ groups, ∀ c ∈ g.commands,
      Ends Installation.Kept (Unexplained i.config words g.name c.name) i (c.run o words) := by
  have hsame {F : Fault → Prop} {x : Action Unit} (hx : Ends (· = i) F i x) :
      Ends Installation.Kept F i x := hx.mono (fun _ hj => hj ▸ h) fun _ hf => hf
  simp only [groups, List.mem_cons, List.not_mem_nil, or_false, forall_eq_or_imp, forall_eq,
    Settings.all, Formulas.all, Taxes.all, Audits.all, Runs.all]
  refine ⟨⟨?_, ?_, ?_, ?_, ?_, ?_⟩, ⟨?_, ?_, ?_, ?_, ?_, ?_, ?_, ?_, ?_, ?_⟩, ⟨?_, ?_, ?_⟩,
    ⟨?_, ?_, ?_, ?_⟩, ?_⟩
  · exact Settings.path_ends h
  · exact Settings.show_ends h
  · exact Settings.setRounding_ends h
  · exact Settings.setRiskClass_ends h
  · exact Settings.getValue_ends h
  · exact Settings.setValue_ends h
  · exact Formulas.validate_ends h
  · exact Formulas.tryOut_ends h
  · exact Formulas.vocabulary_ends h
  · exact Formulas.templates_ends h
  · exact Formulas.create_ends h ho
  · exact Formulas.newVersion_ends h ho
  · exact Formulas.resolve_ends h
  · exact Formulas.history_ends h
  · exact Formulas.list_ends h
  · exact Formulas.delete_ends h
  · exact hsame (Taxes.isr_ends h.config o words)
  · exact hsame (Taxes.imss_ends h.config o words)
  · exact hsame (Taxes.settlement_ends h.config o words)
  · exact Audits.list_ends h
  · exact Audits.show_ends h
  · exact Audits.verify_ends h
  · exact Audits.summary_ends h
  · exact Runs.run_ends h ho

/-- A fault that the command of a line does not explain. -/
def Escapes (c : Configuration) (line : List String) (f : Fault) : Prop :=
  ∃ group command words, Names line group command words ∧ Unexplained c words group command f

theorem answer_kept (h : i.Kept) (ho : o.Fresh i) (typed : String) (line : List String) :
    (answer i o typed line).2.Kept ∧
      ∀ f, (answer i o typed line).1 = .broke f → Escapes i.config line f := by
  have hprogram : Ends Installation.Kept (Escapes i.config line) i (program o line) :=
    ends_program h fun g hg c hc words hnames => (command_ends h ho words g hg c hc).mono
      (fun _ hj => hj) fun f hf => ⟨_, _, words, hnames, hf⟩
  exact answer_ends hprogram typed

end Command

namespace Installation

theorem kept_unset (directory : String) (named : Bool) (standardDirectory : String)
    (author : Option String) (files : Fields) :
    Kept { config := { directory, named }, standardDirectory, engine := { author }, files } where
  config := Configuration.written_unset directory named
  data path := by
    unfold Installation.directory
    split
    · exact DataDirectory.kept_empty
    · exact DataDirectory.kept_empty

theorem Commanded.kept {i : Installation} (h : i.Commanded) : i.Kept := by
  induction h with
  | start directory named standardDirectory author files => exact kept_unset _ _ _ _ _
  | files _ _ ih => exact ⟨ih.config, ih.data⟩
  | step typed line _ ho ih => exact (answer_kept ih ho typed line).1

end Installation

namespace Command

end Command

end Payroll
