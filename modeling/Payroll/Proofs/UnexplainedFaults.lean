import Mathlib
import Payroll.Command.Program
import Payroll.Proofs.CommandRuns
import Payroll.Proofs.ConfigurationStates
import Payroll.Proofs.EvaluationOutcomes
import Payroll.Proofs.TypedAmounts

/-!
The faults that commands do not explain, by the command and the words of its line.
-/

namespace Payroll.Command

/-- What the command that tries an expression takes. -/
def Formulas.trialArguments : Arguments (String × List String) :=
  Prod.mk <$> word "EXPRESSION" asText <*> repeatedOption ["--var", "-v"]

/-- What the command that makes a new version takes. -/
def Formulas.changeArguments : Arguments (String × Formulas.Terms × Option String × Bool) :=
  (·, ·, ·, ·) <$> word "FORMULA_ID" asText <*> Formulas.termsArguments
    <*> option ["--created-by"] asText <*> flag ["--json"]

/-- What the command that changes a setting takes. -/
def Settings.valueArguments : Arguments (Settings.SettingKey × String) :=
  Prod.mk <$> word "KEY" Settings.SettingKey.ofName? <*> word "VALUE" asText

/-- What the command that shows the configuration takes. -/
def Settings.showArguments : Arguments (Option String × Bool) :=
  Prod.mk <$> option ["--company"] asText <*> flag ["--json"]

/-- The company whose rounding a line asks for. -/
inductive Consults (words : List String) (id : String) : String → String → Prop
  | configuration {asJson : Bool}
      (h : Settings.showArguments.parse words = .accepted (some id, asJson)) :
      Consults words id "config" "show"
  | isr {l : Taxes.IsrLine} (h : Taxes.isrArguments.parse words = .accepted l)
      (hl : l.company = some id) : Consults words id "tax" "isr"
  | imss {l : Taxes.ImssLine} (h : Taxes.imssArguments.parse words = .accepted l)
      (hl : l.company = some id) : Consults words id "tax" "imss"
  | settlement {l : Taxes.SettlementLine} (h : Taxes.settlementArguments.parse words = .accepted l)
      (hl : l.company = some id) : Consults words id "tax" "liquidation"
  | run {l : Runs.RunRequest} (h : Runs.arguments.parse words = .accepted l)
      (hl : l.company = id) : Consults words id "payroll" "run"

/-- The expression that a line gives to a command for formulas. -/
inductive Proposes (words : List String) (s : String) : String → Prop
  | validate (h : (word "EXPRESSION" asText).parse words = .accepted s) : Proposes words s "validate"
  | test {pairs : List String} (h : Formulas.trialArguments.parse words = .accepted (s, pairs)) :
      Proposes words s "test"
  | create {l : Formulas.CreateLine} (h : Formulas.createArguments.parse words = .accepted l)
      (hs : l.terms.expression = some s) : Proposes words s "create"
  | newVersion {formula : String} {terms : Formulas.Terms} {createdBy : Option String} {asJson : Bool}
      (h : Formulas.changeArguments.parse words = .accepted (formula, terms, createdBy, asJson))
      (hs : terms.expression = some s) : Proposes words s "new-version"

/-- The faults that no command explains. The rounding of a company of which a part has given way to an
object is no policy. A base of taxes or contributions is not finite, or an amount of an employee. The places
of the rounding have no decimal digits, or too many. An expression has a sign for a digit that is none, or
rounds a number that no context has digits for. A total of a period is too large. -/
inductive Unexplained (c : Configuration) (words : List String) : String → String → Fault → Prop
  | rounding {id group command : String} {f : Fault} (h : Consults words id group command)
      (hcommand : (group, command) ∈ [("config", "show"), ("tax", "isr"), ("tax", "imss")])
      (hf : c.Misreads id f) : Unexplained c words group command f
  | roundingSet {id : String} {method : Option RoundingMethod} {places : Option Int} {f : Fault}
      (h : Settings.roundingArguments.parse words = .accepted (id, method, places))
      (hf : (Settings.withRounding c id method places).Misreads id f) :
      Unexplained c words "config" "set-rounding" f
  | roundingPlaces {id group command : String} {m : Misuse} (h : Consults words id group command)
      (hcommand : (group, command) ∈ [("tax", "liquidation"), ("payroll", "run")])
      (hf : c.Misreads id (.misuse m)) : Unexplained c words group command (.misuse m)
  | isrBase {l : Taxes.IsrLine} {given : String} (h : Taxes.isrArguments.parse words = .accepted l)
      (hl : ¬l.base.IsFinite) : Unexplained c words "tax" "isr" (.notFinite given)
  | imssBase {l : Taxes.ImssLine} {given : String} (h : Taxes.imssArguments.parse words = .accepted l)
      (hl : ¬l.sbc.IsFinite) : Unexplained c words "tax" "imss" (.notFinite given)
  | employee {l : Taxes.SettlementLine} {issues : List Issue}
      (h : Taxes.settlementArguments.parse words = .accepted l)
      (hl : ∃ x ∈ l.baseSalary :: l.dailySalary.toList ++ l.sbc.toList, ¬x.IsFinite) :
      Unexplained c words "tax" "liquidation" (.invalidRecord "EmployeeSnapshot" issues)
  | places {s : String} {f : Fault}
      (h : Settings.valueArguments.parse words = .accepted (.roundingPlaces, s))
      (hf : integerFromText s = .error f) : Unexplained c words "config" "set" f
  | expression {command s : String} (h : Proposes words s command)
      (hs : Formula.accept s = .error (.arithmetic .conversionSyntax)) :
      Unexplained c words "formula" command (.arithmetic .conversionSyntax)
  | digits {s : String} {e : Formula.Expr} {pairs : List String} {fields : Fields}
      (h : Formulas.trialArguments.parse words = .accepted (s, pairs))
      (hfields : ∀ session, outcome (Formulas.assignments pairs) session = (.ok fields, session))
      (he : Formula.accept s = .ok e)
      (hrounds : ∃ f ∈ e.functions, f.Rounds)
      (hvariable : ∃ v ∈ e.vars, ∃ d, (Formula.Reading.ofSample fields).value? v = some d ∧
        BeyondContexts maxPlaces d) : Unexplained c words "formula" "test" .digitLimit
  | total {group command : String}
      (hcommand : (group, command) ∈ [("audit", "summary"), ("payroll", "run")]) :
      Unexplained c words group command (.arithmetic .overflow)

end Payroll.Command
