import Payroll.Command.Arguments
import Payroll.Installation

/-!
What a command does: it changes an installation, prints lines and reads what is typed. A command
that stops early has still done what it did before.
-/

namespace Payroll.Command

/-- Why a command stops before its end: help is wanted, the line cannot be used, the command
explains what went wrong, the user declined, or a fault that no command explains. -/
inductive Stop
  | help
  | usage (message : Option String)
  | failure (message : String)
  | aborted
  | fault (f : Fault)

/-- The installation with the lines that were typed and not read yet, the text printed so far, and
whether a question found no line. -/
structure Session where
  installation : Installation
  typed : List String := []
  printed : String := ""
  unanswered : Bool := false

abbrev Action := ExceptT Stop (StateM Session)

structure Occasion where
  now : Instant
  id : String

def print (text : String) : Action Unit := modify fun s => { s with printed := s.printed ++ text }

def say (line : String) : Action Unit := print (line ++ "\n")

def sayAll (lines : List String) : Action Unit := lines.forM say

def refuse (message : String) : Action α := throw (.usage (some message))

def refuseValue (message : String) : Action α := refuse s!"Invalid value: {message}"

def fail (message : String) : Action α := throw (.failure message)

/-- The result of an operation; its faults go unexplained. -/
def expecting (r : Except Fault α) : Action α :=
  match r with
  | .ok a => pure a
  | .error f => throw (.fault f)

/-- The result of an operation; faults of the expected families are explained. -/
def explainingAs (wording : Fault → String) (expected : Fault → Bool) (r : Except Fault α) :
    Action α :=
  match r with
  | .ok a => pure a
  | .error f => if expected f then fail (wording f) else throw (.fault f)

def explaining (expected : Fault → Bool) (r : Except Fault α) : Action α :=
  explainingAs Fault.message expected r

def among (kinds : List FaultKind) (f : Fault) : Bool := kinds.contains f.kind

def config : Action Configuration := do pure (← get).installation.config

def setConfig (c : Configuration) : Action Unit :=
  modify fun s => { s with installation := { s.installation with config := c } }

def data : Action DataDirectory := do
  let i := (← get).installation
  pure (i.directory (← expecting i.dataPath))

def setData (d : DataDirectory) : Action Unit := do
  let i := (← get).installation
  let path ← expecting i.dataPath
  modify fun s => { s with installation := i.putDirectory path d }

def setStore (store : FormulaStore) : Action Unit := do
  let d ← data
  setData { d with store }

inductive Consent
  | given
  | declined
  | unclear

def consentOf (answer : String) : Consent :=
  match Text.stripped (String.ofList (answer.toList.map Char.toLower)) with
  | "y" | "yes" => .given
  | "n" | "no" | "" => .declined
  | _ => .unclear

/-- What is printed while a question is asked until its answer is clear, the answer if there is
one, and the lines left. -/
def answers (prompt : String) : List String → String × Consent × List String
  | [] => (prompt, .unclear, [])
  | line :: lines =>
    let shown := prompt ++ line ++ "\n"
    match consentOf line with
    | .unclear =>
      let (printed, consent, left) := answers prompt lines
      (shown ++ "Error: invalid input\n" ++ printed, consent, left)
    | consent => (shown, consent, lines)

/-- Goes on only if the user agrees. -/
def confirm (question : String) : Action Unit := do
  let (printed, consent, left) := answers (question ++ " [y/N]: ") (← get).typed
  print printed
  modify fun s => { s with typed := left }
  match consent with
  | .given => pure ()
  | .declined => throw .aborted
  | .unclear => do
    modify fun s => { s with unanswered := true }
    throw .aborted

end Payroll.Command
