import Payroll.Command.Audits
import Payroll.Command.Formulas
import Payroll.Command.Runs
import Payroll.Command.Settings
import Payroll.Command.Taxes
import Payroll.Text.Columns

/-!
The whole command line. The first words name a group and one of its commands, and the rest is the
line of that command.
-/

namespace Payroll.Command

def programName : String := "nomina-calc"

def programVersion : String := "0.1.0"

structure Group where
  name : String
  summary : String
  commands : List Command

def groups : List Group := [
  ⟨"config", "Show and change configuration.", Settings.all⟩,
  ⟨"formula", "Concept formulas and their versions.", Formulas.all⟩,
  ⟨"tax", "ISR, IMSS and severance calculations.", Taxes.all⟩,
  ⟨"audit", "Inspect and verify fiscal audit entries.", Audits.all⟩,
  ⟨"payroll", "Run payroll periods.", Runs.all⟩]

/-! Help -/

def programSummary : String := "Nomina Calc - Mexican payroll formula and fiscal rule engine."

def groupUsage : String := "[OPTIONS] COMMAND [ARGS]..."

def summaryLines (entries : List (String × String)) : List String :=
  let width := (entries.map fun e => e.1.length).foldl max 0
  ["", "Commands:"] ++ entries.map fun e => s!"  {Text.padRight width e.1}  {e.2}"

def programHelp : List String :=
  helpLines programName groupUsage programSummary ["  --version", "  --help"]
    ++ summaryLines (groups.map fun g => (g.name, g.summary))

def Group.help (g : Group) : List String :=
  helpLines programName s!"{g.name} {groupUsage}" g.summary ["  --help"]
    ++ summaryLines (g.commands.map fun c => (c.name, c.summary))

def Group.commandHelp (g : Group) (c : Command) : List String :=
  helpLines s!"{programName} {g.name}" c.usage c.summary c.options

/-! Lines -/

/-- The words before the first that is no option; two hyphens end the options and are dropped. -/
def splitOptions (line : List String) : List String × List String :=
  let leading := line.takeWhile fun w => isOption w && w != "--"
  let rest := line.drop leading.length
  (leading, if rest.head? = some "--" then rest.tail else rest)

/-- Acts on the options before a name, of which the first counts, or on the name and what follows
it. -/
def choose (options : List (String × Action Unit)) (line : List String)
    (act : String → List String → Action Unit) : Action Unit :=
  let (leading, rest) := splitOptions line
  if leading.any fun w => !(options.map (·.1)).contains w then throw (.usage none)
  else
    match options.find? fun o => leading.head? == some o.1, rest with
    | some o, _ => o.2
    | none, name :: words => act name words
    | none, [] => throw (.usage none)

def helpOption (lines : List String) : String × Action Unit := ("--help", sayAll lines)

def versionOption : String × Action Unit :=
  ("--version", say s!"{programName}, version {programVersion}")

/-- Runs a command, or shows its help if the line asks for that. -/
def Group.runCommand (g : Group) (c : Command) (o : Occasion) (words : List String) :
    Action Unit :=
  tryCatch (c.run o words) fun
    | .help => sayAll (g.commandHelp c)
    | stop => throw stop

def Group.run (g : Group) (o : Occasion) (line : List String) : Action Unit :=
  choose [helpOption g.help] line fun name words =>
    match g.commands.find? fun c => c.name == name with
    | some c => g.runCommand c o words
    | none => throw (.usage none)

def program (o : Occasion) (line : List String) : Action Unit :=
  choose [versionOption, helpOption programHelp] line fun name words =>
    match groups.find? fun g => g.name == name with
    | some g => g.run o words
    | none => throw (.usage none)

/-- How the program ends: with a code and what it printed, or with a fault that was not explained.
A line that the program cannot read has no wording of its own. -/
inductive Ending
  | exited (code : Nat) (output : Option String)
  | broke (f : Fault)

def endingOf (printed : String) : Except Stop Unit → Ending
  | .ok () => .exited 0 (some printed)
  | .error .help => .exited 0 (some printed)
  | .error (.usage message) => .exited 2 (message.map fun m => s!"Error: {m}\n")
  | .error (.failure message) => .exited 1 (some (printed ++ s!"Error: {message}\n"))
  | .error .aborted => .exited 1 (some (printed ++ "Aborted!\n"))
  | .error (.fault f) => .broke f

def typedLines (typed : String) : List String :=
  let lines := ((typed.replace "\r\n" "\n").replace "\r" "\n").splitOn "\n"
  if lines.getLast? = some "" then lines.dropLast else lines

def runSession (i : Installation) (o : Occasion) (typed : List String) (line : List String) :
    Ending × Session :=
  let (result, s) := (program o line).run.run { installation := i, typed }
  (endingOf s.printed result, s)

def answer (i : Installation) (o : Occasion) (typed : String) (line : List String) :
    Ending × Installation :=
  let (ending, s) := runSession i o (typedLines typed) line
  (ending, s.installation)

end Payroll.Command
