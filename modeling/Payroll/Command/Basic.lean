import Payroll.Command.Action
import Payroll.Command.Value

/-!
Commands by their names. A command reads its line first and then acts.
-/

namespace Payroll

/-- `usage` names the words of a line, and `options` has a line for each option. -/
structure Command where
  name : String
  summary : String
  usage : String
  options : List String
  run : Command.Occasion → List String → Command.Action Unit

namespace Command

/-- A command that takes certain arguments. A line it cannot read is refused. -/
def taking (name summary : String) (arguments : Arguments α) (act : Occasion → α → Action Unit) :
    Command where
  name
  summary
  usage := String.intercalate " " (name :: "[OPTIONS]" :: arguments.words)
  options := optionLines (arguments.spellings ++ [helpFlag])
  run occasion line :=
    match arguments.parse line with
    | .accepted a => act occasion a
    | .help => throw .help
    | .refused => throw (.usage none)

/-- How a command is used, behind the words that lead to it. -/
def helpLines (path usage summary : String) (options : List String) : List String :=
  [s!"Usage: {path} {usage}", "", s!"  {summary}", "", "Options:"] ++ options

end Command

end Payroll
