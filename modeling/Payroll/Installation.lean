import Payroll.Engine
import Payroll.Path
import Payroll.RunFile

/-!
An installation: its configuration, a running engine, the data directories and other files.
-/

namespace Payroll

structure DataDirectory where
  store : FormulaStore := {}
  trail : AuditTrail := {}

/-- The engine works on the standard data directory; others are known by their paths, and so are the
contents of other files. -/
structure Installation where
  config : Configuration
  standardDirectory : String
  engine : Engine := {}
  directories : List (String × DataDirectory) := []
  files : Fields := []

namespace Installation

/-- A path without repeated or final separators and without steps to the current directory. -/
def cleanPath (path : String) : String := (Path.ofText path).text

/-- An installation below one directory, without any configuration or data. -/
def below (root : String) (author : Option String) : Installation where
  config := { directory := root ++ "/config" }
  standardDirectory := root ++ "/data/nomina-calc"
  engine := { author }

/-- The data directory that the settings name, or the standard one. -/
def dataPath (i : Installation) : Except Fault String :=
  match Configuration.set? i.config.settings "data_dir" with
  | some (.text path) => .ok (cleanPath path)
  | some j => .error (.misuse (.asPath j))
  | none => .ok i.standardDirectory

def file? (i : Installation) (path : String) : Option Json :=
  Fields.lookup i.files (cleanPath path)

def putFile (i : Installation) (path : String) (content : Json) : Installation :=
  { i with files := Fields.put i.files (cleanPath path) content }

def directory (i : Installation) (path : String) : DataDirectory :=
  if path = i.standardDirectory then ⟨i.engine.store, i.engine.trail⟩
  else (Engine.lookUp path i.directories).getD {}

def putDirectory (i : Installation) (path : String) (d : DataDirectory) : Installation :=
  if path = i.standardDirectory then
    { i with engine := { i.engine with store := d.store, trail := d.trail } }
  else { i with directories := Engine.putEntry path d i.directories }

end Installation

end Payroll
