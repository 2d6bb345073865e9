import Payroll.Command.Program
import Payroll.Json.Reader
import Std.Time.DateTime.Timestamp

/-!
The program. It reads the files of an installation, runs a command line on them, writes what has
changed, and prints what the command printed. All files are JSON texts.
-/

namespace Payroll.Files

def readText? (path : String) : IO (Option String) := do
  try pure (some (← IO.FS.readFile path)) catch _ => pure none

def readJson? (path : String) : IO (Option Json) := do
  pure ((← readText? path).bind Json.ofText?)

/-- The names in a directory; one that is not there has none. -/
def names (directory : String) : IO (List String) := do
  let path := (← IO.currentDir) / directory
  if ← path.isDir then pure ((← path.readDir).toList.map (·.fileName)) else pure []

def withEnding (ending name : String) : Option String :=
  if name.endsWith ending then some (name.dropEnd ending.length).toString else none

/-- The documents below a directory, by the two last parts of their paths. -/
def documents (directory : String) : IO (List (String × String × Json)) := do
  let mut found := []
  for group in ← names directory do
    for file in ← names s!"{directory}/{group}" do
      if let some name := withEnding ".json" file then
        if let some j ← readJson? s!"{directory}/{group}/{file}" then
          found := (group, name, j) :: found
  pure found.reverse

/-- A file is written beside its place first, so that no reader sees a part of it. -/
def write (directory name text : String) : IO Unit := do
  IO.FS.createDirAll directory
  IO.FS.writeFile s!"{directory}/.{name}.tmp" text
  IO.FS.rename s!"{directory}/.{name}.tmp" s!"{directory}/{name}"

def loadConfiguration (directory : String) (named : Bool) : IO Configuration := do
  let settings ← readJson? s!"{directory}/settings.json"
  let profile ← readJson? s!"{directory}/profile.yaml"
  let mut tableFiles := []
  for file in ← names s!"{directory}/fiscal-tables" do
    if let some year := withEnding ".yaml" file then
      if let some j ← readJson? s!"{directory}/fiscal-tables/{file}" then
        tableFiles := (year, j) :: tableFiles
  pure {
    directory
    named
    settings? := settings.map (Profile.fieldsOf ∘ some)
    profile? := profile.map (Profile.fieldsOf ∘ some)
    tableFiles }

def loadData (directory : String) : IO DataDirectory := do
  let scopes := (← documents s!"{directory}/formulas").filterMap fun d =>
    (Scope.load d.1 d.2.1 d.2.2).toOption
  let entries := (← documents s!"{directory}/audit").map fun d =>
    ({ detail := d.1, id := d.2.1, content := d.2.2 } : AuditDocument)
  pure ⟨⟨scopes⟩, ⟨entries⟩⟩

/-- Fields are written only if they differ from those that were read. -/
def saveFields (directory name : String) (old new : Option Fields) : IO Unit := do
  let text (fields : Fields) := (Json.object fields).indented
  if let some fields := new then
    unless old.map text == some (text fields) do write directory name (text fields)

def saveConfiguration (old new : Configuration) : IO Unit := do
  saveFields new.directory "settings.json" old.settings? new.settings?
  saveFields new.directory "profile.yaml" old.profile? new.profile?

def saveData (directory : String) (old new : DataDirectory) : IO Unit := do
  for s in new.store.scopes do
    unless (old.store.scope s.company s.concept).revision = s.revision do
      write s!"{directory}/formulas/{s.company}" s!"{s.concept}.json" s.toJson.indented
  for d in new.trail.documents do
    unless old.trail.holds d.detail d.id do
      write s!"{directory}/audit/{d.detail}" s!"{d.id}.json" d.content.indented

/-- The program's part of the directory that a name of the environment stands for, or of one below
the home directory. -/
def placed (name below : String) : IO String := do
  let home := (← IO.getEnv "HOME").getD "."
  let directory := (← IO.getEnv name).getD s!"{home}/{below}"
  pure s!"{directory}/{Command.programName}"

def loadInstallation (files : List String) : IO Installation := do
  let named := (← IO.getEnv "NOMINA_CALC_CONFIG_PATH").filter (· != "")
  let standard ← placed "XDG_CONFIG_HOME" ".config"
  let config ← loadConfiguration (named.getD standard) named.isSome
  let standardDirectory ← placed "XDG_DATA_HOME" ".local/share"
  let i : Installation := { config, standardDirectory }
  let i ← match i.dataPath with
    | .ok path => do pure (i.putDirectory path (← loadData path))
    | .error _ => pure i
  files.foldlM (fun i file => do
    match ← readJson? file with
    | some j => pure (i.putFile file j)
    | none => pure i) i

def saveInstallation (old new : Installation) : IO Unit := do
  saveConfiguration old.config new.config
  if let .ok path := old.dataPath then
    saveData path (old.directory path) (new.directory path)

def thisMoment : IO Instant := do
  let time := (← Std.Time.Timestamp.now).val
  let micros := time.second.val * 1000000 + time.nano.val / 1000
  pure ((Instant.ofUnixMicros? micros).getD .latest).universal

def newId : IO String := do pure (Digest.hex (← IO.getRandomBytes 16).toList)

/-- Runs a line; whenever a question waits for an answer, one more line is read. `shown` counts the
characters that the user has seen. -/
partial def converse (i : Installation) (o : Command.Occasion) (line typed : List String)
    (shown : Nat) : IO (Command.Ending × Installation × Nat) := do
  let (ending, s) := Command.runSession i o typed line
  if s.unanswered then
    IO.print (s.printed.drop shown).toString
    (← IO.getStdout).flush
    let answer ← (← IO.getStdin).getLine
    if answer = "" then pure (ending, s.installation, s.printed.length)
    else
      let answer := answer.trimAsciiEnd.toString
      converse i o line (typed ++ [answer]) (s.printed.length + answer.length + 1)
  else pure (ending, s.installation, shown)

end Payroll.Files

def main (line : List String) : IO UInt32 := do
  let i ← Payroll.Files.loadInstallation line
  let occasion := ⟨← Payroll.Files.thisMoment, ← Payroll.Files.newId⟩
  let (ending, i', shown) ← Payroll.Files.converse i occasion line [] 0
  Payroll.Files.saveInstallation i i'
  match ending with
  | .exited code output =>
    let usage := s!"Usage: {Payroll.Command.programName} [OPTIONS] COMMAND [ARGS]...\n"
    IO.print ((output.getD usage).drop shown).toString
    pure code.toUInt32
  | .broke f =>
    IO.eprintln f.message
    pure 1
