import Payroll.Command.Line

/-!
What a command takes from its line: a reader for every option and every word, put together in the
order of the command's fields.
-/

namespace Payroll.Command

/-- A reader of some of the options and words of a line. `words` names the words it reads, which
stand behind those of the readers before it. -/
structure Arguments (α : Type) where
  spellings : List Spelling
  words : List String
  read : Nat → Given → Option α

namespace Arguments

instance : Applicative Arguments where
  pure a := ⟨[], [], fun _ _ => some a⟩
  seq f a :=
    let x := a ()
    ⟨f.spellings ++ x.spellings, f.words ++ x.words, fun n g => do
      let h ← f.read n g
      let v ← x.read (n + f.words.length) g
      pure (h v)⟩

end Arguments

def word (name : String) (read : String → Option α) : Arguments α where
  spellings := []
  words := [name]
  read n g := g.words[n]? >>= read

def lastWord (name : String) (read : String → Option α) : Arguments (Option α) where
  spellings := []
  words := [name]
  read n g :=
    match g.words[n]? with
    | some w => (read w).map some
    | none => some none

/-- The spellings of an option whose name is the first of them. -/
def spelled (texts : List String) (value : Option String) : List Spelling :=
  texts.map fun t => ⟨t, texts.headD "", value⟩

def option (texts : List String) (read : String → Option α) : Arguments (Option α) where
  spellings := spelled texts none
  words := []
  read _ g :=
    match g.last? (texts.headD "") with
    | some v => (read v).map some
    | none => some none

def requiredOption (texts : List String) (read : String → Option α) : Arguments α where
  spellings := spelled texts none
  words := []
  read _ g := g.last? (texts.headD "") >>= read

def defaultedOption (texts : List String) (standard : α) (read : String → Option α) :
    Arguments α :=
  (·.getD standard) <$> option texts read

/-- An option that may be given several times. -/
def repeatedOption (texts : List String) : Arguments (List String) where
  spellings := spelled texts none
  words := []
  read _ g := some (g.options? (texts.headD ""))

def flag (texts : List String) : Arguments Bool where
  spellings := spelled texts (some "")
  words := []
  read _ g := some (g.last? (texts.headD "")).isSome

/-- Two opposite flags, the last of which counts. -/
def flags (positive negative : String) : Arguments (Option Bool) where
  spellings := [⟨positive, positive, some positive⟩, ⟨negative, positive, some negative⟩]
  words := []
  read _ g := some ((g.last? positive).map (· == positive))

def helpFlag : Spelling := ⟨"--help", "--help", some ""⟩

/-- The options with all their spellings, a line for each. -/
def optionLines (spellings : List Spelling) : List String :=
  (spellings.map (·.option)).eraseDups.map fun name =>
    let own := spellings.filter fun s => s.option == name
    let value := if own.any fun s => s.value.isNone then " VALUE" else ""
    "  " ++ String.intercalate ", " (own.map (·.text)) ++ value

/-- How a line reads. -/
inductive Reading (α : Type)
  | refused
  | help
  | accepted (a : α)

/-- A line has no more words than its reader takes. -/
def Arguments.parse (a : Arguments α) (line : List String) : Reading α :=
  match given (a.spellings ++ [helpFlag]) line with
  | none => .refused
  | some g =>
    if (g.last? helpFlag.option).isSome then .help
    else if a.words.length < g.words.length then .refused
    else
      match a.read 0 g with
      | some v => .accepted v
      | none => .refused

end Payroll.Command
