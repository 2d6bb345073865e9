/-!
The words of a command line: options, the values of options, and the words between them. A word
that starts with a hyphen is an option, up to the word that consists of two hyphens.
-/

namespace Payroll.Command

/-- One way to write an option. It stands for a value, or takes the next word as its value. -/
structure Spelling where
  text : String
  option : String
  value : Option String
  deriving DecidableEq, Repr

/-- What a line holds: the options with their values and the other words, each in their order. -/
structure Given where
  options : List (String × String) := []
  words : List String := []
  deriving DecidableEq, Repr

namespace Given

def options? (g : Given) (option : String) : List String :=
  (g.options.filter fun o => o.1 == option).map (·.2)

/-- Of several values the last one counts. -/
def last? (g : Given) (option : String) : Option String := (g.options? option).getLast?

end Given

/-- What has been read of a line; an option may still be waiting for its value. -/
structure Scan where
  found : Given := {}
  awaiting : Option String := none
  closed : Bool := false

def isLong (s : Spelling) : Bool := s.text.startsWith "--"

def isOption (word : String) : Bool :=
  match word.toList with
  | '-' :: _ :: _ => true
  | _ => false

/-- The options that a word holds, and the one that waits for the next word. -/
abbrev Opened := List (String × String) × Option String

/-- Options of one letter behind one hyphen. What follows one that takes a value is its value. -/
def ofLetters (spellings : List Spelling) : List Char → Option Opened
  | [] => some ([], none)
  | c :: cs =>
    match spellings.find? fun s => s.text.toList == ['-', c] with
    | some ⟨_, option, some v⟩ => (ofLetters spellings cs).map fun o => ((option, v) :: o.1, o.2)
    | some ⟨_, option, none⟩ =>
      if cs = [] then some ([], some option) else some ([(option, String.ofList cs)], none)
    | none => none

/-- An option behind two hyphens; an equals sign may join it to its value. -/
def ofName (spellings : List Spelling) (word : List Char) : Option Opened :=
  let name := word.takeWhile (· != '=')
  let joined := word.drop (name.length + 1)
  match (spellings.filter isLong).find? fun s => s.text.toList == name with
  | some ⟨_, option, some v⟩ => if name = word then some ([(option, v)], none) else none
  | some ⟨_, option, none⟩ =>
    if name = word then some ([], some option) else some ([(option, String.ofList joined)], none)
  | none => none

def openOption (spellings : List Spelling) (word : String) : Option Opened :=
  match word.toList with
  | '-' :: '-' :: cs => ofName spellings ('-' :: '-' :: cs)
  | cs => ofLetters spellings cs.tail

def Scan.step (spellings : List Spelling) (s : Scan) (word : String) : Option Scan :=
  let found := s.found
  match s.awaiting with
  | some option =>
    some { s with
      found := { found with options := found.options ++ [(option, word)] }
      awaiting := none }
  | none =>
    if s.closed || !isOption word then
      some { s with found := { found with words := found.words ++ [word] } }
    else if word = "--" then some { s with closed := true }
    else do
      let (options, awaiting) ← openOption spellings word
      pure { s with found := { found with options := found.options ++ options }, awaiting }

/-- The options and words of a line; none if an option is unknown or lacks its value. -/
def given (spellings : List Spelling) (words : List String) : Option Given := do
  let s ← words.foldlM (Scan.step spellings) {}
  if s.awaiting.isSome then none else some s.found

end Payroll.Command
