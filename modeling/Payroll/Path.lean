import Payroll.Key

/-!
Paths of files, and where the documents of a data directory stand: each in a directory that one
identifier names, under a name made from another.
-/

namespace Payroll

/-- The separators that a path begins with, and the names between the others. A path without an
anchor is relative. -/
structure Path where
  anchor : String
  names : List String
  deriving DecidableEq, Repr

namespace Path

/-- The beginning of a path that starts at the root; two separators there are not one. -/
def anchorOf (path : String) : String :=
  match path.toList with
  | '/' :: '/' :: '/' :: _ => "/"
  | '/' :: '/' :: _ => "//"
  | '/' :: _ => "/"
  | _ => ""

/-- Repeated and final separators and steps to the current directory are left out. -/
def ofText (s : String) : Path where
  anchor := anchorOf s
  names := ((s.toList.splitOn '/').map String.ofList).filter fun n => n != "" && n != "."

/-- The path on which a text goes on; a text with an anchor is a path of its own. -/
def join (p : Path) (s : String) : Path :=
  let q := ofText s
  if q.anchor = "" then { p with names := p.names ++ q.names } else q

def text (p : Path) : String :=
  let clean := p.anchor ++ String.intercalate "/" p.names
  if clean = "" then "." else clean

instance : ToString Path := ⟨text⟩

end Path

/-- The document under a name in the directory of its owner; both have to be identifiers. -/
def documentPath (root : Path) (ownerLabel nameLabel : String) (owner name : Json) :
    Except Fault Path := do
  let directory ← Key.check ownerLabel owner
  let file ← Key.check nameLabel name
  pure ((root.join directory).join (file ++ ".json"))

namespace Path

/-- Where a data directory keeps the versions of formulas. -/
def formulas (data : Path) : Path := data.join "formulas"

/-- Where a data directory keeps the audit trail. -/
def audit (data : Path) : Path := data.join "audit"

def scopePath (data : Path) (company concept : Json) : Except Fault Path :=
  documentPath data.formulas "company_id" "concept_code" company concept

def entryPath (data : Path) (detail entry : Json) : Except Fault Path :=
  documentPath data.audit "payroll_detail_id" "entry_id" detail entry

end Path

end Payroll
