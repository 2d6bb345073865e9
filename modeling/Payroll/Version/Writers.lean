import Payroll.Version.Operation

/-!
Writers that change stored formulas at the same time. Each finds out which scope its change is about,
reads that scope, computes new rows from what it read and writes them, which is refused once the
scope was written by another. Between these steps the others may do any of theirs.
-/

namespace Payroll.FormulaStore

open Version

/-- The new rows of a scope from those that were read. -/
structure Change where
  company : String
  concept : String
  rows : List FormulaVersion → Except Fault (List FormulaVersion)

namespace Change

def adding (row : FormulaVersion) : Change where
  company := row.company
  concept := row.concept
  rows := fun rows => do
    let found := conflicts rows (coverageOf row) none
    ensure found.isEmpty (.conflicts found)
    pure (rows ++ [row])

def superseding (located : FormulaVersion) (id : String) (now : Instant) (formula : Json)
    (changes : Fields) (createdBy : Json) : Change where
  company := located.company
  concept := located.concept
  rows := fun rows => do
    let current ← existing (.formulaNotFound formula) (rows.find? fun v => v.id == located.id)
    ensure current.active (.conflicts [supersededBy rows current])
    let row ← successor current id now changes createdBy
    let found := conflicts rows (coverageOf row) (some current.id)
    ensure found.isEmpty (.conflicts found)
    let kept := rows.map fun v => if v.id = current.id then supersede current now row.id else v
    pure (kept ++ [row])

def removing (located : FormulaVersion) (isReferenced : String → Except Fault Bool)
    (formula : Json) : Change where
  company := located.company
  concept := located.concept
  rows := fun rows => do
    let row ← existing (.formulaNotFound formula) (rows.find? fun v => v.id == located.id)
    ensure row.active (.formulaSuperseded row.id)
    ensure (!rows.any fun v => v.supersededBy == some row.id) (.formulaReplacedEarlier row.id)
    let referenced ← isReferenced row.id
    ensure (!referenced) (.formulaReferenced row.id)
    pure (rows.filter fun v => v.id != row.id)

end Change

/-- What a writer settles before it reads the scope. -/
def Operation.change (store : FormulaStore) : Operation → Except Fault Change
  | .create id now d => do
    refuseRepeated d.fields
    let unknown := otherFields d.fields
    ensure unknown.isEmpty (.unknownFields unknown)
    acceptExpression d.expression
    pure (.adding (← d.row id now))
  | .newVersion id now formula changes createdBy => do
    let changes := Fields.overlay [] changes
    let fixed := otherFields changes
    ensure fixed.isEmpty (.fixedFields fixed)
    acceptChanged changes
    pure (.superseding (← store.find formula) id now formula changes createdBy)
  | .delete isReferenced formula => do
    pure (.removing (← store.find formula) isReferenced formula)

/-- A writer under way, with the scope that it has read. -/
structure Writer where
  op : Operation
  change : Change
  read : Option Scope := none

/-- A store with the writers under way, those that have written, in that order, and those that were
refused, with their faults. -/
structure Writers where
  store : FormulaStore
  underWay : List Writer := []
  written : List Writer := []
  refused : List (Writer × Fault) := []

namespace Writers

/-- The ids that new rows get are drawn at random, so that no two changes have one. -/
def Unclaimed (ws : Writers) (op : Operation) : Prop :=
  op.Fresh ws.store ∧ ∀ id ∈ op.newId?, ∀ w ∈ ws.underWay, w.op.newId? ≠ some id

/-- One writer does one step. A writer that cannot compute its rows stops, as may any other. -/
inductive Step (ws : Writers) : Writers → Prop
  | begin {op : Operation} {change : Change} :
      ws.Unclaimed op → op.change ws.store = .ok change →
        Step ws { ws with underWay := ws.underWay ++ [⟨op, change, none⟩] }
  | read {before after : List Writer} {w : Writer} {s : Scope} :
      ws.underWay = before ++ w :: after →
      ws.store.scopeOf (.text w.change.company) (.text w.change.concept) = .ok s →
        Step ws { ws with underWay := before ++ { w with read := some s } :: after }
  | write {before after : List Writer} {w : Writer} {s : Scope} {rows : List FormulaVersion}
      {next : FormulaStore} :
      ws.underWay = before ++ w :: after → w.read = some s → w.change.rows s.rows = .ok rows →
      ws.store.write s.company s.concept s.revision rows = .ok next →
        Step ws { ws with
          store := next
          underWay := before ++ after
          written := ws.written ++ [w] }
  | refuse {before after : List Writer} {w : Writer} {s : Scope} {rows : List FormulaVersion}
      {f : Fault} :
      ws.underWay = before ++ w :: after → w.read = some s → w.change.rows s.rows = .ok rows →
      ws.store.write s.company s.concept s.revision rows = .error f →
        Step ws { ws with underWay := before ++ after, refused := ws.refused ++ [(w, f)] }
  | stop {before after : List Writer} {w : Writer} :
      ws.underWay = before ++ w :: after → Step ws { ws with underWay := before ++ after }

/-- The changes of those that have written, made one after the other. -/
def replay (start : FormulaStore) (written : List Writer) : Except Fault FormulaStore :=
  written.foldlM (fun store w => w.op.run store) start

end Writers

end Payroll.FormulaStore
