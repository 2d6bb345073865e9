import Payroll.Version.Store

/-!
Sequences of changes to stored formulas.
-/

namespace Payroll.FormulaStore

/-- A change with its arguments; the ids and times of new rows are among them. -/
inductive Operation
  | create (id : String) (now : Instant) (draft : Draft)
  | newVersion (id : String) (now : Instant) (formula : Json) (changes : Fields) (createdBy : Json)
  | delete (isReferenced : String → Except Fault Bool) (formula : Json)

namespace Operation

def run (store : FormulaStore) : Operation → Except Fault FormulaStore
  | .create id now draft => do pure (← store.create id now draft).2
  | .newVersion id now formula changes createdBy => do
    pure (← store.newVersion id now formula changes createdBy).2
  | .delete isReferenced formula => store.delete isReferenced formula

/-- The store after a change, which leaves it alone when it fails. -/
def after (op : Operation) (store : FormulaStore) : FormulaStore :=
  match op.run store with
  | .ok next => next
  | .error _ => store

/-- The id of the row that is added. -/
def newId? : Operation → Option String
  | .create id _ _ => some id
  | .newVersion id _ _ _ _ => some id
  | .delete _ _ => none

/-- The id of an added row is not in use. -/
def Fresh (op : Operation) (store : FormulaStore) : Prop :=
  ∀ id ∈ op.newId?, ∀ company concept, ∀ v ∈ (store.scope company concept).rows, v.id ≠ id

end Operation

/-- The stores that changes lead to, failing ones among them. -/
inductive Reachable : FormulaStore → Prop
  | empty : Reachable {}
  | step {store : FormulaStore} (op : Operation) :
      Reachable store → op.Fresh store → Reachable (op.after store)

/-- The store with other rows in one scope. -/
def withRows (store : FormulaStore) (company concept : String) (rows : List FormulaVersion) :
    FormulaStore :=
  ⟨putScope ⟨company, concept, (store.scope company concept).revision + 1, rows⟩ store.scopes⟩

end Payroll.FormulaStore
