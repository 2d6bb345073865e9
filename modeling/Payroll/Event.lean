import Payroll.Installation
import Payroll.Version.Operation

/-!
What happens in an installation, one event after the other.
-/

namespace Payroll

/-- An event with its arguments; the ids and times that it takes are among them. A configuration
changes in its settings, its profile or its table files. -/
inductive Event
  | create (id : String) (now : Instant) (draft : FormulaStore.Draft)
  | newVersion (id : String) (now : Instant) (formula : Json) (changes : Fields) (createdBy : Json)
  | delete (formula : Json)
  | configure (config : Configuration)
  | setPolicy (company : String) (policy : RoundingPolicy)
  | invalidate (company : String)
  | clearPolicies
  | clearTables
  | calculate (now : Instant) (id : String) (request : Engine.Request)
  | runPeriod (now : Instant) (id company : String) (period : Period)
      (employees : List (Employee × Json))

/-- The engine with its formulas changed; a change that fails leaves them alone. -/
def Engine.change (op : FormulaStore.Operation) (e : Engine) : Engine :=
  { e with store := op.after e.store }

namespace Event

/-- The engine after an event. What a calculation stored before it failed stays stored. -/
def run (c : Configuration) (e : Engine) : Event → Engine
  | .create id now draft => e.change (.create id now draft)
  | .newVersion id now formula changes createdBy =>
    e.change (.newVersion id now formula changes createdBy)
  | .delete formula => e.change (.delete e.trail.isReferenced formula)
  | .configure _ => e
  | .setPolicy company policy => e.setPolicy company policy
  | .invalidate company => e.invalidate company
  | .clearPolicies => { e with policies := [] }
  | .clearTables => { e with tables := [] }
  | .calculate now id request => ((Engine.calculate c now id request).run.run e).2
  | .runPeriod now id company period employees =>
    ((Engine.runPeriod c now id company period employees).run.run e).2

def configured (c : Configuration) : Event → Configuration
  | .configure config => config
  | _ => c

def after (i : Installation) (x : Event) : Installation :=
  { i with config := x.configured i.config, engine := x.run i.config i.engine }

/-- New ids are not in use, and employees and periods are records. -/
def Admissible (e : Engine) : Event → Prop
  | .create id now draft => (FormulaStore.Operation.create id now draft).Fresh e.store
  | .newVersion id now formula changes createdBy =>
    (FormulaStore.Operation.newVersion id now formula changes createdBy).Fresh e.store
  | .calculate _ id request =>
    Recording.Unused e.trail id 1 ∧ request.employee.Loaded ∧ request.period.Loaded
  | .runPeriod _ id _ period employees =>
    (∀ k : Nat, Recording.Unused e.trail s!"{id}.{k}" 1) ∧ period.Loaded ∧
      ∀ p ∈ employees, p.1.Loaded
  | _ => True

end Event

namespace Installation

/-- The installations that events lead to from another one. -/
inductive Reaches (i : Installation) : Installation → Prop
  | refl : Reaches i i
  | step {j : Installation} (x : Event) :
      Reaches i j → x.Admissible j.engine → Reaches i (x.after j)

/-- The installations that events lead to from one without any data. -/
def Reachable (i : Installation) : Prop := ∃ root author, Reaches (below root author) i

end Installation

end Payroll
