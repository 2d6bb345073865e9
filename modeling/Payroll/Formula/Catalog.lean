import Payroll.Formula.Template
import Payroll.Rounding

/-!
What there is to write formulas with.
-/

namespace Payroll.Formula.Catalog

def vocabulary : Json :=
  .object (Variable.all.map fun v => (v.name, .text v.description))

def functions : Json :=
  .object (Function.all.map fun f => (f.name, .text f.help))

def samples : Json :=
  .object (Variable.all.map fun v => (v.name, .ofDecimal v.sample))

def places : Json := .object (standardPlaces.map fun p => (p.1, .ofNat p.2))

def templates : Json := .list (Template.all.map Template.toJson)

def toJson : Json :=
  .object [
    ("variables", vocabulary),
    ("functions", functions),
    ("templates", templates),
    ("sample_context", samples),
    ("precision", places)]

end Payroll.Formula.Catalog
