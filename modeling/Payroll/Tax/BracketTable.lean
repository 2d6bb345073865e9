import Payroll.Digest
import Payroll.Tax.Bracket

/-!
Tables of rows that cover every base from zero on. Consecutive rows share a limit or are a cent
apart; a base belongs to the row with the greatest lower limit that it reaches.
-/

namespace Payroll

open Decimal (ordinary)

def oneCent : Decimal := 0.01

namespace BracketTable

variable {α : Type}

/-- What is wrong between the `i`-th row and the next. -/
def issuesBetween (i : Nat) (row next : Bracket α) : Except Fault (List TableIssue) :=
  match row.upper with
  | none => .ok [.unboundedInside i]
  | some upper =>
    if next.lower.le row.lower then .ok [.notAbove i next.lower row.lower]
    else if next.lower.lt upper then .ok [.overlap i upper next.lower]
    else do
      let distance ← ordinary.sub next.lower upper
      pure (if oneCent.lt distance then [.gap i upper next.lower] else [])

/-- What is wrong from the `i`-th row on. -/
def issuesFrom (i : Nat) : List (Bracket α) → Except Fault (List TableIssue)
  | [] => .ok []
  | [row] =>
    match row.upper with
    | none => .ok []
    | some upper => .ok [.boundedEnd upper]
  | row :: next :: rows => do
    let here ← issuesBetween i row next
    let after ← issuesFrom (i + 1) (next :: rows)
    pure (here ++ after)

def issues : List (Bracket α) → Except Fault (List TableIssue)
  | [] => .ok [.noRows]
  | row :: rows => do
    let start := if oneCent.lt row.lower then [.lateStart row.lower] else []
    let rest ← issuesFrom 0 (row :: rows)
    pure (start ++ rest)

end BracketTable

/-- The rows cover every base from zero on. -/
structure BracketTable (α : Type) where
  name : String
  rows : List (Bracket α)
  sound : BracketTable.issues rows = .ok []

namespace BracketTable

variable {α : Type}

def of? (name : String) (rows : List (Bracket α)) : Except Fault (BracketTable α) :=
  match h : issues rows with
  | .ok [] => .ok ⟨name, rows, h⟩
  | .ok is => .error (.badTable name is)
  | .error f => .error f

theorem rows_ne_nil (t : BracketTable α) : t.rows ≠ [] := by
  intro h
  have := t.sound
  rw [h] at this
  simp [issues] at this

/-- The number of limits up to a base, where all limits before `lo` are up to it and none from `hi` on:
the limit in the middle tells in which half the number lies. -/
def bisect (limits : List Decimal) (base : Decimal) (lo hi : Nat) (h : hi ≤ limits.length) : Nat :=
  if hlt : lo < hi then
    let middle := (lo + hi) / 2
    if base.lt limits[middle] then bisect limits base lo middle (by omega)
    else bisect limits base (middle + 1) hi h
  else lo
termination_by hi - lo

theorem bisect_le (limits : List Decimal) (base : Decimal) (lo hi : Nat) (h : hi ≤ limits.length)
    (hle : lo ≤ hi) : bisect limits base lo hi h ≤ hi := by
  fun_induction bisect limits base lo hi h with
  | case1 lo hi h hlt middle hbelow ih => exact Nat.le_trans (ih (by omega)) (by omega)
  | case2 lo hi h hlt middle hreached ih => exact ih (by omega)
  | case3 lo hi h hlt => exact hle

def lowers (t : BracketTable α) : List Decimal := t.rows.map Bracket.lower

/-- The number of rows whose lower limit a base reaches. -/
def reached (t : BracketTable α) (base : Decimal) : Nat :=
  bisect t.lowers base 0 t.lowers.length (Nat.le_refl _)

theorem reached_le (t : BracketTable α) (base : Decimal) : t.reached base ≤ t.rows.length := by
  have h := bisect_le t.lowers base 0 t.lowers.length (Nat.le_refl _) (Nat.zero_le _)
  exact Nat.le_trans h (Nat.le_of_eq (List.length_map _))

/-- The position of the row for a base: the last whose lower limit it reaches, or the first. -/
def position (t : BracketTable α) (base : Decimal) : Nat := t.reached base - 1

theorem position_lt (t : BracketTable α) (base : Decimal) : t.position base < t.rows.length := by
  have h := t.reached_le base
  have hp : 0 < t.rows.length := List.length_pos_iff.2 t.rows_ne_nil
  unfold position
  omega

def rowFor (t : BracketTable α) (base : Decimal) : Bracket α :=
  t.rows.get ⟨t.position base, t.position_lt base⟩

end BracketTable

structure BracketMatch (α : Type) where
  index : Nat
  row : Bracket α
  base : Decimal

def BracketMatch.excess {α : Type} (m : BracketMatch α) : Except Fault Decimal := do
  pure (Decimal.max2 0 (← ordinary.sub m.base m.row.lower))

namespace BracketTable

variable {α : Type}

def find (t : BracketTable α) (base : Amount) : Except Fault (BracketMatch α) :=
  match base.toDecimal with
  | .error f => .error f
  | .ok d =>
    if d.lt 0 then .error (.negativeBase d) else .ok ⟨t.position d, t.rowFor d, d⟩

/-- The positions of all rows between whose limits a base lies. -/
def matchingRows (t : BracketTable α) (base : Decimal) : List Nat :=
  (t.rows.zipIdx.filter fun r => r.1.contains base).map (·.2)

def rowsJson [BracketTerms α] (t : BracketTable α) : Json := .list (t.rows.map Bracket.toJson)

def checksum [BracketTerms α] (t : BracketTable α) : String := t.rowsJson.checksum

def summary (t : BracketTable α) : String :=
  s!"BracketTable({Json.shownText t.name}, {t.rows.length} rows)"

end BracketTable

end Payroll
