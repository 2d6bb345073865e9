import Payroll.Decimal.Context
import Payroll.Decimal.Text

/-!
Decimal numbers with a fixed number of places, as people read amounts.
-/

namespace Payroll.Decimal

/-- A number counted in units of its last place, a half going to the even neighbour. -/
def unitsAt (places : Nat) (d : Decimal) : Nat :=
  let shift := d.exponent + places
  if d.isZero then 0
  else if 0 ≤ shift then d.coefficient * pow10 shift.toNat
  else cutDigits .halfEven d.negative d.coefficient shift.natAbs

/-- Commas between groups of three digits, the last digit first. -/
def groupThousands : List Char → List Char
  | a :: b :: c :: d :: ds => a :: b :: c :: ',' :: groupThousands (d :: ds)
  | ds => ds

theorem filter_groupThousands (ds : List Char) (h : ',' ∉ ds) :
    (groupThousands ds).filter (· != ',') = ds := by
  have keep (cs : List Char) (hc : ',' ∉ cs) : cs.filter (· != ',') = cs :=
    List.filter_eq_self.2 fun c hm => by
      have : c ≠ ',' := fun he => hc (he ▸ hm)
      simpa using this
  fun_induction groupThousands ds with
  | case1 a b c d ds ih =>
      simp only [List.mem_cons, not_or] at h ih
      have ha : (a != ',') = true := by simpa using Ne.symm h.1
      have hb : (b != ',') = true := by simpa using Ne.symm h.2.1
      have hc : (c != ',') = true := by simpa using Ne.symm h.2.2.1
      simp [ha, hb, hc, ih ⟨h.2.2.2.1, h.2.2.2.2⟩]
  | case2 ds => exact keep ds h

/-- The digits with at least one before the point. -/
def fixedDigits (places : Nat) (d : Decimal) : List Char :=
  let ds := digitsOf (d.unitsAt places)
  List.replicate (places + 1 - ds.length) '0' ++ ds

def withSign (d : Decimal) (cs : List Char) : String :=
  String.ofList (if d.negative then '-' :: cs else cs)

def fractionText (ds : List Char) : List Char :=
  if ds = [] then [] else '.' :: ds

/-- A sign stays on a number that rounds to zero. -/
def fixedText (places : Nat) (d : Decimal) : String :=
  let ds := fixedDigits places d
  let whole := ds.length - places
  withSign d (ds.take whole ++ fractionText (ds.drop whole))

def groupedText (places : Nat) (d : Decimal) : String :=
  let ds := fixedDigits places d
  let whole := ds.length - places
  withSign d ((groupThousands (ds.take whole).reverse).reverse ++ fractionText (ds.drop whole))

end Payroll.Decimal
