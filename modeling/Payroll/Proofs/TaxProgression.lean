import Mathlib
import Payroll.Proofs.BracketLookup
import Payroll.Proofs.FormulaExact
import Payroll.Proofs.RoundingOutcomes

/-!
Tables on which the tax never falls. The tax by one row grows with the base, and a row whose fee continues
the row before it owes at least what that row owes at its end. Fees are compared by their difference in
ordinary arithmetic, which loses what is not more than half of the least number; rounding to places shows
this only if a half of it was rounded up to a whole place.
-/

namespace Payroll

open Decimal (Context Rounding ordinary)
open Result Record

namespace RoundingMethod

variable {method : RoundingMethod} {places : Nat} {x y : ℚ}

/-- Numbers below half of a place are rounded to zero, but up to one by `CEIL`. -/
theorem exact_le_of_small (hx : 0 ≤ x) (hsmall : x * 10 ^ places < 1 / 2) (hy : 0 ≤ y)
    (hceil : method = .ceil → 0 < x → 0 < y) : method.exact places x ≤ method.exact places y := by
  have hpos : (0 : ℚ) < 10 ^ places := by positivity
  have hzero {m : RoundingMethod} (hm : m.nearest (x * 10 ^ places) ≤ 0) :
      m.exact places x ≤ m.exact places y := by
    have hnonneg : 0 ≤ m.exact places y := by
      rw [← exact_zero m places]
      exact m.exact_mono places hy
    refine le_trans ?_ hnonneg
    exact div_nonpos_of_nonpos_of_nonneg (by exact_mod_cast hm) hpos.le
  have hx' : 0 ≤ x * 10 ^ places := mul_nonneg hx hpos.le
  have hfloor {z : ℚ} (hz : z < 1) : ⌊z⌋ ≤ 0 := Int.lt_add_one_iff.1 (Int.floor_lt.2 (by simpa using hz))
  cases method with
  | round =>
      refine hzero ?_
      rw [nearest, Rounding.nearest, if_pos hx']
      exact hfloor (by linarith)
  | floor => exact hzero (hfloor (by linarith))
  | halfUp => exact hzero (hfloor (by linarith))
  | halfEven =>
      refine hzero ?_
      rw [nearest, Rounding.nearest]
      split <;> exact hfloor (by linarith)
  | ceil =>
      rcases hx.eq_or_lt with rfl | hlt
      · exact (exact_mono _ places) hy
      · have hone : ⌈x * 10 ^ places⌉ ≤ 1 := Int.ceil_le.2 (by push_cast; linarith)
        have hraised : 1 ≤ ⌈y * 10 ^ places⌉ := Int.one_le_ceil_iff.2 (mul_pos (hceil rfl hlt) hpos)
        refine div_le_div_of_nonneg_right ?_ hpos.le
        exact_mod_cast hone.trans hraised

theorem seen_of_nonneg {ctx : Context} {d : Decimal} (method : RoundingMethod) (h : 0 ≤ d.value) :
    method.seen ctx d = d.value := if_neg fun hneg => hneg.2.not_ge h

theorem lt_half_of_lt (hplaces : places ≤ maxPlaces)
    (h : x < 10 ^ (ordinary.tiny + ordinary.precision + 1)) : x * 10 ^ places < 1 / 2 := by
  have hpos : (0 : ℚ) < 10 ^ places := by positivity
  have hsum : (10 : ℚ) ^ (ordinary.tiny + ordinary.precision + 1) * 10 ^ places ≤ 10 ^ (-1 : Int) := by
    rw [← zpow_natCast, ← zpow_add₀ (by norm_num)]
    refine zpow_le_zpow_right₀ (by norm_num) ?_
    change (-1000026 : Int) + 28 + 1 + places ≤ -1
    simp only [maxPlaces] at hplaces
    omega
  exact (mul_lt_mul_of_pos_right h hpos).trans_le (hsum.trans (by norm_num))

/-- A fee that continues more than nothing and is rounded away is half of the least number. -/
theorem eq_half_of_rounded_nonpos {fee due : ℚ} (hdue : ordinary.Represents due) (hpos : 0 < due)
    (hnear : |fee - due| ≤ 10 ^ ordinary.tiny / 2) (h : ordinary.rounded fee ≤ 0) :
    fee = 10 ^ ordinary.tiny / 2 := by
  obtain ⟨m, hm⟩ := Context.exists_int_of_represents hdue (le_max_right _ _)
  have hunit := Decimal.le_abs_of_int hm hpos.ne'
  rw [abs_of_pos hpos] at hunit
  have hunitpos := Decimal.ten_zpow_pos ordinary.tiny
  have hlow := (abs_le.1 hnear).1
  have hfee : 0 ≤ fee := by linarith
  have hmost := Context.abs_le_of_rounded_eq_zero (by decide)
    (le_antisymm h (Context.rounded_nonneg hfee))
  rw [abs_of_nonneg hfee] at hmost
  linarith

/-- What a fee that is lost in a difference leaves is not seen after rounding to places. -/
theorem exact_le_of_near {fee due : ℚ} (hplaces : places ≤ maxPlaces) (hx : 0 ≤ x) (hle : x ≤ due)
    (hdue : ordinary.Represents due) (hnear : |fee - due| ≤ 10 ^ ordinary.tiny / 2)
    (hhalf : method = .ceil → fee ≠ 10 ^ ordinary.tiny / 2) (hy : ordinary.rounded fee ≤ y)
    (hynonneg : 0 ≤ y) : method.exact places x ≤ method.exact places y := by
  rcases le_or_gt (10 ^ (ordinary.tiny + ordinary.precision + 1)) due with hlarge | hsmall
  · have hlow := (abs_le.1 hnear).1
    have hkept := Context.le_rounded_of_near (y := fee) (by decide) hdue hlarge (by linarith)
    exact method.exact_mono places (hle.trans (hkept.trans hy))
  · have hbelow := lt_half_of_lt hplaces (hle.trans_lt hsmall)
    refine exact_le_of_small hx hbelow hynonneg fun hceil hpos => ?_
    refine lt_of_le_of_ne hynonneg fun hzero => hhalf hceil ?_
    exact eq_half_of_rounded_nonpos hdue (hpos.trans_le hle) hnear (hy.trans hzero.ge)

end RoundingMethod

theorem RoundingPolicy.value_of_apply {policy : RoundingPolicy} {d r : Decimal}
    (h : policy.apply d = .ok r) (hd : 0 ≤ d.value) :
    r.value = policy.method.exact policy.places d.value := by
  obtain ⟨ctx, -, hr⟩ := value_of_roundTo Context.standard_ordinary (by decide) policy.bounded h
  rwa [RoundingMethod.seen_of_nonneg _ hd] at hr

namespace Isr

/-- The tax on a base by one row, before it is rounded to places. -/
def owed (row : IsrBracket) (b : ℚ) : ℚ :=
  ordinary.rounded (row.terms.fixedFee.value +
    ordinary.rounded (max 0 (ordinary.rounded (b - row.lower.value)) * row.terms.rate.value))

/-- The fee of the next row is the tax at its start, as far as their difference tells. -/
def Continues (row next : IsrBracket) : Prop :=
  ∃ due, continued row next = .ok due ∧
    |next.terms.fixedFee.value - due.value| ≤ 10 ^ ordinary.tiny / 2

variable {row next : IsrBracket} {rows : List IsrBracket} {policy : RoundingPolicy}
  {table : BracketTable IsrTerms} {z b b' : Decimal} {a a' : Amount} {r r' : IsrResult}
  {x y : ℚ} {i j : Nat}

theorem terms_range_of_load {j : Json} (h : Bracket.load j = .ok row) :
    0 ≤ row.terms.fixedFee.value ∧ 0 ≤ row.terms.rate.value ∧ row.terms.rate.value ≤ 1 := by
  obtain ⟨-, fs, hrun⟩ := Bracket.readable_of_load h
  rw [FieldReader.run_eq_ok] at hrun
  unfold BracketTerms.reader instBracketTermsIsrTerms at hrun
  simp only at hrun
  rw [FieldReader.exists_run_seq, FieldReader.exists_run_map] at hrun
  obtain ⟨_, hfee, _, hrate, he⟩ := hrun
  obtain ⟨_, -, hfee⟩ := required_eq_ok.1 hfee
  obtain ⟨_, -, hrate⟩ := required_eq_ok.1 hrate
  obtain ⟨hrate, hnonneg⟩ := bounded_eq_ok.1 hrate
  have hone : (1 : Decimal).value = 1 := (Decimal.value_mk 1 0).trans (by norm_num)
  rw [← he, ← hone, ← Decimal.value_zero']
  exact ⟨Decimal.le_iff.1 (bounded_eq_ok.1 hfee).2, Decimal.le_iff.1 hnonneg,
    Decimal.le_iff.1 (bounded_eq_ok.1 hrate).2⟩

theorem terms_nonneg_of_load {j : Json} (h : Bracket.load j = .ok row) :
    0 ≤ row.terms.fixedFee.value ∧ 0 ≤ row.terms.rate.value := by
  obtain ⟨hfee, hrate, -⟩ := terms_range_of_load h
  exact ⟨hfee, hrate⟩

theorem terms_nonneg_of_rows (hrows : ∀ row ∈ table.rows, ∃ j, Bracket.load j = .ok row)
    (hrow : table.rows[i]? = some row) :
    0 ≤ row.terms.fixedFee.value ∧ 0 ≤ row.terms.rate.value := by
  obtain ⟨j, hj⟩ := hrows row (List.mem_of_getElem? hrow)
  exact terms_nonneg_of_load hj

section Row

variable (hrow : 0 ≤ row.terms.fixedFee.value ∧ 0 ≤ row.terms.rate.value)

include hrow

theorem owed_mono : Monotone (owed row) := by
  have hprecision : 0 < ordinary.precision := by decide
  intro x y h
  have hexcess := Context.rounded_mono hprecision (sub_le_sub_right h row.lower.value)
  have hmarginal := mul_le_mul_of_nonneg_right (max_le_max_left 0 hexcess) hrow.2
  exact Context.rounded_mono hprecision
    (add_le_add_right (Context.rounded_mono hprecision hmarginal) _)

theorem rounded_fee_le_owed (x : ℚ) : ordinary.rounded row.terms.fixedFee.value ≤ owed row x :=
  Context.rounded_mono (by decide) (le_add_of_nonneg_right
    (Context.rounded_nonneg (mul_nonneg (le_max_left 0 _) hrow.2)))

theorem owed_nonneg (x : ℚ) : 0 ≤ owed row x :=
  (Context.rounded_nonneg hrow.1).trans (rounded_fee_le_owed hrow x)

end Row

/-- What a tax is computed from: the row of the base, the excess over its lower limit, and the tax on it and
the whole tax before they are rounded to places. -/
structure Assessed (policy : RoundingPolicy) (table : BracketTable IsrTerms) (b : Decimal) (r : IsrResult) :
    Prop where
  base : 0 ≤ b.value
  row : r.row = table.position b
  fixedFee : r.fixedFee = (table.rowFor b).terms.fixedFee
  rate : r.rate = (table.rowFor b).terms.rate
  excess : r.excess.value = max 0 (ordinary.rounded (b.value - (table.rowFor b).lower.value))
  marginal : ∃ d, policy.apply d = .ok r.marginal ∧
    d.value = ordinary.rounded (r.excess.value * r.rate.value)
  isr : ∃ d, policy.apply d = .ok r.isr ∧
    d.value = ordinary.rounded (r.fixedFee.value + ordinary.rounded (r.excess.value * r.rate.value))

theorem assessed_of_calculate (h : calculate policy table a = .ok r) :
    ∃ b, a.toDecimal = .ok b ∧ Assessed policy table b r := by
  have hprecision : 0 < ordinary.precision := by decide
  obtain ⟨m, hm, h⟩ := bind_eq_ok.1 h
  obtain ⟨b, hb, hnonneg, rfl⟩ := BracketTable.exists_base_of_find hm
  obtain ⟨excess, hexcess, h⟩ := bind_eq_ok.1 h
  obtain ⟨left, hleft, hexcess⟩ := bind_eq_ok.1 hexcess
  obtain ⟨marginal, hmarginal, h⟩ := bind_eq_ok.1 h
  obtain ⟨rounded, hrounded, h⟩ := bind_eq_ok.1 h
  obtain ⟨total, htotal, h⟩ := bind_eq_ok.1 h
  obtain ⟨isr, hisr, h⟩ := bind_eq_ok.1 h
  cases h
  have hleft := Context.value_of_sub hprecision (signal_eq_ok.1 hleft)
  have hmarginal := Context.value_of_mul hprecision (signal_eq_ok.1 hmarginal)
  have htotal := Context.value_of_add hprecision (signal_eq_ok.1 htotal)
  refine ⟨b, hb, hnonneg, rfl, rfl, rfl, ?_, ⟨marginal, hrounded, hmarginal⟩, total, hisr, ?_⟩
  · rw [← pure_eq_ok.1 hexcess, Decimal.value_max2, Decimal.value_zero', hleft]
  · rw [htotal, hmarginal]

theorem value_of_calculate (ha : a.toDecimal = .ok b) (h : calculate policy table a = .ok r) :
    ∃ d, policy.apply d = .ok r.isr ∧ d.value = owed (table.rowFor b) b.value := by
  obtain ⟨b', hb', hr⟩ := assessed_of_calculate h
  obtain rfl : b = b' := Except.ok.inj (ha.symm.trans hb')
  obtain ⟨d, hd, hvalue⟩ := hr.isr
  exact ⟨d, hd, by rw [hvalue, hr.fixedFee, hr.rate, hr.excess, owed]⟩

/-- The tax is what the row of the base owes, rounded to places. -/
theorem value_of_isr (hrows : ∀ row ∈ table.rows, ∃ j, Bracket.load j = .ok row)
    (ha : a.toDecimal = .ok b) (h : calculate policy table a = .ok r) :
    0 ≤ owed (table.rowFor b) b.value ∧
      r.isr.value = policy.method.exact policy.places (owed (table.rowFor b) b.value) := by
  have hnonneg := owed_nonneg (terms_nonneg_of_rows hrows (table.getElem?_position b)) b.value
  obtain ⟨d, hd, hvalue⟩ := value_of_calculate ha h
  rw [← hvalue] at hnonneg ⊢
  exact ⟨hnonneg, RoundingPolicy.value_of_apply hd hnonneg⟩

theorem value_of_continued {due : Decimal} (hlower : row.lower.value ≤ next.lower.value)
    (h : continued row next = .ok due) :
    due.value = owed row next.lower.value ∧ ordinary.Represents due.value := by
  have hprecision : 0 < ordinary.precision := by decide
  obtain ⟨width, hwidth, h⟩ := bind_eq_ok.1 h
  obtain ⟨marginal, hmarginal, h⟩ := bind_eq_ok.1 h
  have hdue := signal_eq_ok.1 h
  refine ⟨?_, Context.represents_of_add hprecision Context.standard_ordinary hdue⟩
  rw [Context.value_of_add hprecision hdue, Context.value_of_mul hprecision (signal_eq_ok.1 hmarginal),
    Context.value_of_sub hprecision (signal_eq_ok.1 hwidth), owed,
    max_eq_right (Context.rounded_nonneg (sub_nonneg.2 hlower))]

theorem continues_of_progressionFrom (hz : z.value = 0) (h : progressionFrom z i rows = .ok []) :
    rows.IsChain Continues := by
  have hprecision : 0 < ordinary.precision := by decide
  fun_induction progressionFrom z i rows with
  | case1 i row next rows ih =>
      obtain ⟨due, hdue, h⟩ := bind_eq_ok.1 h
      obtain ⟨difference, hdifference, h⟩ := bind_eq_ok.1 h
      obtain ⟨gap, hgap, h⟩ := bind_eq_ok.1 h
      obtain ⟨rest, hrest, h⟩ := bind_eq_ok.1 h
      have hlist := pure_eq_ok.1 h
      split at hlist
      · cases hlist
      · next hsound =>
        subst hlist
        refine .cons_cons ⟨due, hdue, ?_⟩ (ih hrest)
        simp only [Bool.or_eq_true, not_or] at hsound
        have hnone : gap.value ≤ 0 := hz ▸ not_lt.1 (mt Decimal.lt_iff.2 hsound.1)
        have hdifference := signal_eq_ok.1 hdifference
        have hheld := Context.represents_of_add hprecision Context.standard_ordinary hdifference
        rw [Context.value_of_abs hprecision (signal_eq_ok.1 hgap), Context.rounded_abs,
          Context.rounded_of_represents hheld, abs_nonpos_iff,
          Context.value_of_sub hprecision hdifference] at hnone
        exact Context.abs_le_of_rounded_eq_zero hprecision hnone
  | case2 rows i hshort =>
      match rows with
      | [] => exact .nil
      | [row] => exact .singleton row
      | row :: next :: rows => exact (hshort row next rows rfl).elim

/-- At its start and after it, the next row owes at least what the row owes there. -/
theorem exact_owed_le {method : RoundingMethod} {places : Nat} (hplaces : places ≤ maxPlaces)
    (hprecedes : row.Precedes next) (hcontinues : Continues row next)
    (hrow : 0 ≤ row.terms.fixedFee.value ∧ 0 ≤ row.terms.rate.value)
    (hnext : 0 ≤ next.terms.fixedFee.value ∧ 0 ≤ next.terms.rate.value)
    (hhalf : method = .ceil → next.terms.fixedFee.value ≠ 10 ^ ordinary.tiny / 2) (y : ℚ) :
    method.exact places (owed row next.lower.value) ≤ method.exact places (owed next y) := by
  obtain ⟨due, hdue, hnear⟩ := hcontinues
  obtain ⟨hvalue, hheld⟩ := value_of_continued hprecedes.above.le hdue
  exact RoundingMethod.exact_le_of_near hplaces (owed_nonneg hrow _) hvalue.ge hheld hnear hhalf
    (rounded_fee_le_owed hnext y) (owed_nonneg hnext y)

section Table

variable {method : RoundingMethod} {places : Nat} (hplaces : places ≤ maxPlaces)
  (hrows : ∀ row ∈ table.rows, ∃ j, Bracket.load j = .ok row)
  (hchain : table.rows.IsChain Continues)
  (hhalf : method = .ceil → ∀ row ∈ table.rows.tail,
    row.terms.fixedFee.value ≠ 10 ^ ordinary.tiny / 2)

include hplaces hrows hchain hhalf

theorem exact_owed_le_next (hrow : table.rows[i]? = some row) (hnext : table.rows[i + 1]? = some next)
    (y : ℚ) : method.exact places (owed row next.lower.value) ≤ method.exact places (owed next y) := by
  have hcontinues : Continues row next := by
    obtain ⟨hi, rfl⟩ := List.getElem?_eq_some_iff.1 hnext
    obtain ⟨-, rfl⟩ := List.getElem?_eq_some_iff.1 hrow
    exact List.isChain_iff_getElem.1 hchain i hi
  refine exact_owed_le hplaces (BracketTable.precedes hrow hnext) hcontinues
    (terms_nonneg_of_rows hrows hrow) (terms_nonneg_of_rows hrows hnext)
    (fun hceil => hhalf hceil next (List.mem_of_getElem? (i := i) ?_)) y
  rwa [List.getElem?_tail]

/-- A later row owes at least what a row owes up to the start of the next one: by induction on the later
row, which is compared with the one before it at its own start. -/
theorem exact_owed_later (hrow : table.rows[i]? = some row)
    (hx : ∀ next ∈ table.rows[i + 1]?, x ≤ next.lower.value) (hij : i < j)
    (hnext : table.rows[j]? = some next) (y : ℚ) :
    method.exact places (owed row x) ≤ method.exact places (owed next y) := by
  have hstep {k : Nat} {row next : IsrBracket} (hrow : table.rows[k]? = some row)
      (hnext : table.rows[k + 1]? = some next) (y : ℚ) :=
    exact_owed_le_next hplaces hrows hchain hhalf hrow hnext y
  induction j, hij using Nat.le_induction generalizing next y with
  | base =>
      have hmono := owed_mono (terms_nonneg_of_rows hrows hrow) (hx next hnext)
      exact (method.exact_mono places hmono).trans (hstep hrow hnext y)
  | succ k hk ih =>
      obtain ⟨before, hbefore⟩ : ∃ before, table.rows[k]? = some before := by
        have hlast := (List.getElem?_eq_some_iff.1 hnext).1
        exact ⟨_, List.getElem?_eq_getElem (by omega)⟩
      exact (ih hbefore next.lower.value).trans (hstep hbefore hnext y)

end Table

/-- On a table without progression issues the tax is never negative and never falls. The check with
tolerance zero misses a fee of half of the least number, which `CEIL` shows; no other fee has to be left
out. -/
theorem calculate_mono (hrows : ∀ row ∈ table.rows, ∃ j, Bracket.load j = .ok row)
    {tolerance : Amount} (htolerance : tolerance.toDecimal = .ok z) (hz : z.value = 0)
    (hprogression : progression tolerance table = .ok [])
    (hhalf : policy.method = .ceil → ∀ row ∈ table.rows.tail,
      row.terms.fixedFee.value ≠ 10 ^ ordinary.tiny / 2)
    (ha : a.toDecimal = .ok b) (ha' : a'.toDecimal = .ok b') (hle : b.value ≤ b'.value)
    (h : calculate policy table a = .ok r) (h' : calculate policy table a' = .ok r') :
    0 ≤ r.isr.value ∧ r.isr.value ≤ r'.isr.value := by
  have hchain : table.rows.IsChain Continues := by
    obtain ⟨z', hz', hprogression⟩ := bind_eq_ok.1 hprogression
    obtain rfl : z = z' := Except.ok.inj (htolerance.symm.trans hz')
    exact continues_of_progressionFrom hz hprogression
  obtain ⟨hnonneg, hr⟩ := value_of_isr hrows ha h
  obtain ⟨-, hr'⟩ := value_of_isr hrows ha' h'
  rw [hr, hr']
  constructor
  · rw [← exact_zero policy.method policy.places]
    exact policy.method.exact_mono _ hnonneg
  · have hfound := table.getElem?_position b
    have hfound' := table.getElem?_position b'
    rcases (table.position_mono hle).eq_or_lt with heq | hlt
    · rw [heq] at hfound
      have hsame : table.rowFor b' = table.rowFor b := Option.some.inj (hfound'.symm.trans hfound)
      rw [hsame]
      exact policy.method.exact_mono _ (owed_mono (terms_nonneg_of_rows hrows hfound) hle)
    · have howns := (table.owns_iff b _).2 rfl
      exact exact_owed_later policy.bounded hrows hchain hhalf hfound
        (fun next hnext => (howns.below_next next hnext).le) hlt hfound' _

/-- Three rows, the last two of which start a cent above the end of the row before. -/
def continuous : BracketTable IsrTerms where
  name := "ISR"
  rows := [⟨0, some 100, ⟨0, 0.1⟩⟩, ⟨100.01, some 200, ⟨10.001, 0.2⟩⟩, ⟨200.01, none, ⟨30.001, 0.3⟩⟩]
  sound := ok_of_toOption (by decide +kernel)

def upToCents : RoundingPolicy := { RoundingPolicy.standard with method := .ceil }

/-- From the cent between the first two rows to the start of the last. -/
theorem continuous_mono : progression (.given (.int 0)) continuous = .ok [] ∧
    ∃ r r', calculate upToCents continuous (.given (.text "100.005")) = .ok r ∧
      calculate upToCents continuous (.given (.text "200.01")) = .ok r' ∧
      0 ≤ r.isr.value ∧ r.isr.value ≤ r'.isr.value := by
  have hprogression : progression (.given (.int 0)) continuous = .ok [] :=
    ok_of_toOption (by decide +kernel)
  have hrows : ∀ row ∈ continuous.rows, ∃ j, Bracket.load j = .ok row := by
    have hload : ∀ row ∈ continuous.rows, (Bracket.load row.toJson).toOption = some row := by
      decide +kernel
    exact fun row hrow => ⟨row.toJson, ok_of_toOption (hload row hrow)⟩
  have hhalf : ∀ row ∈ continuous.rows.tail,
      row.terms.fixedFee.value ≠ 10 ^ ordinary.tiny / 2 := by
    have hfee : ∀ row ∈ continuous.rows.tail, (⟨false, 1, 0⟩ : Decimal).le row.terms.fixedFee := by
      decide +kernel
    have hone : (⟨false, 1, 0⟩ : Decimal).value = 10 ^ (0 : Int) := by
      rw [Decimal.value_mk, Nat.cast_one, one_mul]
    have htiny : (10 : ℚ) ^ ordinary.tiny ≤ 10 ^ (0 : Int) :=
      zpow_le_zpow_right₀ (by norm_num) (by decide)
    have hpos := Decimal.ten_zpow_pos ordinary.tiny
    intro row hrow
    have hlarge := hone ▸ Decimal.le_iff.1 (hfee row hrow)
    linarith
  have hz : (Amount.given (.int 0)).toDecimal = .ok 0 := ok_of_toOption (by decide +kernel)
  have ha : (Amount.given (.text "100.005")).toDecimal = .ok 100.005 :=
    ok_of_toOption (by decide +kernel)
  have ha' : (Amount.given (.text "200.01")).toDecimal = .ok 200.01 :=
    ok_of_toOption (by decide +kernel)
  have hle : (100.005 : Decimal).value ≤ (200.01 : Decimal).value :=
    Decimal.le_iff.1 (by decide +kernel)
  obtain ⟨r, hr⟩ := Option.isSome_iff_exists.1 (show
    (calculate upToCents continuous (.given (.text "100.005"))).toOption.isSome by decide +kernel)
  obtain ⟨r', hr'⟩ := Option.isSome_iff_exists.1 (show
    (calculate upToCents continuous (.given (.text "200.01"))).toOption.isSome by decide +kernel)
  have hr := ok_of_toOption hr
  have hr' := ok_of_toOption hr'
  exact ⟨hprogression, r, r', hr, hr', calculate_mono hrows hz Decimal.value_zero' hprogression
    (fun _ => hhalf) ha ha' hle hr hr'⟩

/-- The second fee is half of the first, which is the least number. -/
def halvedFee : BracketTable IsrTerms where
  name := "ISR"
  rows := [⟨0, some 1, ⟨⟨false, 1, -1000026⟩, 0⟩⟩, ⟨1, none, ⟨⟨false, 5, -1000027⟩, 0⟩⟩]
  sound := ok_of_toOption (by decide +kernel)

/-- The difference of the fees is not seen, and the tax falls from a cent to nothing. -/
theorem halvedFee_falls : (∀ row ∈ halvedFee.rows, ∃ j, Bracket.load j = .ok row) ∧
    progression (.given (.int 0)) halvedFee = .ok [] ∧
    ∃ r r', calculate upToCents halvedFee (.given (.text "0.5")) = .ok r ∧
      calculate upToCents halvedFee (.given (.int 2)) = .ok r' ∧ r.isr = 0.01 ∧
      r'.isr = ⟨false, 0, -2⟩ ∧ r'.isr.value < r.isr.value := by
  refine ⟨?_, ok_of_toOption (by decide +kernel), ?_⟩
  · have hload : ∀ row ∈ halvedFee.rows, (Bracket.load row.toJson).toOption = some row := by
      decide +kernel
    exact fun row hrow => ⟨row.toJson, ok_of_toOption (hload row hrow)⟩
  · have hlow : (calculate upToCents halvedFee (.given (.text "0.5"))).toOption.map
        IsrResult.isr = some 0.01 := by decide +kernel
    have hhigh : (calculate upToCents halvedFee (.given (.int 2))).toOption.map
        IsrResult.isr = some ⟨false, 0, -2⟩ := by decide +kernel
    obtain ⟨r, hr, hisr⟩ := Option.map_eq_some_iff.1 hlow
    obtain ⟨r', hr', hisr'⟩ := Option.map_eq_some_iff.1 hhigh
    refine ⟨r, r', ok_of_toOption hr, ok_of_toOption hr', hisr, hisr', ?_⟩
    rw [hisr, hisr']
    exact Decimal.lt_iff.1 (by decide +kernel)

end Isr

end Payroll
