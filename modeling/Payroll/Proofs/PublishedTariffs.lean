import Mathlib
import Payroll.Proofs.RoundedValues
import Payroll.Proofs.TaxProgression

/-!
How far the tax can fall from one row to the next. Within a row it never falls, so that the tax before and
at the start of the next row bound what is lost there; the tax on bases two rows apart is in order if it is
at these starts. The fees of the published tariffs are rounded to cents, and at some starts the tax falls
by cents.
-/

namespace Payroll

open Decimal (Context ordinary)
open Result

namespace Isr

/-- The rounded tax before and at the start of a row. -/
structure Boundary where
  before : Decimal
  start : Decimal

def boundary (policy : RoundingPolicy) (row next : IsrBracket) : Except Fault Boundary := do
  let before ← policy.apply (← continued row next)
  let start ← policy.apply (← ordinary.add next.terms.fixedFee 0)
  pure ⟨before, start⟩

def boundaries (policy : RoundingPolicy) (rows : List IsrBracket) : Except Fault (List Boundary) :=
  (rows.zip rows.tail).mapM fun r => boundary policy r.1 r.2

/-- No tax up to a start is above the tax at a later start. -/
def Boundary.Below (s t : Boundary) : Prop :=
  s.before.value ≤ t.start.value ∧ s.start.value ≤ t.start.value

instance : DecidableRel Boundary.Below := fun _ _ => inferInstanceAs (Decidable (_ ∧ _))

instance : IsTrans Boundary Boundary.Below :=
  ⟨fun _ _ _ h h' => ⟨h.1.trans h'.2, h.2.trans h'.2⟩⟩

variable {row next : IsrBracket} {rows : List IsrBracket} {policy : RoundingPolicy}
  {table table' : BracketTable IsrTerms} {b b' : Decimal} {a a' : Amount} {r r' : IsrResult}
  {s t : Boundary} {ss : List Boundary} {i j : Nat}

/-- Bases, limits and fees up to this are far from the largest exponent. -/
def greatest : ℚ := 10 ^ (ordinary.maxExponent - 3)

/-- A row by which the tax on every base up to the greatest is within the exponents. -/
structure Moderate (row : IsrBracket) : Prop where
  lower : |row.lower.value| ≤ greatest
  fee : |row.terms.fixedFee.value| ≤ greatest
  rate : |row.terms.rate.value| ≤ 1

theorem exists_calculate (hrows : ∀ row ∈ table.rows, Moderate row) (ha : a.toDecimal = .ok b)
    (hb : 0 ≤ b.value) (hb' : b.value ≤ greatest) : ∃ r, calculate policy table a = .ok r := by
  have hs := Context.standard_ordinary
  have hprecision : 0 < ordinary.precision := by decide
  have hmax : ordinary.maxExponent = 999999 := rfl
  have htiny : ordinary.tiny = -1000026 := rfl
  obtain ⟨hlower, hfee, hrate⟩ := hrows _ (List.mem_of_getElem? (table.getElem?_position b))
  -- a difference and a sum may each be ten times larger, and the result has still to be rounded
  obtain ⟨e, he⟩ : ∃ e, e = ordinary.maxExponent - 3 := ⟨_, rfl⟩
  rw [greatest, ← he] at hlower hfee hb'
  have hpos := Decimal.ten_zpow_pos e
  have hten (e : Int) : (10 : ℚ) ^ (e + 1) = 10 * 10 ^ e := by rw [zpow_add_one₀ (by norm_num), mul_comm]
  have hexcess : |b.value - (table.rowFor b).lower.value| ≤ 10 ^ (e + 1) := by
    have := abs_sub b.value (table.rowFor b).lower.value
    rw [abs_of_nonneg hb] at this
    linarith [hten e]
  obtain ⟨left, hleft, hleftsize, -⟩ :=
    Context.yieldsWithin_sub hs hprecision (by omega) (by omega) hexcess
  have hmax2 : |(Decimal.max2 0 left).value| ≤ 10 ^ (e + 1) := by
    rcases Decimal.max2_eq_or 0 left with h | h
    · rw [h, Decimal.value_zero', abs_zero]
      positivity
    · rwa [h]
  have hproduct : |(Decimal.max2 0 left).value * (table.rowFor b).terms.rate.value| ≤ 10 ^ (e + 1) := by
    rw [abs_mul]
    exact (mul_le_of_le_one_right (abs_nonneg _) hrate).trans hmax2
  obtain ⟨marginal, hmarginal, hmarginalsize, hmarginaladj⟩ :=
    Context.yieldsWithin_mul hs hprecision (by omega) (by omega) hproduct
  have hsum : |(table.rowFor b).terms.fixedFee.value + marginal.value| ≤ 10 ^ (e + 1 + 1) := by
    have := abs_add_le (table.rowFor b).terms.fixedFee.value marginal.value
    linarith [hten e, hten (e + 1)]
  obtain ⟨total, htotal, htotalsize, htotaladj⟩ :=
    Context.yieldsWithin_add hs hprecision (by omega) (by omega) hsum
  have hround {d : Decimal} {k : Int} (hd : |d.value| ≤ 10 ^ k) (hk : k < ordinary.maxExponent)
      (hadjusted : d.adjusted ≤ ordinary.maxExponent) : ∃ r, policy.apply d = .ok r :=
    exists_roundTo_of_abs_lt hadjusted (hd.trans_lt (zpow_lt_zpow_right₀ (by norm_num) hk))
      policy.bounded policy.method
  obtain ⟨rounded, hrounded⟩ := hround hmarginalsize (by omega) hmarginaladj
  obtain ⟨isr, hisr⟩ := hround htotalsize (by omega) htotaladj
  exact ⟨_, bind_eq_ok.2 ⟨_, (BracketTable.find_eq_ok_iff ha).2 ⟨hb, rfl⟩, bind_eq_ok.2
    ⟨_, bind_eq_ok.2 ⟨left, signal_eq_ok.2 hleft, rfl⟩, bind_eq_ok.2 ⟨marginal, signal_eq_ok.2 hmarginal,
      bind_eq_ok.2 ⟨rounded, hrounded, bind_eq_ok.2 ⟨total, signal_eq_ok.2 htotal,
        bind_eq_ok.2 ⟨isr, hisr, rfl⟩⟩⟩⟩⟩⟩⟩

/-- Tables of the same rows give the same tax; only its table is named differently. -/
theorem calculate_of_rows (h : table'.rows = table.rows) : calculate policy table' a =
    (calculate policy table a).map fun r => { r with table := table'.name } := by
  obtain ⟨name, rows, sound⟩ := table
  obtain ⟨name', rows', sound'⟩ := table'
  obtain rfl : rows' = rows := h
  change _ = (fun r : IsrResult => { r with table := name' }) <$> calculate policy ⟨name, rows', sound⟩ a
  simp only [calculate, map_bind, map_pure]
  rfl

theorem row_of_calculate (ha : a.toDecimal = .ok b) (h : calculate policy table a = .ok r) :
    r.row = table.position b := by
  obtain ⟨b', hb', hr⟩ := assessed_of_calculate h
  obtain rfl : b = b' := Except.ok.inj (ha.symm.trans hb')
  exact hr.row

theorem boundaries_spec (h : boundaries policy rows = .ok ss) :
    ss.length = rows.length - 1 ∧ ∀ (i : Nat) (s : Boundary), ss[i]? = some s →
      ∃ row next, rows[i]? = some row ∧ rows[i + 1]? = some next ∧ boundary policy row next = .ok s := by
  have hall := forall₂_of_mapM h
  have hlength : (rows.zip rows.tail).length = rows.length - 1 := by
    rw [List.length_zip, List.length_tail]
    omega
  refine ⟨hall.length_eq.symm.trans hlength, fun i s hs => ?_⟩
  obtain ⟨hi, rfl⟩ := List.getElem?_eq_some_iff.1 hs
  have hi' := hall.length_eq ▸ hi
  have hboundary := (List.forall₂_iff_get.1 hall).2 i hi' hi
  simp only [List.get_eq_getElem, List.getElem_zip, List.getElem_tail] at hboundary
  exact ⟨_, _, List.getElem?_eq_getElem (by omega), List.getElem?_eq_getElem (by omega), hboundary⟩

section Loaded

variable (hrows : ∀ row ∈ table.rows, ∃ j, Bracket.load j = .ok row)

include hrows

/-- What a row owes stays between the tax at its start and the tax before the next. -/
theorem isr_between (hss : boundaries policy table.rows = .ok ss) (hs : ss[i]? = some s)
    (ha : a.toDecimal = .ok b) (h : calculate policy table a = .ok r) :
    (r.row = i → r.isr.value ≤ s.before.value) ∧ (r.row = i + 1 → s.start.value ≤ r.isr.value) := by
  have hprecision : 0 < ordinary.precision := by decide
  obtain ⟨row, next, hrow, hnext, hs⟩ := (boundaries_spec hss).2 i s hs
  obtain ⟨due, hdue, hs⟩ := bind_eq_ok.1 hs
  obtain ⟨before, hbefore, hs⟩ := bind_eq_ok.1 hs
  obtain ⟨fee, hfee, hs⟩ := bind_eq_ok.1 hs
  obtain ⟨start, hstart, hs⟩ := bind_eq_ok.1 hs
  cases hs
  have hterms := terms_nonneg_of_rows hrows hrow
  have hterms' := terms_nonneg_of_rows hrows hnext
  obtain ⟨-, hr⟩ := value_of_isr hrows ha h
  have hposition := row_of_calculate ha h
  have hfound := table.getElem?_position b
  rw [hr]
  constructor <;> intro hi <;> rw [← hposition, hi] at hfound
  · obtain rfl : row = table.rowFor b := Option.some.inj (hrow.symm.trans hfound)
    have hbelow := ((table.owns_iff b i).2 (hi.symm.trans hposition)).below_next next hnext
    obtain ⟨hvalue, -⟩ := value_of_continued (BracketTable.precedes hrow hnext).above.le hdue
    rw [RoundingPolicy.value_of_apply hbefore (hvalue ▸ owed_nonneg hterms _), hvalue]
    exact policy.method.exact_mono _ (owed_mono hterms hbelow.le)
  · obtain rfl : next = table.rowFor b := Option.some.inj (hnext.symm.trans hfound)
    have hvalue := Context.value_of_add hprecision (signal_eq_ok.1 hfee)
    rw [Decimal.value_zero', add_zero] at hvalue
    rw [RoundingPolicy.value_of_apply hstart (hvalue ▸ Context.rounded_nonneg hterms'.1), hvalue]
    exact policy.method.exact_mono _ (rounded_fee_le_owed hterms' _)

/-- The tax falls from a row to the next one at most, and there by no more than at the start. -/
theorem isr_le_or_next (hss : boundaries policy table.rows = .ok ss) (hchain : ss.IsChain Boundary.Below)
    (ha : a.toDecimal = .ok b) (ha' : a'.toDecimal = .ok b') (hle : b.value ≤ b'.value)
    (h : calculate policy table a = .ok r) (h' : calculate policy table a' = .ok r') :
    r.isr.value ≤ r'.isr.value ∨ r'.row = r.row + 1 ∧ ∃ s ∈ ss[r.row]?,
      r.isr.value ≤ s.before.value ∧ s.start.value ≤ r'.isr.value := by
  have hrow := row_of_calculate ha h
  have hrow' := row_of_calculate ha' h'
  have hlast := table.position_lt b'
  have hlength := (boundaries_spec hss).1
  rcases (table.position_mono hle).eq_or_lt with heq | hlt
  · left
    obtain ⟨-, hr⟩ := value_of_isr hrows ha h
    obtain ⟨-, hr'⟩ := value_of_isr hrows ha' h'
    have hfound := table.getElem?_position b
    have hsame : table.rowFor b' = table.rowFor b :=
      Option.some.inj ((table.getElem?_position b').symm.trans (heq ▸ hfound))
    rw [hr, hr', hsame]
    exact policy.method.exact_mono _ (owed_mono (terms_nonneg_of_rows hrows hfound) hle)
  · obtain ⟨s, hs⟩ : ∃ s, ss[r.row]? = some s := ⟨_, List.getElem?_eq_getElem (by omega)⟩
    obtain ⟨t, ht⟩ : ∃ t, ss[r'.row - 1]? = some t := ⟨_, List.getElem?_eq_getElem (by omega)⟩
    have hbefore := (isr_between hrows hss hs ha h).1 rfl
    have hstart := (isr_between hrows hss ht ha' h').2 (by omega)
    rcases (show r.row + 1 ≤ r'.row by omega).eq_or_lt with hnext | hlater
    · rw [← hnext, Nat.add_sub_cancel, hs] at ht
      obtain rfl : s = t := Option.some.inj ht
      exact .inr ⟨hnext.symm, s, hs, hbefore, hstart⟩
    · left
      -- the rows between start above the tax before the first of them
      obtain ⟨hi, rfl⟩ := List.getElem?_eq_some_iff.1 hs
      obtain ⟨hj, rfl⟩ := List.getElem?_eq_some_iff.1 ht
      have hbelow := List.pairwise_iff_getElem.1 (List.isChain_iff_pairwise.1 hchain) _ _ hi hj (by omega)
      exact hbefore.trans (hbelow.1.trans hstart)

end Loaded

end Isr

namespace Published

open Isr

theorem issues_weekly : BracketTable.issues weeklyIsr = .ok [] := ok_of_toOption (by decide +kernel)

theorem issues_biweekly : BracketTable.issues biweeklyIsr = .ok [] := ok_of_toOption (by decide +kernel)

theorem issues_monthly : BracketTable.issues monthlyIsr = .ok [] := ok_of_toOption (by decide +kernel)

def tariff : PeriodKind → BracketTable IsrTerms
  | .weekly => ⟨"ISR_WEEKLY_2025", weeklyIsr, issues_weekly⟩
  | .biweekly => ⟨"ISR_BIWEEKLY_2025", biweeklyIsr, issues_biweekly⟩
  | .monthly => ⟨"ISR_MONTHLY_2025", monthlyIsr, issues_monthly⟩

/-- The most cents by which the tax falls from each row to the next. -/
def falls : PeriodKind → List Nat
  | .weekly => [1, 0, 0, 4, 1, 0, 0, 5, 0, 5]
  | .biweekly => [2, 0, 0, 8, 3, 0, 0, 11, 0, 11]
  | .monthly => [0, 0, 0, 0, 0, 0, 1, 0, 1, 0]

def fall (kind : PeriodKind) (i j : Nat) : Nat := if j = i + 1 then (falls kind).getD i 0 else 0

/-- So close to a limit that the excess over the row before is rounded to its width. -/
def justBelow (d : Decimal) : Decimal := ⟨d.negative, d.coefficient * pow10 28 - 1, d.exponent - 28⟩

theorem rows_eq_tariff {year : Nat} {set : TableSet} {kind : PeriodKind} {rows : List IsrBracket}
    (hset : (year, set) ∈ all) (hrows : (kind, rows) ∈ set.isr) :
    (kind, rows) ∈ tables2025.isr ∧ rows = (tariff kind).rows := by
  have hisr : (kind, rows) ∈ tables2025.isr := by
    rcases List.mem_cons.1 hset with h | h
    · cases h
      exact hrows
    · cases List.mem_singleton.1 h
      exact hrows
  refine ⟨hisr, ?_⟩
  simp only [tables2025, List.mem_cons, Prod.mk.injEq, List.not_mem_nil, or_false] at hisr
  rcases hisr with ⟨rfl, rfl⟩ | ⟨rfl, rfl⟩ | ⟨rfl, rfl⟩ <;> rfl

theorem mem_isr (kind : PeriodKind) : (kind, (tariff kind).rows) ∈ tables2025.isr := by
  cases kind with
  | weekly => exact .head _
  | biweekly => exact .tail _ (.head _)
  | monthly => exact .tail _ (.tail _ (.head _))

theorem load_tariff (kind : PeriodKind) : ∀ row ∈ (tariff kind).rows, ∃ j, Bracket.load j = .ok row :=
  fun row hrow => ⟨_, Record.load_eq_ok.2 (read_isr _ (mem_isr kind) row hrow)⟩

-- The rows of the tariffs are constants, and so are the tax at their starts and the falls there.
theorem moderate_isr : ∀ t ∈ tables2025.isr, ∀ row ∈ t.2, Moderate row := by
  have hrows : ∀ t ∈ tables2025.isr, ∀ row ∈ t.2,
      (0 ≤ row.lower.value ∧ row.lower.value ≤ 10 ^ 6) ∧
      (0 ≤ row.terms.fixedFee.value ∧ row.terms.fixedFee.value ≤ 10 ^ 6) ∧
      0 ≤ row.terms.rate.value ∧ row.terms.rate.value ≤ 1 := by
    decide +kernel
  have hsmall : (10 : ℚ) ^ 6 ≤ greatest := by
    rw [← zpow_natCast]
    exact zpow_le_zpow_right₀ (by norm_num) (by decide)
  intro t ht row hrow
  obtain ⟨⟨hlower, hlower'⟩, ⟨hfee, hfee'⟩, hrate, hrate'⟩ := hrows t ht row hrow
  refine ⟨?_, ?_, ?_⟩
  · rw [abs_of_nonneg hlower]
    exact hlower'.trans hsmall
  · rw [abs_of_nonneg hfee]
    exact hfee'.trans hsmall
  · rwa [abs_of_nonneg hrate]

theorem boundaries_isr : ∀ t ∈ tables2025.isr, ∃ ss ∈ (boundaries .standard t.2).toOption,
    ss.IsChain Boundary.Below ∧ List.Forall₂
      (fun s c => s.before.value ≤ s.start.value + ((c : Nat) : ℚ) / 100) ss (falls t.1) := by
  decide +kernel

theorem falls_attained : ∀ kind ∈ [PeriodKind.weekly, .biweekly, .monthly],
    ∀ next ∈ (tariff kind).rows.tail.zipIdx, 0 < fall kind next.2 (next.2 + 1) →
      (justBelow next.1.lower).value ≤ next.1.lower.value ∧
      ∃ r ∈ (calculate .standard (tariff kind) (justBelow next.1.lower)).toOption,
      ∃ r' ∈ (calculate .standard (tariff kind) next.1.lower).toOption,
        r.row = next.2 ∧ r'.row = next.2 + 1 ∧
          r.isr.value = r'.isr.value + (fall kind next.2 (next.2 + 1) : ℚ) / 100 := by
  decide +kernel

/-- The tax by a published tariff, rounded to cents, falls from a row to the next one at most, by no more
than a few cents, and at each of these starts it does fall by as much. -/
theorem tariff_falls {year : Nat} {set : TableSet} {kind : PeriodKind} {table : BracketTable IsrTerms}
    (hset : (year, set) ∈ all) (htable : (kind, table.rows) ∈ set.isr) :
    (∀ (a : Amount) (b : Decimal), a.toDecimal = .ok b → 0 ≤ b.value → b.value ≤ greatest →
      ∃ r, calculate .standard table a = .ok r) ∧
    (∀ (a a' : Amount) (b b' : Decimal) (r r' : IsrResult), a.toDecimal = .ok b →
      a'.toDecimal = .ok b' → b.value ≤ b'.value → calculate .standard table a = .ok r →
      calculate .standard table a' = .ok r' →
      r.isr.value ≤ r'.isr.value + (fall kind r.row r'.row : ℚ) / 100) ∧
    ∀ i, 0 < fall kind i (i + 1) → ∃ (b b' : Decimal) (r r' : IsrResult), b.value ≤ b'.value ∧
      calculate .standard table b = .ok r ∧ calculate .standard table b' = .ok r' ∧
      r.row = i ∧ r'.row = i + 1 ∧
      r.isr.value = r'.isr.value + (fall kind i (i + 1) : ℚ) / 100 := by
  have hloaded : ∀ row ∈ table.rows, ∃ j, Bracket.load j = .ok row :=
    fun row hrow => ⟨_, (readsBack_of_mem hset).isr _ htable row hrow⟩
  obtain ⟨hisr, hrows⟩ := rows_eq_tariff hset htable
  refine ⟨fun a b ha hb hb' => ?_, fun a a' b b' r r' ha ha' hle h h' => ?_, fun i hi => ?_⟩
  · exact exists_calculate (moderate_isr _ hisr) ha hb hb'
  · obtain ⟨ss, hss, hchain, hfalls⟩ := boundaries_isr _ hisr
    rcases isr_le_or_next hloaded (ok_of_toOption hss) hchain ha ha' hle h h' with
      hle | ⟨hnext, s, hs, hbefore, hstart⟩
    · exact hle.trans (le_add_of_nonneg_right (by positivity))
    · obtain ⟨hi, rfl⟩ := List.getElem?_eq_some_iff.1 hs
      have hi' := hfalls.length_eq ▸ hi
      have hfall := (List.forall₂_iff_get.1 hfalls).2 r.row hi hi'
      simp only [List.get_eq_getElem] at hfall
      rw [fall, if_pos hnext, List.getD_eq_getElem _ _ hi']
      linarith
  · have hkind : kind ∈ [PeriodKind.weekly, .biweekly, .monthly] := by cases kind <;> decide
    have hlength : i < (tariff kind).rows.tail.length := by
      have hfew : (falls kind).length = (tariff kind).rows.tail.length := by cases kind <;> rfl
      rw [fall, if_pos rfl] at hi
      by_contra hout
      rw [List.getD_eq_default _ _ (by omega)] at hi
      exact lt_irrefl 0 hi
    have hnext : ((tariff kind).rows.tail[i], i) ∈ (tariff kind).rows.tail.zipIdx :=
      List.mem_zipIdx_iff_getElem?.2 (List.getElem?_eq_getElem hlength)
    obtain ⟨hle, r, hr, r', hr', hrow, hrow', hvalue⟩ := falls_attained kind hkind _ hnext hi
    have hcalculate {d : Decimal} {r : IsrResult}
        (hr : r ∈ (calculate .standard (tariff kind) d).toOption) :
        calculate .standard table d = .ok { r with table := table.name } := by
      rw [calculate_of_rows hrows, ok_of_toOption hr]
      rfl
    exact ⟨_, _, _, _, hle, hcalculate hr, hcalculate hr', hrow, hrow', hvalue⟩

/-- The rate takes the first weekly row to half a cent above the next fee. -/
theorem weekly_falls : (2025, tables2025) ∈ all ∧
    (PeriodKind.weekly, (tariff .weekly).rows) ∈ tables2025.isr ∧
    ∃ r r', calculate .standard (tariff .weekly) (171.78 : Decimal) = .ok r ∧
      calculate .standard (tariff .weekly) (171.79 : Decimal) = .ok r' ∧
      (0 : ℚ) ≤ (171.78 : Decimal).value ∧ (171.78 : Decimal).value ≤ (171.79 : Decimal).value ∧
      r.isr = 3.30 ∧ r'.isr = 3.29 ∧ r'.isr.value < r.isr.value := by
  have hlow : (calculate .standard (tariff .weekly) (171.78 : Decimal)).toOption.map
      IsrResult.isr = some 3.30 := by decide +kernel
  have hhigh : (calculate .standard (tariff .weekly) (171.79 : Decimal)).toOption.map
      IsrResult.isr = some 3.29 := by decide +kernel
  obtain ⟨r, hr, hisr⟩ := Option.map_eq_some_iff.1 hlow
  obtain ⟨r', hr', hisr'⟩ := Option.map_eq_some_iff.1 hhigh
  refine ⟨List.mem_cons_self, mem_isr _, r, r', ok_of_toOption hr, ok_of_toOption hr',
    Decimal.value_nonneg rfl, Decimal.le_iff.1 (by decide +kernel), hisr, hisr', ?_⟩
  rw [hisr, hisr']
  exact Decimal.lt_iff.1 (by decide +kernel)

theorem weekly_falls_by_cent : fall .weekly 0 1 = 1 ∧
    (∃ r r', calculate .standard (tariff .weekly) (171.78 : Decimal) = .ok r ∧
      calculate .standard (tariff .weekly) (171.79 : Decimal) = .ok r' ∧
      r.isr.value ≤ r'.isr.value + (fall .weekly r.row r'.row : ℚ) / 100) ∧
    ∃ (b b' : Decimal) (r r' : IsrResult), b.value ≤ b'.value ∧
      calculate .standard (tariff .weekly) b = .ok r ∧
      calculate .standard (tariff .weekly) b' = .ok r' ∧ r.row = 0 ∧ r'.row = 1 ∧
      r.isr.value = r'.isr.value + (fall .weekly 0 1 : ℚ) / 100 := by
  have hset : (2025, tables2025) ∈ all := List.mem_cons_self
  obtain ⟨hexists, hfall, hattained⟩ := tariff_falls hset (mem_isr .weekly)
  have hsmall (d : Decimal) (hd : d.le (⟨false, 1, 3⟩ : Decimal)) : d.value ≤ greatest := by
    refine (Decimal.le_iff.1 hd).trans ?_
    rw [Decimal.value_mk, Nat.cast_one, one_mul]
    exact zpow_le_zpow_right₀ (by norm_num) (by decide)
  obtain ⟨r, hr⟩ := hexists (171.78 : Decimal) 171.78 rfl (Decimal.value_nonneg rfl)
    (hsmall _ (by decide +kernel))
  obtain ⟨r', hr'⟩ := hexists (171.79 : Decimal) 171.79 rfl (Decimal.value_nonneg rfl)
    (hsmall _ (by decide +kernel))
  have hle : (171.78 : Decimal).value ≤ (171.79 : Decimal).value := Decimal.le_iff.1 (by decide +kernel)
  exact ⟨rfl, ⟨r, r', hr, hr', hfall _ _ _ _ _ _ rfl rfl hle hr hr'⟩, hattained 0 (by decide)⟩

end Published

end Payroll
