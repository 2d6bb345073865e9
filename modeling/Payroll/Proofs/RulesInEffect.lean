import Mathlib
import Payroll.Proofs.CalendarOrder
import Payroll.Proofs.Resolution
import Payroll.Proofs.VersionChains

/-!
At most one version of each kind is in effect on a date: one for its year, one whose window holds
it, one without any restriction. The last date there is makes the exception, since a window without
an end is taken to stop before it where windows are compared, and to hold it where they are used.
-/

namespace Payroll

open Record

namespace Version

variable {d : Date} {v w : FormulaVersion} {rows : List FormulaVersion}

/-- The active versions with a start whose window holds a date. -/
def datedOn (rows : List FormulaVersion) (d : Date) : List FormulaVersion :=
  rows.filter fun v => v.active && v.validFrom.isSome && inWindow v d

/-- The active versions for all years and all dates. -/
def defaults (rows : List FormulaVersion) : List FormulaVersion :=
  rows.filter fun v => v.active && v.fiscalYear.isNone && v.validFrom.isNone

/-- Two windows without an end that hold the last date, on which one of them starts. -/
structure MeetOnLastDay (d : Date) (v w : FormulaVersion) : Prop where
  last : d = .latest
  openEnded : v.validTo = none ∧ w.validTo = none
  starts : v.validFrom = some .latest ∨ w.validFrom = some .latest

theorem inWindow_iff : inWindow v d = true ↔
    (∀ start ∈ v.validFrom, start.rank ≤ d.rank) ∧ ∀ stop ∈ v.validTo, d.rank < stop.rank := by
  rw [inWindow, Bool.and_eq_true]
  cases v.validFrom <;> cases v.validTo <;> simp [Date.orEqual_iff, Date.before_iff]

/-- A window that holds a date ends after it, unless that is the last one. -/
theorem lt_windowEnd (hd : d.year ≤ 9999) (h : inWindow v d = true) :
    d.rank < (windowEnd v.validTo).rank ∨ d = .latest ∧ v.validTo = none := by
  cases hv : v.validTo with
  | some stop => exact .inl ((inWindow_iff.1 h).2 stop hv)
  | none =>
      rcases (Date.rank_le_latest hd).lt_or_eq with hlt | heq
      · exact .inl hlt
      · exact .inr ⟨Date.rank_injective heq, rfl⟩

theorem validTo_of_latest (hy : ∀ stop ∈ v.validTo, stop.year ≤ 9999)
    (h : inWindow v .latest = true) : v.validTo = none := by
  apply Option.eq_none_iff_forall_not_mem.2
  intro stop hstop
  have hlt := (inWindow_iff.1 h).2 stop hstop
  exact absurd (Date.rank_le_latest (hy stop hstop)) (not_le.2 hlt)

/-- Windows that hold a common date are seen to meet, except on the last day. -/
theorem windowsMeet_eq_false {start start' : Date} (hd : d.year ≤ 9999)
    (hstart : v.validFrom = some start) (hstart' : w.validFrom = some start')
    (hv : inWindow v d = true) (hw : inWindow w d = true)
    (hy : ∀ stop ∈ v.validTo, stop.year ≤ 9999) (hy' : ∀ stop ∈ w.validTo, stop.year ≤ 9999) :
    windowsMeet start v.validTo start' w.validTo = false ↔ MeetOnLastDay d v w := by
  have hle := (inWindow_iff.1 hv).1 start hstart
  have hle' := (inWindow_iff.1 hw).1 start' hstart'
  rw [windowsMeet, Bool.and_eq_false_iff, ← Bool.not_eq_true, ← Bool.not_eq_true, Date.before_iff,
    Date.before_iff, not_lt, not_lt]
  constructor
  · rintro (hend | hend)
    · rcases lt_windowEnd hd hw with hlt | ⟨rfl, hopen⟩
      · omega
      · rw [hopen] at hend
        have he := Date.rank_injective (hle.antisymm hend)
        exact ⟨rfl, ⟨validTo_of_latest hy hv, hopen⟩, .inl (hstart.trans (congrArg some he))⟩
    · rcases lt_windowEnd hd hv with hlt | ⟨rfl, hopen⟩
      · omega
      · rw [hopen] at hend
        have he := Date.rank_injective (hle'.antisymm hend)
        exact ⟨rfl, ⟨hopen, validTo_of_latest hy' hw⟩, .inr (hstart'.trans (congrArg some he))⟩
  · rintro ⟨-, ⟨hopen, hopen'⟩, hlast | hlast⟩
    · cases hstart.symm.trans hlast
      exact .inl (by rw [hopen']; exact le_rfl)
    · cases hstart'.symm.trans hlast
      exact .inr (by rw [hopen]; exact le_rfl)

theorem collision?_of_year {y : Int} (hv : v.fiscalYear = some y) (hw : w.fiscalYear = some y) :
    collision? (coverageOf v) w ≠ none := by
  simp [collision?, coverageOf, hv, hw]

theorem collision?_of_meet {start start' : Date} (hv : v.validFrom = some start)
    (hw : w.validFrom = some start')
    (hm : windowsMeet start v.validTo start' w.validTo = true) :
    collision? (coverageOf v) w ≠ none := by
  simp only [collision?, coverageOf, hv, hw, hm, if_true]
  split <;> simp

theorem collision?_of_defaults (hv : v.fiscalYear = none) (hw : w.fiscalYear = none)
    (hv' : v.validFrom = none) (hw' : w.validFrom = none) :
    collision? (coverageOf v) w ≠ none := by
  simp [collision?, coverageOf, hv, hw, hv', hw']

theorem length_le_one_of_nodup (hn : rows.Nodup) (h : ∀ v ∈ rows, ∀ w ∈ rows, v = w) :
    rows.length ≤ 1 := by
  rw [← List.toFinset_card_of_nodup hn, Finset.card_le_one]
  simpa only [List.mem_toFinset] using h

theorem mem_datedOn : v ∈ datedOn rows d ↔
    v ∈ rows ∧ v.active = true ∧ v.validFrom.isSome = true ∧ inWindow v d = true := by
  simp only [datedOn, List.mem_filter, Bool.and_eq_true, and_assoc]

theorem mem_defaults : v ∈ defaults rows ↔
    v ∈ rows ∧ v.active = true ∧ v.fiscalYear = none ∧ v.validFrom = none := by
  simp only [defaults, List.mem_filter, Bool.and_eq_true, Option.isNone_iff_eq_none, and_assoc]

/-- What is in effect on a date. The choice among the versions for the year has one candidate, and
the one among the windows is made by their starts; neither looks at versions, times or ids. -/
structure InEffect (rows : List FormulaVersion) (d : Date) : Prop where
  dated : (datedOn rows d).Pairwise (MeetOnLastDay d)
  yearly : (ofYear rows d).length ≤ 1
  unrestricted : (defaults rows).length ≤ 1
  byYear : ∀ v, resolve rows d = some ⟨v, .fiscalYear⟩ → ofYear rows d = [v]
  byWindow : ∀ v, resolve rows d = some ⟨v, .dateRange⟩ → ∀ w ∈ ofWindow rows d, w = v ∨
    startRank w < startRank v ∨ MeetOnLastDay d v w ∧ v.validFrom = w.validFrom

end Version

namespace FormulaStore.Sound

open Version

variable {d : Date} {v w : FormulaVersion} {rows : List FormulaVersion}

theorem nodup (h : Sound rows) : rows.Nodup := h.distinct.of_map

theorem year_le (h : Sound rows) (hv : v ∈ rows) (ha : v.active = true) :
    ∀ stop ∈ v.validTo, stop.year ≤ 9999 := by
  intro stop hstop
  have hread := (h.sources.readable v hv ha).validTo
  rw [Option.mem_def.1 hstop] at hread
  obtain ⟨j, hj⟩ := exists_read_of_optional hread
  exact year_le_of_date hj

theorem meetOnLastDay (h : Sound rows) (hd : d.year ≤ 9999) (hv : v ∈ datedOn rows d)
    (hw : w ∈ datedOn rows d) (hne : v ≠ w) : MeetOnLastDay d v w := by
  obtain ⟨hv, hva, hvs, hvd⟩ := mem_datedOn.1 hv
  obtain ⟨hw, hwa, hws, hwd⟩ := mem_datedOn.1 hw
  obtain ⟨start, hstart⟩ := Option.isSome_iff_exists.1 hvs
  obtain ⟨start', hstart'⟩ := Option.isSome_iff_exists.1 hws
  rw [← windowsMeet_eq_false hd hstart hstart' hvd hwd (h.year_le hv hva) (h.year_le hw hwa)]
  by_contra hm
  rw [Bool.not_eq_false] at hm
  exact collision?_of_meet hstart hstart' hm (h.apart v hv w hw hne hva hwa)

theorem eq_of_year (h : Sound rows) (hv : v ∈ ofYear rows d) (hw : w ∈ ofYear rows d) : v = w := by
  obtain ⟨hv, hva, hvy⟩ := mem_ofYear.1 hv
  obtain ⟨hw, hwa, hwy⟩ := mem_ofYear.1 hw
  by_contra hne
  exact collision?_of_year hvy hwy (h.apart v hv w hw hne hva hwa)

theorem eq_of_defaults (h : Sound rows) (hv : v ∈ defaults rows) (hw : w ∈ defaults rows) :
    v = w := by
  obtain ⟨hv, hva, hvy, hvd⟩ := mem_defaults.1 hv
  obtain ⟨hw, hwa, hwy, hwd⟩ := mem_defaults.1 hw
  by_contra hne
  exact collision?_of_defaults hvy hwy hvd hwd (h.apart v hv w hw hne hva hwa)

/-- Of two versions whose windows hold a date the one that starts later is chosen, since equal
starts make them collide. -/
theorem startRank_lt (h : Sound rows) (hd : d.year ≤ 9999) (hv : v ∈ ofWindow rows d)
    (hw : w ∈ ofWindow rows d) (hne : v ≠ w) (hle : startRank w ≤ startRank v) :
    startRank w < startRank v ∨ MeetOnLastDay d v w ∧ v.validFrom = w.validFrom := by
  obtain ⟨hv, hva, hvy, hvd⟩ := mem_ofWindow.1 hv
  obtain ⟨hw, hwa, hwy, hwd⟩ := mem_ofWindow.1 hw
  rcases hle.lt_or_eq with hlt | heq
  · exact .inl hlt
  · cases hvs : v.validFrom with
    | none =>
        cases hws : w.validFrom with
        | none =>
            exact absurd (h.eq_of_defaults (mem_defaults.2 ⟨hv, hva, hvy, hvs⟩)
              (mem_defaults.2 ⟨hw, hwa, hwy, hws⟩)) hne
        | some start' =>
            simp only [startRank, hvs, hws] at heq
            exact absurd heq start'.ordinal_pos.ne'
    | some start =>
        cases hws : w.validFrom with
        | none =>
            simp only [startRank, hvs, hws] at heq
            exact absurd heq.symm start.ordinal_pos.ne'
        | some start' =>
            simp only [startRank, hvs, hws] at heq
            refine .inr ⟨?_, congrArg some (Date.ordinal_injective heq.symm)⟩
            exact h.meetOnLastDay hd (mem_datedOn.2 ⟨hv, hva, by rw [hvs]; rfl, hvd⟩)
              (mem_datedOn.2 ⟨hw, hwa, by rw [hws]; rfl, hwd⟩) hne

theorem inEffect (h : Sound rows) (hd : d.year ≤ 9999) : InEffect rows d := by
  have hyear : (ofYear rows d).length ≤ 1 := by
    refine length_le_one_of_nodup ((h.nodup.filter _).filter _) ?_
    exact fun v hv w hw => h.eq_of_year hv hw
  refine ⟨?_, hyear, ?_, ?_, ?_⟩
  · refine (h.nodup.filter _).pairwise_of_forall_ne ?_
    exact fun v hv w hw hne => h.meetOnLastDay hd hv hw hne
  · refine length_le_one_of_nodup (h.nodup.filter _) ?_
    exact fun v hv w hw => h.eq_of_defaults hv hw
  · intro v hr
    rcases resolve_cases hr with ⟨-, hv⟩ | ⟨ht, -⟩ | ⟨ht, -⟩
    · have hmem := mem_of_least hv
      obtain ⟨u, hu⟩ := List.length_eq_one_iff.1 (hyear.antisymm (List.length_pos_of_mem hmem))
      rw [hu] at hmem ⊢
      exact congrArg (fun x => [x]) (List.mem_singleton.1 hmem).symm
    · cases ht
    · cases ht
  · intro v hr w hw
    rcases resolve_cases hr with ⟨ht, -⟩ | ⟨-, -, hv⟩ | ⟨ht, -⟩
    · cases ht
    · by_cases he : w = v
      · exact .inl he
      · exact .inr (h.startRank_lt hd (mem_of_least hv) hw (Ne.symm he)
          (startRank_le_of_least hv w hw))
    · cases ht

end FormulaStore.Sound

namespace FormulaStore

open Version

/-- Whatever is done to the stored formulas, on no date but the last are there two rules of a kind
in effect. -/
theorem inEffect_of_reachable {store : FormulaStore} (h : Reachable store) (company concept : String)
    {d : Date} (hd : d.year ≤ 9999) : InEffect (store.scope company concept).rows d :=
  (sound_of_reachable h company concept).inEffect hd

/-- A bonus that is granted for the last day. -/
def lastDay (id : String) : Operation := .create id noon {
  company := .text "ACME"
  concept := .text "P010"
  kind := .text "PERCEPTION"
  name := .text "Bono"
  expression := .text "custom1"
  fields := [("valid_from", .text "9999-12-31")] }

def lastDays (ids : List String) : FormulaStore := ⟨[⟨"ACME", "P010", ids.length,
  ids.map fun id => { bonus with id, validFrom := some .latest }⟩]⟩

theorem lastDay_after : (lastDay "f1").after {} = lastDays ["f1"] := by cbv

theorem lastDay_after_lastDay : (lastDay "f2").after (lastDays ["f1"]) = lastDays ["f1", "f2"] := by
  cbv

theorem reachable_lastDays : Reachable (lastDays ["f1", "f2"]) := by
  rw [← lastDay_after_lastDay]
  refine .step _ ?_ ?_
  · rw [← lastDay_after]
    refine .step _ .empty ?_
    intro id _ company concept v hv
    cases hv
  · exact Operation.fresh_of_scope (by decide)

/-- Two bonuses for the last day, both of them in effect on it. -/
theorem lastDays_inEffect : Reachable (lastDays ["f1", "f2"]) ∧ Date.latest.year ≤ 9999 ∧
    InEffect ((lastDays ["f1", "f2"]).scope "ACME" "P010").rows .latest ∧
    (datedOn ((lastDays ["f1", "f2"]).scope "ACME" "P010").rows .latest).length = 2 :=
  ⟨reachable_lastDays, by decide, inEffect_of_reachable reachable_lastDays "ACME" "P010" (by decide),
    by decide⟩

end FormulaStore

end Payroll
