import Mathlib
import Payroll.Proofs.TierOrder
import Payroll.Proofs.VersionHistory

/-!
A new version for the same dates takes the place of the version that it supersedes. On every date but
the last it is in effect where that one was, and where no version is for the date it is the latest.
-/

namespace Payroll.FormulaStore

open Record Version

variable {store next : FormulaStore} {op : Operation} {company concept : String}
  {rows rows' : List FormulaVersion} {old row x y : FormulaVersion} {d : Date} {t : Int}

/-! ### Clocks -/

/-- The reading of the clock that a change stores. -/
def Operation.time? : Operation → Option Instant
  | .create _ now _ => some now
  | .newVersion _ now _ _ _ => some now
  | .delete _ _ => none

/-- The stores that changes lead to under a strictly increasing clock, with a bound on its readings. -/
inductive Timed : Int → FormulaStore → Prop
  | empty (t : Int) : Timed t {}
  | step {t t' : Int} {store : FormulaStore} (op : Operation) (timed : Timed t store)
      (fresh : op.Fresh store) (le : t ≤ t')
      (later : ∀ now ∈ op.time?, t < now.micros ∧ now.micros ≤ t') : Timed t' (op.after store)

theorem Timed.reachable (h : Timed t store) : Reachable store := by
  induction h with
  | empty => exact .empty
  | step op _ hf _ _ ih => exact .step op ih hf

theorem Edit.createdAt (h : Edit company concept rows op rows') (hx : x ∈ rows') :
    (∃ v ∈ rows, v.createdAt = x.createdAt) ∨ op.time? = some x.createdAt := by
  cases h with
  | created _ _ added =>
      rcases List.mem_append.1 hx with hx | hx
      · exact .inl ⟨x, hx, rfl⟩
      · cases List.mem_singleton.1 hx
        exact .inr (congrArg some added.createdAt.symm)
  | @superseded id now _ _ old row mem _ _ added =>
      rcases List.mem_append.1 hx with hx | hx
      · obtain ⟨v, hv, rfl⟩ := List.mem_map.1 hx
        split
        · exact .inl ⟨old, mem, rfl⟩
        · exact .inl ⟨v, hv, rfl⟩
      · cases List.mem_singleton.1 hx
        exact .inr (congrArg some added.createdAt.symm)
  | deleted => exact .inl ⟨x, List.mem_of_mem_filter hx, rfl⟩

theorem Timed.createdAt_le (h : Timed t store) (company concept : String) :
    ∀ v ∈ (store.scope company concept).rows, v.createdAt.micros ≤ t := by
  induction h generalizing company concept with
  | empty =>
      intro v hv
      cases hv
  | @step t t' store op timed _ le later ih =>
      have hold (company concept : String) :
          ∀ v ∈ (store.scope company concept).rows, v.createdAt.micros ≤ t' :=
        fun v hv => (ih company concept v hv).trans le
      rcases after_cases timed.reachable op with hsame | ⟨company', concept', rows', hedit, hafter⟩
      · rw [hsame]
        exact hold company concept
      · rw [hafter]
        refine forall_scope_withRows (P := fun rows => ∀ v ∈ rows, v.createdAt.micros ≤ t') hold ?_
          company concept
        intro v hv
        rcases hedit.createdAt hv with ⟨w, hw, he⟩ | htime
        · exact he ▸ hold company' concept' w hw
        · exact (later _ htime).2

/-! ### Successions -/

/-- What comes in the place of a row when one is succeeded. -/
def heir (old row v : FormulaVersion) : FormulaVersion := if v = old then row else v

/-- The rows of a scope before and after a version is superseded by one for the same dates. -/
structure Succession (rows rows' : List FormulaVersion) (old row : FormulaVersion) : Prop where
  before : Sound rows
  after : Sound rows'
  mem : old ∈ rows
  active : old.active = true
  added : row.active = true
  coverage : coverageOf row = coverageOf old
  mem_iff : ∀ x, x.active = true → (x ∈ rows' ↔ x = row ∨ x ∈ rows ∧ x ≠ old)

namespace Succession

theorem fiscalYear (h : Succession rows rows' old row) : row.fiscalYear = old.fiscalYear :=
  congrArg Coverage.fiscalYear h.coverage

theorem validFrom (h : Succession rows rows' old row) : row.validFrom = old.validFrom :=
  congrArg Coverage.validFrom h.coverage

theorem validTo (h : Succession rows rows' old row) : row.validTo = old.validTo :=
  congrArg Coverage.validTo h.coverage

/-- A tier that treats a row like the one that it succeeds has the heirs of those that it had. -/
theorem mem_tier (h : Succession rows rows' old row) {p : FormulaVersion → Prop}
    (hp : p row ↔ p old) : x ∈ rows' ∧ x.active = true ∧ p x ↔
      ∃ v, (v ∈ rows ∧ v.active = true ∧ p v) ∧ heir old row v = x := by
  constructor
  · rintro ⟨hx, ha, hpx⟩
    rcases (h.mem_iff x ha).1 hx with rfl | ⟨hx, hne⟩
    · exact ⟨old, ⟨h.mem, h.active, hp.1 hpx⟩, if_pos rfl⟩
    · exact ⟨x, ⟨hx, ha, hpx⟩, if_neg hne⟩
  · rintro ⟨v, ⟨hv, ha, hpv⟩, rfl⟩
    by_cases he : v = old
    · subst he
      rw [heir, if_pos rfl]
      exact ⟨(h.mem_iff row h.added).2 (.inl rfl), h.added, hp.2 hpv⟩
    · rw [heir, if_neg he]
      exact ⟨(h.mem_iff v ha).2 (.inr ⟨hv, he⟩), ha, hpv⟩

theorem mem_ofYear (h : Succession rows rows' old row) :
    x ∈ ofYear rows' d ↔ ∃ v ∈ ofYear rows d, heir old row v = x := by
  have hp : row.fiscalYear = some (d.year : Int) ↔ old.fiscalYear = some (d.year : Int) := by
    rw [h.fiscalYear]
  simpa only [Version.mem_ofYear] using
    h.mem_tier (p := fun v => v.fiscalYear = some (d.year : Int)) hp

theorem mem_ofWindow (h : Succession rows rows' old row) :
    x ∈ ofWindow rows' d ↔ ∃ v ∈ ofWindow rows d, heir old row v = x := by
  have hp : row.fiscalYear = none ∧ inWindow row d = true ↔
      old.fiscalYear = none ∧ inWindow old d = true := by
    rw [inWindow_iff, inWindow_iff, h.fiscalYear, h.validFrom, h.validTo]
  simpa only [Version.mem_ofWindow] using
    h.mem_tier (p := fun v => v.fiscalYear = none ∧ inWindow v d = true) hp

/-- A tier of heirs is empty as soon as there is none to inherit from. -/
theorem eq_nil_of_heirs {vs ws : List FormulaVersion} (h : ∀ w ∈ ws, ∃ v ∈ vs, heir old row v = w)
    (hnone : vs = []) : ws = [] := by
  apply List.eq_nil_iff_forall_not_mem.2
  intro w hw
  obtain ⟨v, hv, -⟩ := h w hw
  rw [hnone] at hv
  cases hv

theorem startRank_heir (h : Succession rows rows' old row) (v : FormulaVersion) :
    startRank (heir old row v) = startRank v := by
  unfold heir
  split
  · next he => rw [he, startRank, startRank, h.validFrom]
  · rfl

/-- There is one version for the year, before and after. -/
theorem resolve_fiscalYear (h : Succession rows rows' old row)
    (hx : resolve rows d = some ⟨x, .fiscalYear⟩) :
    resolve rows' d = some ⟨heir old row x, .fiscalYear⟩ := by
  cases chosen_of_resolve h.before.distinct hx with
  | fiscalYear first =>
      have hmem : heir old row x ∈ ofYear rows' d := h.mem_ofYear.2 ⟨x, first.mem, rfl⟩
      refine (resolve_eq_some_iff h.after.distinct).2 (.fiscalYear ⟨hmem, fun w hw hne => ?_⟩)
      exact absurd (h.after.eq_of_year hw hmem) hne

/-- The windows that hold the date start at different times, before and after. -/
theorem resolve_dateRange (h : Succession rows rows' old row) (hd : d.before .latest = true)
    (hx : resolve rows d = some ⟨x, .dateRange⟩) :
    resolve rows' d = some ⟨heir old row x, .dateRange⟩ := by
  have hrank := Date.before_iff.1 hd
  cases chosen_of_resolve h.before.distinct hx with
  | dateRange noYear first =>
      have hmem : heir old row x ∈ ofWindow rows' d := h.mem_ofWindow.2 ⟨x, first.mem, rfl⟩
      refine (resolve_eq_some_iff h.after.distinct).2
        (.dateRange (eq_nil_of_heirs (fun _ => h.mem_ofYear.1) noYear) ⟨hmem, fun w hw hne => ?_⟩)
      obtain ⟨v, hv, rfl⟩ := h.mem_ofWindow.1 hw
      have hvx : v ≠ x := by
        rintro rfl
        exact hne rfl
      have hle : startRank v ≤ startRank x := by
        rcases first.before v hv hvx with hlt | ⟨heq, -⟩
        · exact (startRank_lt_iff.2 hlt).le
        · exact (startRank_eq_iff.2 heq).le
      rw [← h.startRank_heir v, ← h.startRank_heir x] at hle
      rcases h.after.startRank_lt (Date.year_le_of_before hd) hmem hw (Ne.symm hne) hle with
        hlt | ⟨hlast, -⟩
      · exact .inl (startRank_lt_iff.1 hlt)
      · rw [hlast.last] at hrank
        exact absurd hrank (lt_irrefl _)

/-- Where no version is for the date, the last to be created is in effect, as far as its timestamp
tells. -/
theorem resolve_fallback (h : Succession rows rows' old row)
    (hlatest : ∀ v ∈ rows, v.createdAt.micros < row.createdAt.micros)
    (hx : resolve rows d = some ⟨x, .fallback⟩) :
    ∃ y, resolve rows' d = some ⟨y, .fallback⟩ ∧ (y = row ∨ y ∈ rows ∧ y.active = true ∧ y ≠ old ∧
      y.createdAt.timestamp = row.createdAt.timestamp ∧
        (row.version < y.version ∨ row.version = y.version ∧ y.id < row.id)) := by
  have hmem : row ∈ rows' := (h.mem_iff row h.added).2 (.inl rfl)
  obtain ⟨⟨y, tier⟩, hy⟩ := Option.isSome_iff_exists.1
    ((isSome_resolve rows' d).trans (List.any_eq_true.2 ⟨row, hmem, h.added⟩))
  cases chosen_of_resolve h.before.distinct hx with
  | fallback noYear noWindow _ =>
      cases chosen_of_resolve h.after.distinct hy with
      | fiscalYear first =>
          have hnone := eq_nil_of_heirs (fun _ => h.mem_ofYear.1) noYear
          exact absurd first.mem (hnone ▸ List.not_mem_nil)
      | dateRange _ first =>
          have hnone := eq_nil_of_heirs (fun _ => h.mem_ofWindow.1) noWindow
          exact absurd first.mem (hnone ▸ List.not_mem_nil)
      | fallback _ _ first =>
          refine ⟨y, hy, or_iff_not_imp_left.2 fun hne => ?_⟩
          obtain ⟨hy', ha⟩ := List.mem_filter.1 first.mem
          obtain ⟨hyr, hyo⟩ := ((h.mem_iff y ha).1 hy').resolve_left hne
          have hle := Instant.timestamp_mono (hlatest y hyr).le
          rcases first.before row (List.mem_filter.2 ⟨hmem, h.added⟩) (Ne.symm hne) with
            hlt | ⟨heq, hprefer⟩
          · exact absurd hlt hle.not_gt
          · exact ⟨hyr, ha, hyo, heq.symm, hprefer⟩

end Succession

/-- Changes that leave the year and the window of a version: what they give for them is what it has. -/
structure KeepsCoverage (changes : Fields) (v : FormulaVersion) : Prop where
  fiscalYear : Overridden changes "fiscal_year"
    (orNull (integerAtLeast 2000 (integerAtMost 2100 integer))) v.fiscalYear v.fiscalYear
  validFrom : Overridden changes "valid_from" (orNull date) v.validFrom v.validFrom
  validTo : Overridden changes "valid_to" (orNull date) v.validTo v.validTo

theorem KeepsCoverage.coverageOf_eq {changes : Fields} (h : KeepsCoverage changes old)
    (ha : old.Amended changes row) : coverageOf row = coverageOf old := by
  rw [coverageOf, coverageOf, ha.fiscalYear.unique h.fiscalYear, ha.validFrom.unique h.validFrom,
    ha.validTo.unique h.validTo]

theorem Edit.succession {id : String} {now : Instant} {changes : Fields} {createdBy : Json}
    (hs : Sound rows) (hf : ∀ v ∈ rows, v.id ≠ id) (hold : old ∈ rows)
    (h : Edit company concept rows (.newVersion id now (.text old.id) changes createdBy) rows')
    (hrow : rows'.getLast? = some row) (hk : KeepsCoverage (Fields.overlay [] changes) old) :
    Succession rows rows' old row ∧ row.createdAt = now := by
  have hafter : Sound rows' := by
    refine hs.edit ?_ h
    intro _ hid
    exact Option.some.inj hid ▸ hf
  generalize hop : Operation.newVersion id now (.text old.id) changes createdBy = op at h
  cases h with
  | created => cases hop
  | @superseded _ _ _ _ old' row' mem active _ added _ amended =>
      injection hop with hid hnow hformula hchanges
      cases hs.eq_of_id hold mem (Json.text.inj hformula)
      rw [List.getLast?_concat, Option.some.injEq] at hrow
      subst hid hnow hchanges hrow
      refine ⟨⟨hs, hafter, mem, active, added.active, hk.coverageOf_eq amended, ?_⟩,
        added.createdAt⟩
      intro x hx
      rw [hs.mem_supersede mem]
      refine or_congr_right (or_iff_right ?_)
      rintro rfl
      cases hx
  | deleted => cases hop

/-- What is in effect on a date before and after a version is superseded. -/
structure TakesOver (rows rows' : List FormulaVersion) (old row : FormulaVersion) (d : Date) :
    Prop where
  fiscalYear : ∀ x, resolve rows d = some ⟨x, .fiscalYear⟩ →
    resolve rows' d = some ⟨if x = old then row else x, .fiscalYear⟩
  dateRange : ∀ x, resolve rows d = some ⟨x, .dateRange⟩ →
    resolve rows' d = some ⟨if x = old then row else x, .dateRange⟩
  fallback : ∀ x, resolve rows d = some ⟨x, .fallback⟩ →
    ∃ y, resolve rows' d = some ⟨y, .fallback⟩ ∧ (y = row ∨ y ∈ rows ∧ y.active = true ∧ y ≠ old ∧
      y.createdAt.timestamp = row.createdAt.timestamp ∧
        (row.version < y.version ∨ row.version = y.version ∧ y.id < row.id))
  near : ∀ x, resolve rows d = some ⟨x, .fallback⟩ → row.createdAt.Near →
    (∀ v ∈ rows, v.active = true → v.createdAt.Near) → resolve rows' d = some ⟨row, .fallback⟩

/-- A new version for the same dates is in effect where the version was that it supersedes, and where
none is for the date. There an earlier one can only be in effect if it has the same timestamp, and not
if they were created within some centuries of 1970. -/
theorem newVersion_takesOver {store next : FormulaStore} {company concept : String} {t : Int}
    {id : String} {now : Instant} {old row : FormulaVersion} {changes : Fields} {createdBy : Json}
    (h : Timed t store) (hnow : t < now.micros)
    (hf : (Operation.newVersion id now (.text old.id) changes createdBy).Fresh store)
    (hold : old ∈ (store.scope company concept).rows)
    (hk : KeepsCoverage (Fields.overlay [] changes) old)
    (hn : store.newVersion id now (.text old.id) changes createdBy = .ok (row, next)) (d : Date)
    (hd : d.before .latest = true) :
    TakesOver (store.scope company concept).rows (next.scope company concept).rows old row d := by
  have hs := sound_of_reachable h.reachable
  obtain ⟨company', concept', rows', hedit, rfl, hrow⟩ :=
    newVersion_eq_ok (fun company concept => (hs company concept).sources) hn
  have hconcerns : (Operation.newVersion id now (.text old.id) changes createdBy).Concerns store
      company concept := ⟨old, hold, rfl⟩
  obtain ⟨rfl, rfl⟩ :=
    concerns_unique (separate_of_reachable h.reachable) hconcerns hedit.concerns
  rw [scope_withRows]
  obtain ⟨hsucc, hcreated⟩ :=
    hedit.succession (hs company concept) (hf id rfl company concept) hold hrow hk
  have hlatest : ∀ v ∈ (store.scope company concept).rows,
      v.createdAt.micros < row.createdAt.micros := by
    intro v hv
    rw [hcreated]
    exact (h.createdAt_le company concept v hv).trans_lt hnow
  refine ⟨fun _ => hsucc.resolve_fiscalYear, fun _ => hsucc.resolve_dateRange hd,
    fun _ => hsucc.resolve_fallback hlatest, ?_⟩
  intro x hx hnear hnears
  obtain ⟨y, hy, rfl | ⟨hmem, ha, -, htie, -⟩⟩ := hsucc.resolve_fallback hlatest hx
  · exact hy
  · have hlt := (hnears y hmem ha).timestamp_lt hnear (hlatest y hmem)
    exact absurd htie hlt.ne

/-! Two bonuses for different dates, both of which get another name in the last second there is -/

def lastSecond (micro : Nat) (h : micro < 1000000) : Instant :=
  { Instant.latest with
    micro
    valid := ⟨by decide, by decide, by decide, by decide, h, by decide⟩ }

def bonusIn (id : String) (now : Instant) (start stop : String) : Operation := .create id now {
  company := .text "ACME"
  concept := .text "P010"
  kind := .text "PERCEPTION"
  name := .text "Bono"
  expression := .text "custom1"
  fields := [("valid_from", .text start), ("valid_to", .text stop)] }

def retitle (id old : String) (now : Instant) : Operation :=
  .newVersion id now (.text old) [("name", .text "Premio")] .null

def winterBonus : FormulaVersion :=
  { bonus with
    createdAt := lastSecond 1 (by decide)
    validFrom := some { year := 2025, month := 12, day := 1 }
    validTo := some { year := 2026, month := 1, day := 1 } }

def summerBonus : FormulaVersion :=
  { bonus with
    id := "f2"
    createdAt := lastSecond 2 (by decide)
    validFrom := some { year := 2025, month := 6, day := 1 }
    validTo := some { year := 2025, month := 7, day := 1 } }

def winterPremium : FormulaVersion :=
  { winterBonus with id := "f3", name := "Premio", version := 2, createdAt := lastSecond 3 (by decide) }

def summerPremium : FormulaVersion :=
  { summerBonus with id := "f4", name := "Premio", version := 2, createdAt := lastSecond 4 (by decide) }

def seasonal (rows : List FormulaVersion) (revision : Int) : FormulaStore :=
  ⟨[⟨"ACME", "P010", revision, rows⟩]⟩

theorem winterBonus_after :
    (bonusIn "f1" (lastSecond 1 (by decide)) "2025-12-01" "2026-01-01").after {} =
      seasonal [winterBonus] 1 := by
  cbv

theorem summerBonus_after :
    (bonusIn "f2" (lastSecond 2 (by decide)) "2025-06-01" "2025-07-01").after
      (seasonal [winterBonus] 1) = seasonal [winterBonus, summerBonus] 2 := by
  cbv

theorem winterPremium_after :
    (retitle "f3" "f1" (lastSecond 3 (by decide))).after (seasonal [winterBonus, summerBonus] 2) =
      seasonal [supersede winterBonus (lastSecond 3 (by decide)) "f3", summerBonus, winterPremium]
        3 := by
  cbv

theorem summerPremium_added :
    (seasonal [supersede winterBonus (lastSecond 3 (by decide)) "f3", summerBonus, winterPremium]
      3).newVersion "f4" (lastSecond 4 (by decide)) (.text "f2") [("name", .text "Premio")] .null =
    .ok (summerPremium, seasonal [supersede winterBonus (lastSecond 3 (by decide)) "f3",
      supersede summerBonus (lastSecond 4 (by decide)) "f4", winterPremium, summerPremium] 4) := by
  cbv

theorem timed_seasonal : Timed (lastSecond 3 (by decide)).micros
    (seasonal [supersede winterBonus (lastSecond 3 (by decide)) "f3", summerBonus, winterPremium]
      3) := by
  have hfirst : Timed (lastSecond 1 (by decide)).micros (seasonal [winterBonus] 1) := by
    rw [← winterBonus_after]
    refine .step _ (.empty 0) ?_ (by decide) (by decide)
    intro id _ company concept v hv
    cases hv
  have hsecond : Timed (lastSecond 2 (by decide)).micros
      (seasonal [winterBonus, summerBonus] 2) := by
    rw [← summerBonus_after]
    exact .step _ hfirst (Operation.fresh_of_scope (by decide)) (by decide) (by decide)
  rw [← winterPremium_after]
  exact .step _ hsecond (Operation.fresh_of_scope (by decide)) (by decide) (by decide)

/-- On a date for which no bonus is, the first with another name stays in effect: the second was
created too few microseconds after it to have another timestamp. -/
theorem summerPremium_takesOver :
    let old := seasonal
      [supersede winterBonus (lastSecond 3 (by decide)) "f3", summerBonus, winterPremium] 3
    let new := seasonal [supersede winterBonus (lastSecond 3 (by decide)) "f3",
      supersede summerBonus (lastSecond 4 (by decide)) "f4", winterPremium, summerPremium] 4
    let day : Date := { year := 2025, month := 1, day := 1 }
    Timed (lastSecond 3 (by decide)).micros old ∧
    (lastSecond 3 (by decide)).micros < (lastSecond 4 (by decide)).micros ∧
    KeepsCoverage (Fields.overlay [] [("name", .text "Premio")]) summerBonus ∧
    TakesOver (old.scope "ACME" "P010").rows (new.scope "ACME" "P010").rows summerBonus
      summerPremium day ∧
    resolve (new.scope "ACME" "P010").rows day = some ⟨winterPremium, .fallback⟩ := by
  intro old new day
  have hkeeps : KeepsCoverage (Fields.overlay [] [("name", .text "Premio")]) summerBonus :=
    ⟨rfl, rfl, rfl⟩
  refine ⟨timed_seasonal, by decide, hkeeps, ?_, by decide +kernel⟩
  exact newVersion_takesOver timed_seasonal (by decide) (Operation.fresh_of_scope (by decide))
    (by decide) hkeeps summerPremium_added day (by decide)

end Payroll.FormulaStore
