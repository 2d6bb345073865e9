import Mathlib
import Payroll.Version.Resolution

/-!
What a resolution chooses: a version from the first tier that has any, and from the tier of the
windows one with the latest start.
-/

namespace Payroll.Version

variable {order : FormulaVersion → FormulaVersion → Ordering} {rows : List FormulaVersion}
  {v : FormulaVersion} {r : Resolved} {target : Date}

theorem mem_of_least (h : least order rows = some v) : v ∈ rows := by
  induction rows generalizing v with
  | nil => cases h
  | cons w ws ih =>
      simp only [least] at h
      split at h
      · cases h
        exact List.mem_cons_self
      · next u hu =>
        cases h
        split
        · exact List.mem_cons_of_mem _ (ih hu)
        · exact List.mem_cons_self

theorem least_eq_none : least order rows = none ↔ rows = [] := by
  cases rows with
  | nil => simp [least]
  | cons w ws =>
      simp only [least]
      split <;> simp

/-- An order that looks at a number first has a least member where that number is greatest. -/
theorem le_of_least {key : FormulaVersion → Nat} (hlt : ∀ a b, key b < key a → order a b = .lt)
    (hle : ∀ a b, order a b = .lt → key b ≤ key a) (h : least order rows = some v) :
    ∀ w ∈ rows, key w ≤ key v := by
  induction rows generalizing v with
  | nil => cases h
  | cons u us ih =>
      simp only [least] at h
      split at h
      · next hnone =>
        cases h
        cases least_eq_none.1 hnone
        exact List.forall_mem_singleton.2 le_rfl
      · next l hl =>
        have htail := ih hl
        cases h
        split
        · next hlu =>
          exact List.forall_mem_cons.2 ⟨hle _ _ (beq_iff_eq.1 hlu), htail⟩
        · next hlu =>
          have hkey : key l ≤ key u := not_lt.1 fun hk => hlu (beq_iff_eq.2 (hlt _ _ hk))
          exact List.forall_mem_cons.2 ⟨le_rfl, fun w hw => (htail w hw).trans hkey⟩

/-- Of versions ordered by their starts none starts later than the least. -/
theorem startRank_le_of_least (h : least byStart rows = some v) :
    ∀ w ∈ rows, startRank w ≤ startRank v := by
  refine le_of_least (fun a b hk => ?_) (fun a b hlt => ?_) h
  · simp [byStart, Nat.compare_eq_lt.2 hk]
  · by_contra hk
    simp [byStart, Nat.compare_eq_gt.2 (not_le.1 hk)] at hlt

/-- The active versions for the year of a date. -/
def ofYear (rows : List FormulaVersion) (target : Date) : List FormulaVersion :=
  (rows.filter (·.active)).filter fun v => v.fiscalYear == some (target.year : Int)

/-- The active versions without a year whose window holds a date. -/
def ofWindow (rows : List FormulaVersion) (target : Date) : List FormulaVersion :=
  (rows.filter (·.active)).filter fun v => v.fiscalYear.isNone && inWindow v target

theorem mem_ofYear : v ∈ ofYear rows target ↔
    v ∈ rows ∧ v.active = true ∧ v.fiscalYear = some (target.year : Int) := by
  simp only [ofYear, List.mem_filter, beq_iff_eq, and_assoc]

theorem mem_ofWindow : v ∈ ofWindow rows target ↔
    v ∈ rows ∧ v.active = true ∧ v.fiscalYear = none ∧ inWindow v target = true := by
  simp only [ofWindow, List.mem_filter, Bool.and_eq_true, Option.isNone_iff_eq_none, and_assoc]

/-- Each tier is asked once those before it have no version. -/
theorem resolve_cases (h : resolve rows target = some r) :
    (r.tier = .fiscalYear ∧ least byVersion (ofYear rows target) = some r.row) ∨
    (r.tier = .dateRange ∧ ofYear rows target = [] ∧
      least byStart (ofWindow rows target) = some r.row) ∨
    (r.tier = .fallback ∧ ofYear rows target = [] ∧ ofWindow rows target = [] ∧
      least byCreation (rows.filter (·.active)) = some r.row) := by
  unfold resolve at h
  simp only at h
  split at h
  · next w hw =>
    cases h
    exact .inl ⟨rfl, hw⟩
  · next hyear =>
    split at h
    · next w hw =>
      cases h
      exact .inr (.inl ⟨rfl, least_eq_none.1 hyear, hw⟩)
    · next hwindow =>
      obtain ⟨w, hw, rfl⟩ := Option.map_eq_some_iff.1 h
      exact .inr (.inr ⟨rfl, least_eq_none.1 hyear, least_eq_none.1 hwindow, hw⟩)

theorem resolve_eq_some (h : resolve rows target = some r) : r.row ∈ rows ∧ r.row.active = true := by
  rcases resolve_cases h with ⟨-, hw⟩ | ⟨-, -, hw⟩ | ⟨-, -, -, hw⟩
  · obtain ⟨hmem, hactive, -⟩ := mem_ofYear.1 (mem_of_least hw)
    exact ⟨hmem, hactive⟩
  · obtain ⟨hmem, hactive, -⟩ := mem_ofWindow.1 (mem_of_least hw)
    exact ⟨hmem, hactive⟩
  · exact List.mem_filter.1 (mem_of_least hw)

/-- There is a version in effect as soon as one is active. -/
theorem isSome_resolve (rows : List FormulaVersion) (target : Date) :
    (resolve rows target).isSome = rows.any (·.active) := by
  rw [Bool.eq_iff_iff, List.any_eq_true]
  constructor
  · intro h
    obtain ⟨r, hr⟩ := Option.isSome_iff_exists.1 h
    obtain ⟨hmem, hactive⟩ := resolve_eq_some hr
    exact ⟨r.row, hmem, hactive⟩
  · rintro ⟨v, hv, ha⟩
    unfold resolve
    simp only
    split
    · rfl
    · split
      · rfl
      · rw [Option.isSome_map]
        cases hl : least byCreation (rows.filter (·.active)) with
        | some w => rfl
        | none =>
            have hmem : v ∈ rows.filter (·.active) := List.mem_filter.2 ⟨hv, ha⟩
            rw [least_eq_none.1 hl] at hmem
            cases hmem

end Payroll.Version
