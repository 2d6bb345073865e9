import Mathlib
import Payroll.Proofs.StoreSteps

/-!
The rows of a scope in every store that can be reached: active rows do not collide, and the
superseded ones form chains that end at active rows.
-/

namespace Payroll.FormulaStore

open Version

variable {store : FormulaStore} {company concept : String} {rows rows' : List FormulaVersion}

/-- A collision does not depend on which of two versions is looked at first. -/
theorem collision?_comm (v w : FormulaVersion) :
    collision? (coverageOf v) w = collision? (coverageOf w) v := by
  have hyear : (v.fiscalYear.isSome && w.fiscalYear == v.fiscalYear) =
      (w.fiscalYear.isSome && v.fiscalYear == w.fiscalYear) := by
    cases v.fiscalYear <;> cases w.fiscalYear <;> simp [eq_comm]
  rw [collision?]
  change (if (v.fiscalYear.isSome && w.fiscalYear == v.fiscalYear) = true then _ else _) = _
  rw [hyear]
  split
  · next h => exact (if_pos h).symm
  · next h =>
    refine Eq.trans ?_ (if_neg h).symm
    simp only [coverageOf]
    cases v.validFrom <;> cases w.validFrom <;> simp [windowsMeet, Bool.and_comm]

/-- What holds of the rows of a scope between changes. -/
structure Sound (rows : List FormulaVersion) : Prop where
  distinct : (rows.map (·.id)).Nodup
  apart : ∀ v ∈ rows, ∀ w ∈ rows, v ≠ w → v.active = true → w.active = true →
    collision? (coverageOf v) w = none
  current : ∀ v ∈ rows, v.active = true → v.supersededAt = none ∧ v.supersededBy = none
  replaced : ∀ v ∈ rows, v.active = false → ∃ w ∈ rows, v.supersededBy = some w.id ∧
    v.supersededAt = some w.createdAt ∧ w.version = v.version + 1
  single : ∀ v ∈ rows, ∀ w ∈ rows, v.supersededBy = w.supersededBy → v.supersededBy ≠ none → v = w
  sources : Sources rows

namespace Sound

theorem nil : Sound [] where
  distinct := List.nodup_nil
  apart := by simp
  current := by simp
  replaced := by simp
  single := by simp
  sources := ⟨by simp, by simp⟩

theorem eq_of_id (h : Sound rows) {v w : FormulaVersion} (hv : v ∈ rows) (hw : w ∈ rows)
    (he : v.id = w.id) : v = w :=
  List.inj_on_of_nodup_map h.distinct hv hw he

theorem inactive_of_superseded (h : Sound rows) {v : FormulaVersion} (hv : v ∈ rows)
    (hs : v.supersededBy ≠ none) : v.active = false := by
  by_contra ha
  exact hs (h.current v hv (by simpa using ha)).2

/-- An id that no row has is no row's successor either. -/
theorem not_supersededBy_of_fresh (h : Sound rows) {id : String} (hf : ∀ v ∈ rows, v.id ≠ id)
    {v : FormulaVersion} (hv : v ∈ rows) : v.supersededBy ≠ some id := by
  intro hs
  obtain ⟨w, hw, hid, -⟩ := h.replaced v hv (h.inactive_of_superseded hv (by simp [hs]))
  rw [hs] at hid
  exact hf w hw (Option.some.inj hid).symm

/-- Ids stay distinct when a row with a new one is added. -/
theorem distinct_append (h : Sound rows) {row : FormulaVersion} (hf : ∀ v ∈ rows, v.id ≠ row.id) :
    ((rows ++ [row]).map (·.id)).Nodup := by
  rw [List.map_append, List.nodup_append]
  refine ⟨h.distinct, List.nodup_singleton _, ?_⟩
  intro a ha b hb
  obtain ⟨v, hv, rfl⟩ := List.mem_map.1 ha
  rw [List.map_singleton, List.mem_singleton] at hb
  exact hb ▸ hf v hv

theorem add (h : Sound rows) {id : String} {now : Instant} {row : FormulaVersion}
    (hf : ∀ v ∈ rows, v.id ≠ id) (hadded : Added id now row) (haccepted : Accepted row)
    (hfree : conflicts rows (coverageOf row) none = []) : Sound (rows ++ [row]) := by
  have hfree' := conflicts_eq_nil.1 hfree
  have hmem {v : FormulaVersion} : v ∈ rows ++ [row] ↔ v ∈ rows ∨ v = row := by
    rw [List.mem_append, List.mem_singleton]
  constructor
  case distinct => exact h.distinct_append (hadded.id_eq ▸ hf)
  case apart =>
    intro v hv w hw hne hva hwa
    rcases hmem.1 hv with hv' | rfl <;> rcases hmem.1 hw with hw' | rfl
    · exact h.apart v hv' w hw' hne hva hwa
    · rw [collision?_comm]
      exact hfree' v hv' hva (by simp)
    · exact hfree' w hw' hwa (by simp)
    · exact absurd rfl hne
  case current =>
    intro v hv ha
    rcases hmem.1 hv with hv | rfl
    · exact h.current v hv ha
    · exact ⟨hadded.supersededAt, hadded.supersededBy⟩
  case replaced =>
    intro v hv ha
    rcases hmem.1 hv with hv | rfl
    · obtain ⟨w, hw, hrest⟩ := h.replaced v hv ha
      exact ⟨w, List.mem_append_left _ hw, hrest⟩
    · rw [hadded.active] at ha
      cases ha
  case single =>
    intro v hv w hw he hs
    rcases hmem.1 hv with hv' | rfl <;> rcases hmem.1 hw with hw' | rfl
    · exact h.single v hv' w hw' he hs
    · exact absurd (he.trans hadded.supersededBy) hs
    · exact absurd hadded.supersededBy hs
    · rfl
  case sources =>
    constructor
    case readable =>
      intro v hv ha
      rcases hmem.1 hv with hv | rfl
      · exact h.sources.readable v hv ha
      · exact hadded.readable
    case accepted =>
      intro v hv
      rcases hmem.1 hv with hv | rfl
      · exact h.sources.accepted v hv
      · exact haccepted

/-- The rows after a version was superseded: its successor, itself as superseded, all others. -/
theorem mem_supersede (h : Sound rows) {old x : FormulaVersion} (hold : old ∈ rows)
    (row : FormulaVersion) (now : Instant) (id : String) :
    x ∈ rows.map (fun v => if v.id = old.id then supersede old now id else v) ++ [row] ↔
      x = row ∨ x = supersede old now id ∨ x ∈ rows ∧ x ≠ old := by
  rw [List.mem_append, List.mem_singleton, List.mem_map, or_comm]
  apply or_congr_right
  constructor
  · rintro ⟨v, hv, rfl⟩
    by_cases he : v.id = old.id
    · exact .inl (if_pos he)
    · rw [if_neg he]
      exact .inr ⟨hv, fun hvo => he (hvo ▸ rfl)⟩
  · rintro (rfl | ⟨hx, hne⟩)
    · exact ⟨old, hold, if_pos rfl⟩
    · exact ⟨x, hx, if_neg fun he => hne (h.eq_of_id hx hold he)⟩

/-- A superseded row keeps its id. -/
theorem ids_supersede (rows : List FormulaVersion) (old : FormulaVersion) (now : Instant)
    (id : String) :
    (rows.map fun v => if v.id = old.id then FormulaStore.supersede old now id else v).map (·.id) =
      rows.map (·.id) := by
  rw [List.map_map]
  apply List.map_congr_left
  intro v _
  by_cases he : v.id = old.id
  · simp [he, FormulaStore.supersede]
  · simp [he]

theorem supersede (h : Sound rows) {id : String} {now : Instant} {old row : FormulaVersion}
    (hf : ∀ v ∈ rows, v.id ≠ id) (hold : old ∈ rows) (hactive : old.active = true)
    (hadded : Added id now row) (hversion : row.version = old.version + 1)
    (haccepted : Accepted row) (hfree : conflicts rows (coverageOf row) (some old.id) = []) :
    Sound (rows.map (fun v => if v.id = old.id then FormulaStore.supersede old now id else v)
      ++ [row]) := by
  have hmem {x : FormulaVersion} := h.mem_supersede (x := x) hold row now id
  have hfree' := conflicts_eq_nil.1 hfree
  have hother {v : FormulaVersion} (hv : v ∈ rows) (hne : v ≠ old) : some v.id ≠ some old.id :=
    fun he => hne (h.eq_of_id hv hold (Option.some.inj he))
  constructor
  case distinct =>
    rw [List.map_append, ids_supersede, ← List.map_append]
    exact h.distinct_append (hadded.id_eq ▸ hf)
  case apart =>
    intro v hv w hw hne hva hwa
    rcases hmem.1 hv with rfl | rfl | ⟨hv', hvo⟩ <;>
      rcases hmem.1 hw with rfl | rfl | ⟨hw', hwo⟩
    · exact absurd rfl hne
    · cases hwa
    · exact hfree' w hw' hwa (hother hw' hwo)
    · cases hva
    · cases hva
    · cases hva
    · rw [collision?_comm]
      exact hfree' v hv' hva (hother hv' hvo)
    · cases hwa
    · exact h.apart v hv' w hw' hne hva hwa
  case current =>
    intro v hv ha
    rcases hmem.1 hv with rfl | rfl | ⟨hv, -⟩
    · exact ⟨hadded.supersededAt, hadded.supersededBy⟩
    · cases ha
    · exact h.current v hv ha
  case replaced =>
    intro v hv ha
    rcases hmem.1 hv with rfl | rfl | ⟨hv, -⟩
    · rw [hadded.active] at ha
      cases ha
    · refine ⟨row, hmem.2 (.inl rfl), ?_, ?_, hversion⟩
      · exact congrArg some hadded.id_eq.symm
      · exact congrArg some hadded.createdAt.symm
    · obtain ⟨w, hw, hrest⟩ := h.replaced v hv ha
      by_cases hwo : w = old
      · subst hwo
        exact ⟨_, hmem.2 (.inr (.inl rfl)), hrest⟩
      · exact ⟨w, hmem.2 (.inr (.inr ⟨hw, hwo⟩)), hrest⟩
  case single =>
    intro v hv w hw he hs
    rcases hmem.1 hv with rfl | rfl | ⟨hv', hvo⟩ <;>
      rcases hmem.1 hw with rfl | rfl | ⟨hw', hwo⟩
    · rfl
    · exact absurd hadded.supersededBy hs
    · exact absurd hadded.supersededBy hs
    · exact absurd (he.trans hadded.supersededBy) hs
    · rfl
    · exact absurd he.symm (h.not_supersededBy_of_fresh hf hw')
    · exact absurd (he.trans hadded.supersededBy) hs
    · exact absurd he (h.not_supersededBy_of_fresh hf hv')
    · exact h.single v hv' w hw' he hs
  case sources =>
    constructor
    case readable =>
      intro v hv ha
      rcases hmem.1 hv with rfl | rfl | ⟨hv, -⟩
      · exact hadded.readable
      · cases ha
      · exact h.sources.readable v hv ha
    case accepted =>
      intro v hv
      rcases hmem.1 hv with rfl | rfl | ⟨hv, -⟩
      · exact haccepted
      · exact h.sources.accepted old hold
      · exact h.sources.accepted v hv

theorem remove (h : Sound rows) {row : FormulaVersion}
    (hnone : ∀ v ∈ rows, v.supersededBy ≠ some row.id) :
    Sound (rows.filter fun v => v.id != row.id) := by
  have hsub {v : FormulaVersion} (hv : v ∈ rows.filter fun v => v.id != row.id) : v ∈ rows :=
    List.mem_of_mem_filter hv
  constructor
  case distinct => exact h.distinct.sublist (List.filter_sublist.map _)
  case apart => exact fun v hv w hw => h.apart v (hsub hv) w (hsub hw)
  case current => exact fun v hv => h.current v (hsub hv)
  case replaced =>
    intro v hv ha
    obtain ⟨w, hw, hid, hrest⟩ := h.replaced v (hsub hv) ha
    refine ⟨w, List.mem_filter.2 ⟨hw, ?_⟩, hid, hrest⟩
    have hne : w.id ≠ row.id := fun he => hnone v (hsub hv) (he ▸ hid)
    simpa using hne
  case single => exact fun v hv w hw => h.single v (hsub hv) w (hsub hw)
  case sources =>
    exact ⟨fun v hv => h.sources.readable v (hsub hv), fun v hv => h.sources.accepted v (hsub hv)⟩

theorem edit (h : Sound rows) {op : Operation} (hf : ∀ id ∈ op.newId?, ∀ v ∈ rows, v.id ≠ id)
    (he : Edit company concept rows op rows') : Sound rows' := by
  cases he with
  | created _ _ added _ accepted free => exact h.add (hf _ rfl) added accepted free
  | superseded mem active _ added version _ accepted free =>
      exact h.supersede (hf _ rfl) mem active added version accepted free
  | deleted _ _ successorOfNone _ => exact h.remove successorOfNone

end Sound

theorem rows_empty (company concept : String) : (scope {} company concept).rows = [] := rfl

/-- What relates the rows of every scope to themselves, and those of one scope to new rows, relates the
rows before the edit to those after it. -/
theorem relates_withRows {R : List FormulaVersion → List FormulaVersion → Prop}
    (hs : ∀ company concept, R (store.scope company concept).rows (store.scope company concept).rows)
    (hr : R (store.scope company concept).rows rows) (company' concept' : String) :
    R (store.scope company' concept').rows
      ((store.withRows company concept rows).scope company' concept').rows := by
  by_cases h : company = company' ∧ concept = concept'
  · obtain ⟨rfl, rfl⟩ := h
    rw [scope_withRows]
    exact hr
  · rw [scope_withRows_of_ne h]
    exact hs company' concept'

/-- An edit of one scope leaves what holds of all scopes. -/
theorem forall_scope_withRows {P : List FormulaVersion → Prop}
    (hs : ∀ company concept, P (store.scope company concept).rows) (hr : P rows)
    (company' concept' : String) :
    P ((store.withRows company concept rows).scope company' concept').rows :=
  relates_withRows (R := fun _ => P) hs hr company' concept'

theorem sound_after {op : Operation} (hs : ∀ company concept, Sound (store.scope company concept).rows)
    (hf : op.Fresh store) (company concept : String) :
    Sound ((op.after store).scope company concept).rows := by
  rw [Operation.after]
  split
  · next next hrun =>
    obtain ⟨company', concept', rows', hedit, rfl⟩ :=
      run_eq_ok (fun company concept => (hs company concept).sources) hrun
    refine forall_scope_withRows hs ?_ company concept
    exact (hs company' concept').edit (fun id hid => hf id hid company' concept') hedit
  · exact hs company concept

theorem sound_of_reachable (h : Reachable store) (company concept : String) :
    Sound (store.scope company concept).rows := by
  induction h generalizing company concept with
  | empty => exact Sound.nil
  | step op _ hf ih => exact sound_after ih hf company concept

/-- A change leaves the store as it was, or edits one scope. -/
theorem after_cases (h : Reachable store) (op : Operation) : op.after store = store ∨
    ∃ company concept rows', Edit company concept (store.scope company concept).rows op rows' ∧
      op.after store = store.withRows company concept rows' := by
  rw [Operation.after]
  split
  · next next hrun =>
    exact .inr (run_eq_ok (fun company concept => (sound_of_reachable h company concept).sources) hrun)
  · exact .inl rfl

/-- The row that a row names as its successor. -/
def Follows (rows : List FormulaVersion) (v w : FormulaVersion) : Prop :=
  w ∈ rows ∧ v.supersededBy = some w.id

/-- Successors have greater versions, of which there are finitely many. -/
theorem Sound.ends (h : Sound rows) {v : FormulaVersion} (hv : v ∈ rows) :
    ∃ w ∈ rows, Relation.ReflTransGen (Follows rows) v w ∧ w.active = true := by
  obtain ⟨M, hM⟩ := (rows.map (·.version)).toFinset.exists_le
  have hbound {w : FormulaVersion} (hw : w ∈ rows) : w.version ≤ M :=
    hM _ (List.mem_toFinset.2 (List.mem_map_of_mem hw))
  induction hn : (M - v.version).toNat using Nat.strongRecOn generalizing v with
  | ind n ih =>
      cases ha : v.active with
      | true => exact ⟨v, hv, .refl, ha⟩
      | false =>
          obtain ⟨w, hw, hid, -, hversion⟩ := h.replaced v hv ha
          have hwM := hbound hw
          obtain ⟨u, hu, hchain, hactive⟩ := ih (M - w.version).toNat (by omega) hw rfl
          exact ⟨u, hu, .head ⟨hw, hid⟩ hchain, hactive⟩

/-- The state of a scope, in the terms of its rows. -/
structure Consistent (rows : List FormulaVersion) : Prop where
  apart : ∀ v ∈ rows, ∀ w ∈ rows, v ≠ w → v.active = true → w.active = true →
    conflicts [v] (coverageOf w) none = []
  distinct : (rows.map (·.id)).Nodup
  inactive_iff : ∀ v ∈ rows,
    v.active = false ↔ v.supersededBy.isSome = true ∧ v.supersededAt.isSome = true
  successor : ∀ v ∈ rows, v.active = false → ∃ w ∈ rows, v.supersededBy = some w.id ∧
    w.version = v.version + 1 ∧ v.supersededAt = some w.createdAt
  single : ∀ v ∈ rows, ∀ w ∈ rows, v.supersededBy.isSome = true →
    v.supersededBy = w.supersededBy → v = w
  ends : ∀ v ∈ rows, ∃ w ∈ rows, Relation.ReflTransGen (Follows rows) v w ∧ w.active = true ∧
    ∀ u, ¬Follows rows w u
  accepted : ∀ v ∈ rows, ∃ tree, Formula.accept v.expression = .ok tree

theorem Sound.consistent (h : Sound rows) : Consistent rows where
  apart := by
    intro v hv w hw hne hva hwa
    apply conflicts_eq_nil.2
    intro u hu _ _
    cases List.mem_singleton.1 hu
    exact h.apart w hw v hv hne.symm hwa hva
  distinct := h.distinct
  inactive_iff := by
    intro v hv
    constructor
    · intro ha
      obtain ⟨w, -, hby, hat, -⟩ := h.replaced v hv ha
      simp [hby, hat]
    · rintro ⟨hby, -⟩
      exact h.inactive_of_superseded hv (Option.isSome_iff_ne_none.1 hby)
  successor := by
    intro v hv ha
    obtain ⟨w, hw, hby, hat, hversion⟩ := h.replaced v hv ha
    exact ⟨w, hw, hby, hversion, hat⟩
  single := fun v hv w hw hs he => h.single v hv w hw he (Option.isSome_iff_ne_none.1 hs)
  ends := by
    intro v hv
    obtain ⟨w, hw, hchain, ha⟩ := h.ends hv
    refine ⟨w, hw, hchain, ha, ?_⟩
    rintro u ⟨-, hu⟩
    rw [(h.current w hw ha).2] at hu
    cases hu
  accepted := h.sources.accepted

/-- Whatever is done to the stored formulas, every scope stays consistent. -/
theorem reachable_consistent {store : FormulaStore} (h : Reachable store)
    (company concept : String) : Consistent (store.scope company concept).rows :=
  (sound_of_reachable h company concept).consistent

/-- In a store with one scope an id is new if no row of that scope has it. -/
theorem Operation.fresh_of_scope {op : Operation} {s : Scope}
    (h : ∀ id ∈ op.newId?, ∀ v ∈ s.rows, v.id ≠ id) : op.Fresh ⟨[s]⟩ := by
  intro id hid company concept v hv
  simp only [scope, scopeIn] at hv
  split at hv
  · exact h id hid v hv
  · cases hv

/-! A bonus and a version that replaces it -/

def noon : Instant := .midJanuary

def bonus : FormulaVersion where
  id := "f1"
  company := "ACME"
  concept := "P010"
  kind := .perception
  name := "Bono"
  description := none
  expression := "custom1"
  taxable := true
  exempt := false
  exemptLimit := none
  limitUnit := none
  satKey := none
  fiscalYear := none
  validFrom := none
  validTo := none
  version := 1
  active := true
  createdAt := noon
  createdBy := none
  supersededAt := none
  supersededBy := none

def granted : Operation := .create "f1" noon {
  company := .text "ACME"
  concept := .text "P010"
  kind := .text "PERCEPTION"
  name := .text "Bono"
  expression := .text "custom1" }

def renamed : Operation := .newVersion "f2" noon (.text "f1") [("name", .text "Premio")] .null

def oneRow : FormulaStore := ⟨[⟨"ACME", "P010", 1, [bonus]⟩]⟩

def twoRows : FormulaStore :=
  ⟨[⟨"ACME", "P010", 2,
    [supersede bonus noon "f2", { bonus with id := "f2", name := "Premio", version := 2 }]⟩]⟩

theorem granted_after : granted.after {} = oneRow := by cbv

theorem renamed_after : renamed.after oneRow = twoRows := by cbv

theorem reachable_oneRow : Reachable oneRow := by
  rw [← granted_after]
  refine .step granted .empty ?_
  intro id _ company concept v hv
  cases hv

theorem fresh_renamed : renamed.Fresh oneRow := Operation.fresh_of_scope (by decide)

theorem reachable_twoRows : Reachable twoRows := by
  rw [← renamed_after]
  exact .step renamed reachable_oneRow fresh_renamed

theorem twoRows_consistent : Reachable twoRows ∧ Consistent (twoRows.scope "ACME" "P010").rows :=
  ⟨reachable_twoRows, reachable_consistent reachable_twoRows "ACME" "P010"⟩

end Payroll.FormulaStore
