import Mathlib
import Payroll.Proofs.VersionChains

/-!
What a change leaves of the stored rows: superseded rows are never touched, an active row changes
at most its state, and other scopes stay as they are.
-/

namespace Payroll.FormulaStore

open Version

variable {store next : FormulaStore} {op : Operation} {company concept : String}
  {rows rows' : List FormulaVersion}

namespace Edit

theorem keeps_inactive (hs : Sound rows) (h : Edit company concept rows op rows')
    {v : FormulaVersion} (hv : v ∈ rows) (ha : v.active = false) : v ∈ rows' := by
  cases h with
  | created => exact List.mem_append_left _ hv
  | @superseded id now _ _ old row mem active =>
      refine (hs.mem_supersede mem row now id).2 (.inr (.inr ⟨hv, ?_⟩))
      rintro rfl
      rw [active] at ha
      cases ha
  | @deleted _ row mem active =>
      refine List.mem_filter.2 ⟨hv, ?_⟩
      have hne : v.id ≠ row.id := by
        intro he
        rw [hs.eq_of_id hv mem he, active] at ha
        cases ha
      simpa using hne

/-- A row under an old id is the old row, in the same or another state. -/
theorem keeps_fields (hs : Sound rows) (hf : ∀ id ∈ op.newId?, ∀ v ∈ rows, v.id ≠ id)
    (h : Edit company concept rows op rows') {v w : FormulaVersion} (hv : v ∈ rows)
    (hw : w ∈ rows') (hid : w.id = v.id) :
    w = { v with
      active := w.active
      supersededAt := w.supersededAt
      supersededBy := w.supersededBy } := by
  have hsame (hold : w ∈ rows) : w = { v with
      active := w.active
      supersededAt := w.supersededAt
      supersededBy := w.supersededBy } := by
    cases hs.eq_of_id hold hv hid
    rfl
  cases h with
  | created _ _ added =>
      rcases List.mem_append.1 hw with hw | hw
      · exact hsame hw
      · cases List.mem_singleton.1 hw
        exact absurd (hid.symm.trans added.id_eq) (hf _ rfl v hv)
  | @superseded id now _ _ old row mem _ _ added =>
      rcases (hs.mem_supersede mem row now id).1 hw with rfl | rfl | ⟨hw, -⟩
      · exact absurd (hid.symm.trans added.id_eq) (hf _ rfl v hv)
      · cases hs.eq_of_id mem hv hid
        rfl
      · exact hsame hw
  | deleted => exact hsame (List.mem_of_mem_filter hw)

theorem gone (hs : Sound rows) (h : Edit company concept rows op rows') {v : FormulaVersion}
    (hv : v ∈ rows) (hgone : ∀ w ∈ rows', w.id ≠ v.id) :
    v.active = true ∧ (∀ w ∈ rows, w.supersededBy ≠ some v.id) ∧
      ∃ isReferenced, op = .delete isReferenced (.text v.id) := by
  cases h with
  | created => exact absurd rfl (hgone v (List.mem_append_left _ hv))
  | @superseded id now _ _ old row mem =>
      by_cases he : v = old
      · subst he
        have hmem := (hs.mem_supersede mem row now id).2 (.inr (.inl rfl))
        exact absurd rfl (hgone (supersede v now id) hmem)
      · exact absurd rfl (hgone v ((hs.mem_supersede mem row now id).2 (.inr (.inr ⟨hv, he⟩))))
  | @deleted isReferenced row mem active successorOfNone =>
      have he : v.id = row.id := by
        by_contra hne
        exact hgone v (List.mem_filter.2 ⟨hv, by simpa using hne⟩) rfl
      cases hs.eq_of_id hv mem he
      exact ⟨active, successorOfNone, isReferenced, rfl⟩

theorem ids (h : Edit company concept rows op rows') {w : FormulaVersion} (hw : w ∈ rows') :
    (∃ v ∈ rows, v.id = w.id) ∨ op.newId? = some w.id := by
  cases h with
  | created _ _ added =>
      rcases List.mem_append.1 hw with hw | hw
      · exact .inl ⟨w, hw, rfl⟩
      · cases List.mem_singleton.1 hw
        exact .inr (congrArg some added.id_eq.symm)
  | @superseded id now _ _ old row _ _ _ added =>
      rcases List.mem_append.1 hw with hw | hw
      · obtain ⟨v, hv, rfl⟩ := List.mem_map.1 hw
        refine .inl ⟨v, hv, ?_⟩
        by_cases he : v.id = old.id
        · simp [he, supersede]
        · simp [he]
      · cases List.mem_singleton.1 hw
        exact .inr (congrArg some added.id_eq.symm)
  | deleted => exact .inl ⟨w, List.mem_of_mem_filter hw, rfl⟩

end Edit

/-- The scope that a change is about: the one of a draft, or the one that holds the row it names. -/
def Operation.Concerns (store : FormulaStore) (company concept : String) : Operation → Prop
  | .create _ _ d => d.company = .text company ∧ d.concept = .text concept
  | .newVersion _ _ formula _ _ => ∃ v ∈ (store.scope company concept).rows, formula = .text v.id
  | .delete _ formula => ∃ v ∈ (store.scope company concept).rows, formula = .text v.id

theorem Edit.concerns (h : Edit company concept (store.scope company concept).rows op rows') :
    op.Concerns store company concept := by
  cases h with
  | created company_eq concept_eq => exact ⟨company_eq.1, concept_eq.1⟩
  | superseded mem => exact ⟨_, mem, rfl⟩
  | deleted mem => exact ⟨_, mem, rfl⟩

/-- No id stands in two scopes. -/
def Separate (store : FormulaStore) : Prop :=
  ∀ company concept company' concept', ∀ v ∈ (store.scope company concept).rows,
    ∀ w ∈ (store.scope company' concept').rows, v.id = w.id →
      company = company' ∧ concept = concept'

theorem separate_after (hs : ∀ company concept, Sound (store.scope company concept).rows)
    (hsep : Separate store) (hf : op.Fresh store) : Separate (op.after store) := by
  rw [Operation.after]
  split
  · next next hrun =>
    obtain ⟨company, concept, rows', hedit, rfl⟩ :=
      run_eq_ok (fun company concept => (hs company concept).sources) hrun
    -- a row of the store after the change stands where its id stood before, or is the new one
    have hrow (c k : String) (v : FormulaVersion)
        (hv : v ∈ ((store.withRows company concept rows').scope c k).rows) :
        (∃ u ∈ (store.scope c k).rows, u.id = v.id) ∨
          op.newId? = some v.id ∧ company = c ∧ concept = k := by
      by_cases he : company = c ∧ concept = k
      · obtain ⟨rfl, rfl⟩ := he
        rw [scope_withRows] at hv
        rcases hedit.ids hv with hold | hnew
        · exact .inl hold
        · exact .inr ⟨hnew, rfl, rfl⟩
      · rw [scope_withRows_of_ne he] at hv
        exact .inl ⟨v, hv, rfl⟩
    intro c k c' k' v hv w hw hid
    rcases hrow c k v hv with ⟨u, hu, hue⟩ | ⟨hnew, rfl, rfl⟩ <;>
      rcases hrow c' k' w hw with ⟨u', hu', hue'⟩ | ⟨hnew', rfl, rfl⟩
    · exact hsep c k c' k' u hu u' hu' (hue.trans (hid.trans hue'.symm))
    · exact absurd (hue.trans hid) (hf _ hnew' c k u hu)
    · exact absurd (hue'.trans hid.symm) (hf _ hnew c' k' u' hu')
    · exact ⟨rfl, rfl⟩
  · exact hsep

theorem separate_of_reachable (h : Reachable store) : Separate store := by
  induction h with
  | empty =>
      intro company concept _ _ v hv
      rw [rows_empty] at hv
      cases hv
  | step op hr hf ih => exact separate_after (sound_of_reachable hr) ih hf

theorem concerns_unique (hsep : Separate store) {company' concept' : String}
    (h : op.Concerns store company concept) (h' : op.Concerns store company' concept') :
    company = company' ∧ concept = concept' := by
  cases op with
  | create id now d =>
      refine ⟨?_, ?_⟩
      · exact Json.text.inj (h.1.symm.trans h'.1)
      · exact Json.text.inj (h.2.symm.trans h'.2)
  | newVersion id now formula changes createdBy =>
      obtain ⟨v, hv, hid⟩ := h
      obtain ⟨w, hw, hid'⟩ := h'
      exact hsep _ _ _ _ v hv w hw (Json.text.inj (hid.symm.trans hid'))
  | delete isReferenced formula =>
      obtain ⟨v, hv, hid⟩ := h
      obtain ⟨w, hw, hid'⟩ := h'
      exact hsep _ _ _ _ v hv w hw (Json.text.inj (hid.symm.trans hid'))

/-- What is left of a store by a change, and what a new version adds to it. -/
structure Preserves (op : Operation) (store next : FormulaStore) : Prop where
  inactive : ∀ company concept, ∀ v ∈ (store.scope company concept).rows, v.active = false →
    v ∈ (next.scope company concept).rows
  active : ∀ company concept, ∀ v ∈ (store.scope company concept).rows, v.active = true →
    ∀ w ∈ (next.scope company concept).rows, w.id = v.id →
      w = { v with
        active := w.active
        supersededAt := w.supersededAt
        supersededBy := w.supersededBy }
  gone : ∀ company concept, ∀ v ∈ (store.scope company concept).rows,
    (∀ w ∈ (next.scope company concept).rows, w.id ≠ v.id) →
      v.active = true ∧ (∀ w ∈ (store.scope company concept).rows, w.supersededBy ≠ some v.id) ∧
        ∃ isReferenced, op = .delete isReferenced (.text v.id)
  frame : ∀ company concept, ¬op.Concerns store company concept →
    next.scope company concept = store.scope company concept
  single : ∀ company concept company' concept', op.Concerns store company concept →
    op.Concerns store company' concept' → company = company' ∧ concept = concept'
  failed : ∀ f, op.run store = .error f →
    ∀ company concept, next.scope company concept = store.scope company concept
  appended : ∀ id now formula changes createdBy, op = .newVersion id now formula changes createdBy →
    op.run store = .ok next → ∃ company concept,
      ∃ old ∈ (store.scope company concept).rows, ∃ row, formula = .text old.id ∧
        (next.scope company concept).rows = (store.scope company concept).rows.map
          (fun v => if v.id = old.id then supersede old now id else v) ++ [row] ∧
        old.Amended (Fields.overlay [] changes) row ∧
        row.company = old.company ∧ row.concept = old.concept

theorem preserves_of_edit (hs : ∀ company concept, Sound (store.scope company concept).rows)
    (hsep : Separate store) (hf : op.Fresh store) (hrun : op.run store = .ok next)
    (hedit : Edit company concept (store.scope company concept).rows op rows')
    (hnext : next = store.withRows company concept rows') : Preserves op store next := by
  subst hnext
  have hsound := hs company concept
  have hfresh : ∀ id ∈ op.newId?, ∀ v ∈ (store.scope company concept).rows, v.id ≠ id :=
    fun id hid => hf id hid company concept
  have hsame (c k : String) {v w : FormulaVersion} (hv : v ∈ (store.scope c k).rows)
      (hw : w ∈ (store.scope c k).rows) (hid : w.id = v.id) : w = v := (hs c k).eq_of_id hw hv hid
  constructor
  case inactive =>
    exact relates_withRows (R := fun rows rows' => ∀ v ∈ rows, v.active = false → v ∈ rows')
      (fun _ _ _ hv _ => hv) fun _ => hedit.keeps_inactive hsound
  case active =>
    apply relates_withRows (R := fun rows rows' => ∀ v ∈ rows, v.active = true →
      ∀ w ∈ rows', w.id = v.id → w = { v with
        active := w.active
        supersededAt := w.supersededAt
        supersededBy := w.supersededBy })
    · intro c k v hv _ w hw hid
      cases hsame c k hv hw hid
      rfl
    · exact fun _ hv _ _ => hedit.keeps_fields hsound hfresh hv
  case gone =>
    exact relates_withRows (R := fun rows rows' => ∀ v ∈ rows, (∀ w ∈ rows', w.id ≠ v.id) →
      v.active = true ∧ (∀ w ∈ rows, w.supersededBy ≠ some v.id) ∧
        ∃ isReferenced, op = .delete isReferenced (.text v.id))
      (fun _ _ v hv hgone => absurd rfl (hgone v hv)) fun _ => hedit.gone hsound
  case frame =>
    intro c k hnot
    apply scope_withRows_of_ne
    rintro ⟨rfl, rfl⟩
    exact hnot hedit.concerns
  case single => exact fun _ _ _ _ => concerns_unique hsep
  case failed =>
    intro f hfail
    rw [hrun] at hfail
    cases hfail
  case appended =>
    rintro id now formula changes createdBy rfl -
    cases hedit with
    | superseded mem _ scope_eq _ _ amended =>
        refine ⟨company, concept, _, mem, _, rfl, ?_, amended, scope_eq.1, scope_eq.2⟩
        rw [scope_withRows]

theorem preserves_of_error (hs : ∀ company concept, Sound (store.scope company concept).rows)
    (hsep : Separate store) {f : Fault} (hrun : op.run store = .error f) :
    Preserves op store store where
  inactive := fun _ _ _ hv _ => hv
  active := by
    intro c k v hv _ w hw hid
    cases (hs c k).eq_of_id hw hv hid
    rfl
  gone := fun _ _ v hv hgone => absurd rfl (hgone v hv)
  frame := fun _ _ _ => rfl
  single := fun _ _ _ _ => concerns_unique hsep
  failed := fun _ _ _ _ => rfl
  appended := by
    intro _ _ _ _ _ _ hok
    rw [hrun] at hok
    cases hok

/-- Whatever the change and whether it succeeds, it keeps the history of every scope. -/
theorem reachable_preserves {store : FormulaStore} {op : Operation} (h : Reachable store)
    (hf : op.Fresh store) : Preserves op store (op.after store) := by
  have hs := sound_of_reachable h
  have hsep := separate_of_reachable h
  rw [Operation.after]
  split
  · next next hrun =>
    obtain ⟨company, concept, rows', hedit, hnext⟩ :=
      run_eq_ok (fun company concept => (hs company concept).sources) hrun
    exact preserves_of_edit hs hsep hf hrun hedit hnext
  · next f hrun => exact preserves_of_error hs hsep hrun

theorem renamed_preserves : Reachable oneRow ∧ renamed.Fresh oneRow ∧
    Preserves renamed oneRow (renamed.after oneRow) :=
  ⟨reachable_oneRow, fresh_renamed, reachable_preserves reachable_oneRow fresh_renamed⟩

end Payroll.FormulaStore
