import Mathlib
import Payroll.Proofs.VersionHistory

/-!
Where the rows of a store stand: every concept has one scope and is listed once, its rows name it,
and a row is found under its id wherever it stands.
-/

namespace Payroll.FormulaStore

open Result Version

variable {store next : FormulaStore} {op : Operation} {company concept : String} {codes : List String}
  {rows rows' : List FormulaVersion} {s : Scope} {v : FormulaVersion}

def key (s : Scope) : String × String := (s.company, s.concept)

theorem key_eq {t : Scope} : key t = key s ↔ t.company = s.company ∧ t.concept = s.concept :=
  Prod.mk_inj

theorem mem_putScope {ss : List Scope} {t : Scope} (h : t ∈ putScope s ss) : t = s ∨ t ∈ ss := by
  induction ss with
  | nil => exact .inl (List.mem_singleton.1 h)
  | cons u us ih =>
      rw [putScope] at h
      split at h
      · rcases List.mem_cons.1 h with rfl | h
        · exact .inl rfl
        · exact .inr (List.mem_cons_of_mem _ h)
      · rcases List.mem_cons.1 h with rfl | h
        · exact .inr List.mem_cons_self
        · exact (ih h).imp_right (List.mem_cons_of_mem _)

theorem nodup_putScope {ss : List Scope} (h : (ss.map key).Nodup) :
    ((putScope s ss).map key).Nodup := by
  induction ss with
  | nil => exact List.nodup_singleton _
  | cons t ts ih =>
      rw [List.map_cons, List.nodup_cons] at h
      obtain ⟨ht, hts⟩ := h
      rw [putScope]
      split
      · next hsame =>
        rw [List.map_cons, List.nodup_cons, ← key_eq.2 hsame]
        exact ⟨ht, hts⟩
      · next hother =>
        rw [List.map_cons, List.nodup_cons]
        refine ⟨?_, ih hts⟩
        intro hmem
        obtain ⟨u, hu, hkey⟩ := List.mem_map.1 hmem
        rcases mem_putScope hu with rfl | hu
        · exact hother (key_eq.1 hkey.symm)
        · exact ht (hkey ▸ List.mem_map_of_mem hu)

theorem nodup_keys_of_reachable (h : Reachable store) : (store.scopes.map key).Nodup := by
  induction h with
  | empty => exact List.nodup_nil
  | step op hr _ ih =>
      rcases after_cases hr op with he | ⟨company, concept, rows', -, he⟩
      · rwa [he]
      · rw [he]
        exact nodup_putScope ih

theorem scopeIn_of_mem {ss : List Scope} (h : (ss.map key).Nodup) (hs : s ∈ ss) :
    scopeIn s.company s.concept ss = s := by
  induction ss with
  | nil => cases hs
  | cons t ts ih =>
      rw [List.map_cons, List.nodup_cons] at h
      rw [scopeIn]
      rcases List.mem_cons.1 hs with rfl | hs
      · rw [if_pos ⟨rfl, rfl⟩]
      · rw [if_neg, ih h.2 hs]
        intro hsame
        exact h.1 (key_eq.2 hsame ▸ List.mem_map_of_mem hs)

/-- A scope that has rows is stored. -/
theorem scopeIn_mem {ss : List Scope} (hv : v ∈ (scopeIn company concept ss).rows) :
    scopeIn company concept ss ∈ ss := by
  induction ss with
  | nil => cases hv
  | cons t ts ih =>
      rw [scopeIn] at hv ⊢
      split
      · exact List.mem_cons_self
      · next hne =>
        rw [if_neg hne] at hv
        exact List.mem_cons_of_mem _ (ih hv)

/-- Every row stands in the scope that it names. -/
def Placed (store : FormulaStore) : Prop :=
  ∀ company concept, ∀ v ∈ (store.scope company concept).rows,
    v.company = company ∧ v.concept = concept

theorem Edit.placed (h : Edit company concept rows op rows')
    (hrows : ∀ v ∈ rows, v.company = company ∧ v.concept = concept) :
    ∀ v ∈ rows', v.company = company ∧ v.concept = concept := by
  intro v hv
  cases h with
  | created company_eq concept_eq =>
      rcases List.mem_append.1 hv with hv | hv
      · exact hrows v hv
      · cases List.mem_singleton.1 hv
        exact ⟨company_eq.2, concept_eq.2⟩
  | @superseded id now _ _ old row mem _ scope_eq =>
      rcases List.mem_append.1 hv with hv | hv
      · obtain ⟨u, hu, rfl⟩ := List.mem_map.1 hv
        split
        · exact hrows old mem
        · exact hrows u hu
      · cases List.mem_singleton.1 hv
        obtain ⟨hcompany, hconcept⟩ := hrows old mem
        exact ⟨scope_eq.1.trans hcompany, scope_eq.2.trans hconcept⟩
  | deleted => exact hrows v (List.mem_of_mem_filter hv)

theorem placed_of_reachable (h : Reachable store) : Placed store := by
  induction h with
  | empty =>
      intro company concept v hv
      rw [rows_empty] at hv
      cases hv
  | step op hr _ ih =>
      rcases after_cases hr op with he | ⟨company, concept, rows', hedit, he⟩
      · rwa [he]
      · rw [he]
        intro company' concept' v hv
        by_cases hsame : company = company' ∧ concept = concept'
        · obtain ⟨rfl, rfl⟩ := hsame
          rw [scope_withRows] at hv
          exact hedit.placed (ih company concept) v hv
        · rw [scope_withRows_of_ne hsame] at hv
          exact ih company' concept' v hv

/-- What is found under the id of a row stands in its scope. -/
theorem find_of_mem (h : Reachable store) (hv : v ∈ (store.scope company concept).rows) :
    ∃ w, store.find (.text v.id) = .ok w ∧ w.id = v.id ∧ w.company = company ∧
      w.concept = concept := by
  have hmem : v ∈ (store.scopes.mergeSort fileOrder).flatMap (·.rows) :=
    List.mem_flatMap.2 ⟨_, List.mem_mergeSort.2 (scopeIn_mem hv), hv⟩
  cases hfound : ((store.scopes.mergeSort fileOrder).flatMap (·.rows)).find?
      fun w => w.id == v.id with
  | none => exact absurd (beq_self_eq_true v.id) (List.find?_eq_none.1 hfound v hmem)
  | some w =>
      have hsame := List.find?_some hfound
      have hid : w.id = v.id := beq_iff_eq.1 hsame
      obtain ⟨s, hs, hw⟩ := List.mem_flatMap.1 (List.mem_of_find?_eq_some hfound)
      have hscope : store.scope s.company s.concept = s :=
        scopeIn_of_mem (nodup_keys_of_reachable h) (List.mem_mergeSort.1 hs)
      rw [← hscope] at hw
      obtain ⟨hcompany, hconcept⟩ := separate_of_reachable h _ _ _ _ w hw v hv hid
      rw [hcompany, hconcept] at hw
      refine ⟨w, ?_, hid, placed_of_reachable h _ _ w hw⟩
      simp only [find, Json.text?, Option.bind_some, hfound]

theorem concepts_eq_ok (h : store.concepts (.text company) = .ok codes) :
    codes.Perm ((store.scopes.filter fun s => s.company == company).map (·.concept)) := by
  obtain ⟨_, hkey, h⟩ := bind_eq_ok.1 h
  cases h
  rw [(Key.check_eq_ok.1 hkey).2]
  exact List.mergeSort_perm _ _

theorem nodup_concepts (hr : Reachable store) (h : store.concepts (.text company) = .ok codes) :
    codes.Nodup := by
  rw [(concepts_eq_ok h).nodup_iff]
  have hkeys := (nodup_keys_of_reachable hr).sublist
    ((List.filter_sublist (p := fun s => s.company == company)).map key)
  refine List.Nodup.of_map (company, ·) ?_
  rw [List.map_map]
  convert hkeys using 1
  apply List.map_congr_left
  intro s hs
  exact Prod.ext (beq_iff_eq.1 (List.mem_filter.1 hs).2).symm rfl

/-- A concept with rows is among those of its company. -/
theorem mem_concepts (h : store.concepts (.text company) = .ok codes)
    (hv : v ∈ (store.scope company concept).rows) : concept ∈ codes := by
  obtain ⟨hcompany, hconcept⟩ := store.scope_key company concept
  refine (concepts_eq_ok h).mem_iff.2 (List.mem_map.2 ⟨store.scope company concept, ?_, hconcept⟩)
  exact List.mem_filter.2 ⟨scopeIn_mem hv, beq_iff_eq.2 hcompany⟩

end Payroll.FormulaStore
