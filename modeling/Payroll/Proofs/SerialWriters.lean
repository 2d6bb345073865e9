import Mathlib
import Payroll.Proofs.StoredScopes
import Payroll.Version.Writers

/-!
Writers of stored formulas at work at the same time. As the revision of a scope rises with every
write to it, a scope of the revision that was read is the scope that was read: those that write have
the effect of their changes made one after the other.
-/

namespace Payroll.FormulaStore

open Result Version

variable {store next start : FormulaStore} {op : Operation} {company concept : String}
  {rows : List FormulaVersion} {s : Scope} {v : FormulaVersion} {w : Writer} {ws : Writers}

/-- A change settles its scope, reads it, computes its rows and writes them. -/
theorem Operation.run_eq (op : Operation) (store : FormulaStore) : op.run store = (do
    let change ← op.change store
    let s ← store.scopeOf (.text change.company) (.text change.concept)
    let rows ← change.rows s.rows
    store.write s.company s.concept s.revision rows) := by
  cases op with
  | create id now d =>
      simp only [run, FormulaStore.create, change, Change.adding, bind_assoc, pure_bind, bind_pure]
      refine bind_congr fun _ => bind_congr fun _ => bind_congr fun _ => bind_congr fun row => ?_
      -- the write names the scope by the row, not by what was read
      cases hscope : store.scopeOf (.text row.company) (.text row.concept) with
      | error f => rfl
      | ok s =>
          obtain ⟨hcompany, hconcept⟩ := store.scope_key row.company row.concept
          rw [← scopeOf_eq_ok hscope] at hcompany hconcept
          rw [← hcompany, ← hconcept]
          rfl
  | newVersion id now formula changes createdBy =>
      simp only [run, FormulaStore.newVersion, change, locate, Change.superseding, bind_assoc,
        pure_bind, bind_pure]
  | delete isReferenced formula =>
      simp only [run, FormulaStore.delete, change, locate, Change.removing, bind_assoc, pure_bind]

theorem scopeOf_iff : store.scopeOf (.text company) (.text concept) = .ok s ↔
    (Key.isSafe company = true ∧ Key.isSafe concept = true) ∧ s = store.scope company concept := by
  constructor
  · intro h
    refine ⟨?_, scopeOf_eq_ok h⟩
    obtain ⟨_, hc, h⟩ := bind_eq_ok.1 h
    obtain ⟨_, hk, -⟩ := bind_eq_ok.1 h
    exact ⟨(Key.check_eq_ok.1 hc).1, (Key.check_eq_ok.1 hk).1⟩
  · rintro ⟨⟨hc, hk⟩, rfl⟩
    exact bind_eq_ok.2 ⟨_, Key.check_eq_ok.2 ⟨hc, rfl⟩,
      bind_eq_ok.2 ⟨_, Key.check_eq_ok.2 ⟨hk, rfl⟩, rfl⟩⟩

theorem write_eq_error {expected : Int} {f : Fault} :
    store.write company concept expected rows = .error f ↔
      (store.scope company concept).revision ≠ expected ∧
        f = .staleRevision company concept expected (store.scope company concept).revision := by
  unfold write
  simp only
  split
  · next h => simp [h]
  · next h => simp [h, eq_comm]

/-- A row that is still in its scope is found again, as it may have become. -/
theorem find_again {earlier : FormulaStore} {formula : Json} (h : Reachable store)
    (hfind : earlier.find formula = .ok v)
    {current : FormulaVersion} (hcurrent : (store.scope v.company v.concept).rows.find?
      (fun u => u.id == v.id) = some current) :
    ∃ u, store.find formula = .ok u ∧ u.id = v.id ∧ u.company = v.company ∧
      u.concept = v.concept := by
  have hid := List.find?_some hcurrent
  have hfound := find_of_mem h (List.mem_of_find?_eq_some hcurrent)
  rwa [beq_iff_eq.1 hid, ← find_eq_ok hfind] at hfound

/-- What was settled on an earlier store is settled alike as long as the rows can be computed. -/
theorem Operation.change_again {earlier : FormulaStore} {change : Change} (h : Reachable store)
    (hchange : op.change earlier = .ok change)
    (hrows : change.rows (store.scope change.company change.concept).rows = .ok rows) :
    op.change store = .ok change := by
  cases op with
  | create id now d => exact hchange
  | newVersion id now formula changes createdBy =>
      obtain ⟨_, hfields, hchange⟩ := bind_eq_ok.1 hchange
      obtain ⟨_, haccept, hchange⟩ := bind_eq_ok.1 hchange
      obtain ⟨v, hfind, hchange⟩ := bind_eq_ok.1 hchange
      cases hchange
      obtain ⟨current, hcurrent, -⟩ := bind_eq_ok.1 hrows
      obtain ⟨u, hu, hid, hcompany, hconcept⟩ := find_again h hfind (existing_eq_ok.1 hcurrent)
      refine bind_eq_ok.2 ⟨_, hfields, bind_eq_ok.2 ⟨_, haccept, bind_eq_ok.2 ⟨u, hu, ?_⟩⟩⟩
      simp only [Change.superseding, hid, hcompany, hconcept]
      rfl
  | delete isReferenced formula =>
      obtain ⟨v, hfind, hchange⟩ := bind_eq_ok.1 hchange
      cases hchange
      obtain ⟨current, hcurrent, -⟩ := bind_eq_ok.1 hrows
      obtain ⟨u, hu, hid, hcompany, hconcept⟩ := find_again h hfind (existing_eq_ok.1 hcurrent)
      refine bind_eq_ok.2 ⟨u, hu, ?_⟩
      simp only [Change.removing, hid, hcompany, hconcept]
      rfl

/-- A new id is one that no row had, or the one that the change was given. -/
theorem ids_of_run (h : Reachable store) (hrun : op.run store = .ok next)
    (hv : v ∈ (next.scope company concept).rows) :
    (∃ u ∈ (store.scope company concept).rows, u.id = v.id) ∨ op.newId? = some v.id := by
  obtain ⟨company', concept', rows', hedit, rfl⟩ :=
    run_eq_ok (fun company concept => (sound_of_reachable h company concept).sources) hrun
  by_cases he : company' = company ∧ concept' = concept
  · obtain ⟨rfl, rfl⟩ := he
    rw [scope_withRows] at hv
    exact hedit.ids hv
  · rw [scope_withRows_of_ne he] at hv
    exact .inl ⟨v, hv, rfl⟩

/-- What a writer has read of its scope; it is the scope until another writes there. -/
structure Writer.Saw (w : Writer) (store : FormulaStore) (s : Scope) : Prop where
  keys : Key.isSafe w.change.company = true ∧ Key.isSafe w.change.concept = true
  company : s.company = w.change.company
  concept : s.concept = w.change.concept
  earlier : s.revision ≤ (store.scope w.change.company w.change.concept).revision
  same : s.revision = (store.scope w.change.company w.change.concept).revision →
    s = store.scope w.change.company w.change.concept

theorem Writer.saw_of_scopeOf
    (h : store.scopeOf (.text w.change.company) (.text w.change.concept) = .ok s) :
    w.Saw store s := by
  obtain ⟨hkeys, rfl⟩ := scopeOf_iff.1 h
  obtain ⟨hcompany, hconcept⟩ := store.scope_key w.change.company w.change.concept
  exact ⟨hkeys, hcompany, hconcept, le_rfl, fun _ => rfl⟩

/-- Revisions are not used again. -/
theorem Writer.Saw.withRows (h : w.Saw store s) :
    w.Saw (store.withRows company concept rows) s := by
  by_cases he : company = w.change.company ∧ concept = w.change.concept
  · obtain ⟨rfl, rfl⟩ := he
    have hearlier := h.earlier
    refine ⟨h.keys, h.company, h.concept, ?_, ?_⟩
    · rw [scope_withRows]
      exact hearlier.trans (Int.le_add_one le_rfl)
    · rw [scope_withRows]
      intro hsame
      exact absurd hsame (Int.lt_add_one_iff.2 hearlier).ne
  · refine ⟨h.keys, h.company, h.concept, ?_, ?_⟩
    · rw [scope_withRows_of_ne he]
      exact h.earlier
    · rw [scope_withRows_of_ne he]
      exact h.same

/-- The write of what a writer has computed goes through as long as nobody else wrote. -/
theorem Writer.Saw.write_iff (h : w.Saw store s) :
    (∃ next, store.write s.company s.concept s.revision rows = .ok next) ↔
      store.scope w.change.company w.change.concept = s := by
  rw [h.company, h.concept]
  constructor
  · rintro ⟨next, hwrite⟩
    exact (h.same (write_eq_ok.1 hwrite).1.symm).symm
  · intro hsame
    exact ⟨_, write_eq_ok.2 ⟨congrArg Scope.revision hsame, rfl⟩⟩

structure Writer.Sound (store : FormulaStore) (w : Writer) : Prop where
  fresh : w.op.Fresh store
  settled : ∃ earlier, w.op.change earlier = .ok w.change
  saw : ∀ s ∈ w.read, w.Saw store s

/-- A write is the writer's change made to the store as it is at that moment. -/
theorem Writer.Sound.run_of_write (h : w.Sound store) (hr : Reachable store) (hread : w.read = some s)
    (hrows : w.change.rows s.rows = .ok rows)
    (hwrite : store.write s.company s.concept s.revision rows = .ok next) :
    w.op.run store = .ok next ∧ next = store.withRows w.change.company w.change.concept rows := by
  have hsaw := h.saw s hread
  obtain ⟨earlier, hchange⟩ := h.settled
  obtain rfl := hsaw.write_iff.1 ⟨next, hwrite⟩
  refine ⟨?_, ?_⟩
  · rw [Operation.run_eq]
    refine bind_eq_ok.2 ⟨_, Operation.change_again hr hchange hrows, ?_⟩
    refine bind_eq_ok.2 ⟨_, scopeOf_iff.2 ⟨hsaw.keys, rfl⟩, ?_⟩
    exact bind_eq_ok.2 ⟨rows, hrows, hwrite⟩
  · rw [hsaw.company, hsaw.concept] at hwrite
    exact (write_eq_ok.1 hwrite).2

/-- Two changes whose new rows have different ids. -/
def Operation.Distinct (a b : Operation) : Prop := ∀ id ∈ a.newId?, b.newId? ≠ some id

theorem Operation.Distinct.symm {a b : Operation} (h : a.Distinct b) : b.Distinct a :=
  fun id hb ha => h id ha hb

theorem Writer.Sound.after_write (h : w.Sound store) (hr : Reachable store)
    (hrun : op.run store = .ok (store.withRows company concept rows))
    (hne : op.Distinct w.op) : w.Sound (store.withRows company concept rows) where
  fresh := by
    intro id hid company concept v hv he
    rcases ids_of_run hr hrun hv with ⟨u, hu, hue⟩ | hnew
    · exact h.fresh id hid company concept u hu (hue.trans he)
    · rw [he] at hnew
      exact hne id hnew hid
  settled := h.settled
  saw := fun s hs => (h.saw s hs).withRows

/-- Whether a writer's change is about a scope. -/
def Writer.isOf (company concept : String) (w : Writer) : Bool :=
  w.change.company == company && w.change.concept == concept

namespace Writers

/-- A refusal: what was read had been written since. -/
def Outdated (w : Writer) (f : Fault) : Prop :=
  ∃ s ∈ w.read, ∃ current, s.revision < current ∧
    f = .staleRevision w.change.company w.change.concept s.revision current

/-- What holds of writers at work, whoever did the last step. -/
structure Sound (start : FormulaStore) (ws : Writers) : Prop where
  reachable : Reachable ws.store
  sound : ∀ w ∈ ws.underWay, w.Sound ws.store
  distinct : (ws.underWay.map (·.op)).Pairwise Operation.Distinct
  replayed : replay start ws.written = .ok ws.store
  revision : ∀ company concept, (ws.store.scope company concept).revision =
    (start.scope company concept).revision + ws.written.countP (Writer.isOf company concept)
  refused : ∀ p ∈ ws.refused, Outdated p.1 p.2

namespace Sound

variable {before after : List Writer}

theorem of_start (h : Reachable start) : Sound start ⟨start, [], [], []⟩ where
  reachable := h
  sound := nofun
  distinct := .nil
  replayed := rfl
  revision := fun _ _ => (Int.add_zero _).symm
  refused := nofun

theorem sound_of_mem (h : Sound start ws) (hw : ws.underWay = before ++ w :: after) :
    w.Sound ws.store :=
  h.sound w (hw ▸ List.mem_append_right _ List.mem_cons_self)

/-- A writer that ends leaves the others as they are. -/
theorem drop (h : Sound start ws) (hw : ws.underWay = before ++ w :: after) :
    (∀ u ∈ before ++ after, u.Sound ws.store ∧ w.op.Distinct u.op) ∧
      ((before ++ after).map (·.op)).Pairwise Operation.Distinct := by
  have hsound := h.sound
  have hdistinct := h.distinct
  rw [hw, List.map_append, List.map_cons] at hdistinct
  rw [hw] at hsound
  refine ⟨?_, ?_⟩
  · obtain ⟨-, hafter, hbefore⟩ := List.pairwise_append.1 hdistinct
    intro u hu
    rcases List.mem_append.1 hu with hu | hu
    · refine ⟨hsound u (List.mem_append_left _ hu), ?_⟩
      exact (hbefore _ (List.mem_map_of_mem hu) _ List.mem_cons_self).symm
    · refine ⟨hsound u (List.mem_append_right _ (List.mem_cons_of_mem _ hu)), ?_⟩
      exact (List.pairwise_cons.1 hafter).1 _ (List.mem_map_of_mem hu)
  · rw [List.map_append]
    exact hdistinct.sublist ((List.sublist_cons_self _ _).append_left _)

theorem step {ws' : Writers} (h : Sound start ws) (hstep : Step ws ws') : Sound start ws' := by
  cases hstep with
  | begin hfree hchange =>
      refine ⟨h.reachable, ?_, ?_, h.replayed, h.revision, h.refused⟩
      · refine List.forall_mem_append.2 ⟨h.sound, List.forall_mem_singleton.2 ?_⟩
        exact ⟨hfree.1, ⟨_, hchange⟩, nofun⟩
      · rw [List.map_append, List.map_singleton, List.pairwise_append]
        refine ⟨h.distinct, List.pairwise_singleton _ _, ?_⟩
        intro a ha b hb
        obtain ⟨u, hu, rfl⟩ := List.mem_map.1 ha
        cases List.mem_singleton.1 hb
        exact Operation.Distinct.symm fun id hid => hfree.2 id hid u hu
  | @read before after w s hw hread =>
      have hsound := h.sound_of_mem hw
      refine ⟨h.reachable, ?_, ?_, h.replayed, h.revision, h.refused⟩
      · have hothers := h.sound
        rw [hw] at hothers
        obtain ⟨hbefore, hafter⟩ := List.forall_mem_append.1 hothers
        refine List.forall_mem_append.2 ⟨hbefore, List.forall_mem_cons.2 ⟨?_, ?_⟩⟩
        · refine ⟨hsound.fresh, hsound.settled, ?_⟩
          rintro _ ⟨⟩
          exact Writer.saw_of_scopeOf hread
        · exact (List.forall_mem_cons.1 hafter).2
      · have hdistinct := h.distinct
        rw [hw] at hdistinct
        simpa using hdistinct
  | @write before after w s rows next hw hread hrows hwrite =>
      have hsound := h.sound_of_mem hw
      obtain ⟨hothers, hdistinct⟩ := h.drop hw
      obtain ⟨hrun, rfl⟩ := hsound.run_of_write h.reachable hread hrows hwrite
      refine ⟨?_, ?_, hdistinct, ?_, ?_, h.refused⟩
      · have hnext := Reachable.step w.op h.reachable hsound.fresh
        rwa [Operation.after, hrun] at hnext
      · exact fun u hu => (hothers u hu).1.after_write h.reachable hrun (hothers u hu).2
      · rw [replay, List.foldlM_append]
        exact bind_eq_ok.2 ⟨_, h.replayed, bind_eq_ok.2 ⟨_, hrun, rfl⟩⟩
      · intro company concept
        rw [List.countP_append, List.countP_singleton]
        by_cases he : w.change.company = company ∧ w.change.concept = concept
        · obtain ⟨rfl, rfl⟩ := he
          rw [scope_withRows]
          simp [Writer.isOf, h.revision, Int.add_assoc]
        · rw [scope_withRows_of_ne he, h.revision]
          simp [Writer.isOf, he]
  | @refuse before after w s rows f hw hread hrows hwrite =>
      obtain ⟨hothers, hdistinct⟩ := h.drop hw
      refine ⟨h.reachable, fun u hu => (hothers u hu).1, hdistinct, h.replayed, h.revision, ?_⟩
      refine List.forall_mem_append.2 ⟨h.refused, List.forall_mem_singleton.2 ?_⟩
      have hsaw := (h.sound_of_mem hw).saw s hread
      obtain ⟨hne, rfl⟩ := write_eq_error.1 hwrite
      rw [hsaw.company, hsaw.concept] at hne ⊢
      exact ⟨s, hread, _, lt_of_le_of_ne hsaw.earlier hne.symm, rfl⟩
  | @stop before after w hw =>
      obtain ⟨hothers, hdistinct⟩ := h.drop hw
      exact ⟨h.reachable, fun u hu => (hothers u hu).1, hdistinct, h.replayed, h.revision,
        h.refused⟩

end Sound

/-- What writers at work have made of a store, as seen from outside. -/
structure Serial (start : FormulaStore) (ws : Writers) : Prop where
  sequential : replay start ws.written = .ok ws.store
  revision : ∀ company concept, (ws.store.scope company concept).revision =
    (start.scope company concept).revision + ws.written.countP (Writer.isOf company concept)
  refused : ∀ p ∈ ws.refused, p.2.kind = .conflict ∧ Outdated p.1 p.2
  accepted : ∀ w ∈ ws.underWay, ∀ s ∈ w.read, ∀ rows,
    (∃ next, ws.store.write s.company s.concept s.revision rows = .ok next) ↔
      ws.store.scope w.change.company w.change.concept = s
  apart : ∀ company concept, ∀ v ∈ (ws.store.scope company concept).rows,
    ∀ w ∈ (ws.store.scope company concept).rows, v ≠ w → v.active = true → w.active = true →
      conflicts [v] (coverageOf w) none = []

theorem Sound.serial (h : Sound start ws) : Serial start ws where
  sequential := h.replayed
  revision := h.revision
  refused := by
    intro p hp
    obtain ⟨s, hs, current, hlt, hf⟩ := h.refused p hp
    refine ⟨?_, s, hs, current, hlt, hf⟩
    rw [hf]
    rfl
  accepted := fun w hw s hs _ => ((h.sound w hw).saw s hs).write_iff
  apart := fun company concept => (reachable_consistent h.reachable company concept).apart

/-- However the steps of writers follow each other, their effect is that of the changes that were
written, one after the other. -/
theorem serial_of_steps (h : Reachable start)
    (hsteps : Relation.ReflTransGen Step ⟨start, [], [], []⟩ ws) : Serial start ws := by
  have hsound : Sound start ws := by
    induction hsteps with
    | refl => exact .of_start h
    | tail _ hstep ih => exact ih.step hstep
  exact hsound.serial

/-! Two writers of a bonus that read the store before either has written -/

def rival : Operation := .create "f2" noon {
  company := .text "ACME"
  concept := .text "P010"
  kind := .text "PERCEPTION"
  name := .text "Bono"
  expression := .text "custom1" }

/-- The state of a writer after it has read an empty scope. -/
def ready (op : Operation) (row : FormulaVersion) : Writer :=
  ⟨op, .adding row, some ⟨"ACME", "P010", 0, []⟩⟩

def outrun : Writers where
  store := oneRow
  written := [ready granted bonus]
  refused := [(ready rival { bonus with id := "f2" }, .staleRevision "ACME" "P010" 0 1)]

theorem unclaimed_of_empty {underWay written : List Writer} {refused : List (Writer × Fault)}
    (h : ∀ id ∈ op.newId?, ∀ w ∈ underWay, w.op.newId? ≠ some id) :
    Unclaimed ⟨{}, underWay, written, refused⟩ op := by
  refine ⟨?_, h⟩
  intro id _ company concept v hv
  cases hv

theorem granted_change : granted.change {} = .ok (.adding bonus) := by cbv

theorem rival_change : rival.change {} = .ok (.adding { bonus with id := "f2" }) := by cbv

theorem steps_outrun : Relation.ReflTransGen Step ⟨{}, [], [], []⟩ outrun := by
  refine .head (.begin (unclaimed_of_empty nofun) granted_change) ?_
  refine .head (.begin (unclaimed_of_empty ?_) rival_change) ?_
  · intro id hid w hw
    cases hid
    cases List.mem_singleton.1 hw
    decide
  refine .head (@Step.read _ [] _ _ _ rfl rfl) ?_
  refine .head (@Step.read _ [_] _ _ _ rfl rfl) ?_
  refine .head (@Step.write _ [] _ _ _ _ oneRow rfl rfl rfl rfl) ?_
  refine .head (@Step.refuse _ [] _ _ _ _ _ rfl rfl rfl rfl) ?_
  exact .refl

/-- One of the two writes and the other is refused. -/
theorem outrun_serial : Reachable {} ∧ Relation.ReflTransGen Step ⟨{}, [], [], []⟩ outrun ∧
    Serial {} outrun :=
  ⟨.empty, steps_outrun, serial_of_steps .empty steps_outrun⟩

end Writers

end Payroll.FormulaStore
