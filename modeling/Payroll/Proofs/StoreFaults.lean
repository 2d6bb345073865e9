import Mathlib
import Payroll.Proofs.Faults
import Payroll.Proofs.StoredScopes
import Payroll.Proofs.TrailHistory
import Payroll.Proofs.VerifiedEntries

/-!
With which faults changes to stored formulas and questions about them fail.
-/

namespace Payroll

open Result Version

variable {P : Fault → Prop}

theorem Key.check_fails (label s : String) :
    FailsIn (fun f => f.isValueFault = true) (check label (.text s)) := by
  simp only [check]
  split
  · exact .ok _
  · exact .error rfl

theorem ensure_fails {c : Bool} {f : Fault} (h : c = false → P f) : FailsIn P (ensure c f) := by
  cases c with
  | true => exact .ok _
  | false => exact .error (h rfl)

namespace FormulaStore

variable {store next : FormulaStore} {company concept s : String} {rows : List FormulaVersion}
  {formula : Json} {id : String} {now : Instant} {given : String → Prop}
  {kinds : List FaultKind}

/-! ### The keys of scopes -/

/-- Scopes stand under identifiers. -/
def Keyed (store : FormulaStore) : Prop :=
  ∀ s ∈ store.scopes, Key.isSafe s.company = true ∧ Key.isSafe s.concept = true

theorem safe_of_scopeOf {scope : Scope} (h : store.scopeOf (.text company) (.text concept) = .ok scope) :
    Key.isSafe company = true ∧ Key.isSafe concept = true := by
  obtain ⟨c, hc, h⟩ := bind_eq_ok.1 h
  obtain ⟨k, hk, -⟩ := bind_eq_ok.1 h
  exact ⟨(Key.check_eq_ok.1 hc).1, (Key.check_eq_ok.1 hk).1⟩

theorem safe_of_locate {scope : Scope} {v : FormulaVersion} (h : store.locate formula = .ok (scope, v)) :
    Key.isSafe scope.company = true ∧ Key.isSafe scope.concept = true := by
  obtain ⟨located, -, h⟩ := bind_eq_ok.1 h
  obtain ⟨scope', hscope, h⟩ := bind_eq_ok.1 h
  obtain ⟨current, -, h⟩ := bind_eq_ok.1 h
  cases h
  obtain ⟨hcompany, hconcept⟩ := store.scope_key located.company located.concept
  rw [scopeOf_eq_ok hscope, hcompany, hconcept]
  exact safe_of_scopeOf hscope

theorem Keyed.write {expected : Int} (h : store.Keyed) (hcompany : Key.isSafe company = true)
    (hconcept : Key.isSafe concept = true)
    (hwrite : store.write company concept expected rows = .ok next) : next.Keyed := by
  obtain ⟨-, rfl⟩ := write_eq_ok.1 hwrite
  intro s hs
  rcases mem_putScope hs with rfl | hs
  · exact ⟨hcompany, hconcept⟩
  · exact h s hs

theorem Keyed.run {op : Operation} (h : store.Keyed) (hrun : op.run store = .ok next) : next.Keyed := by
  cases op with
  | create id now d =>
      obtain ⟨⟨row, next'⟩, hcreate, hnext⟩ := bind_eq_ok.1 hrun
      cases hnext
      obtain ⟨_, -, hcreate⟩ := bind_eq_ok.1 hcreate
      obtain ⟨_, -, hcreate⟩ := bind_eq_ok.1 hcreate
      obtain ⟨_, -, hcreate⟩ := bind_eq_ok.1 hcreate
      obtain ⟨_, -, hcreate⟩ := bind_eq_ok.1 hcreate
      obtain ⟨_, hscope, hcreate⟩ := bind_eq_ok.1 hcreate
      obtain ⟨_, -, hcreate⟩ := bind_eq_ok.1 hcreate
      obtain ⟨_, hwrite, hcreate⟩ := bind_eq_ok.1 hcreate
      cases hcreate
      obtain ⟨hcompany, hconcept⟩ := safe_of_scopeOf hscope
      exact h.write hcompany hconcept hwrite
  | newVersion id now formula changes createdBy =>
      obtain ⟨⟨row, next'⟩, hnew, hnext⟩ := bind_eq_ok.1 hrun
      cases hnext
      obtain ⟨_, -, hnew⟩ := bind_eq_ok.1 hnew
      obtain ⟨_, -, hnew⟩ := bind_eq_ok.1 hnew
      obtain ⟨⟨scope, current⟩, hlocate, hnew⟩ := bind_eq_ok.1 hnew
      obtain ⟨_, -, hnew⟩ := bind_eq_ok.1 hnew
      obtain ⟨_, -, hnew⟩ := bind_eq_ok.1 hnew
      obtain ⟨_, -, hnew⟩ := bind_eq_ok.1 hnew
      obtain ⟨_, hwrite, hnew⟩ := bind_eq_ok.1 hnew
      cases hnew
      obtain ⟨hcompany, hconcept⟩ := safe_of_locate hlocate
      exact h.write hcompany hconcept hwrite
  | delete isReferenced formula =>
      obtain ⟨⟨scope, row⟩, hlocate, hdelete⟩ := bind_eq_ok.1 hrun
      obtain ⟨_, -, hdelete⟩ := bind_eq_ok.1 hdelete
      obtain ⟨_, -, hdelete⟩ := bind_eq_ok.1 hdelete
      obtain ⟨_, -, hdelete⟩ := bind_eq_ok.1 hdelete
      obtain ⟨_, -, hwrite⟩ := bind_eq_ok.1 hdelete
      obtain ⟨hcompany, hconcept⟩ := safe_of_locate hlocate
      exact h.write hcompany hconcept hwrite

theorem keyed_of_reachable (h : Reachable store) : store.Keyed := by
  induction h with
  | empty => exact nofun
  | step op _ _ ih =>
      rw [Operation.after]
      split
      · next hrun => exact ih.run hrun
      · exact ih

/-! ### Questions -/

theorem scopeOf_fails :
    FailsIn (fun f => f.isValueFault = true) (store.scopeOf (.text company) (.text concept)) :=
  (Key.check_fails _ _).bind fun _ _ => (Key.check_fails _ _).bind fun _ _ => .ok _

theorem resolveOn_fails (target : Date) : FailsIn (fun f => f.isValueFault = true)
    (store.resolveOn (.text company) (.text concept) target) :=
  scopeOf_fails.bind fun _ _ => .ok _

theorem history_fails :
    FailsIn (fun f => f.isValueFault = true) (store.history (.text company) (.text concept)) :=
  scopeOf_fails.bind fun _ _ => .ok _

theorem list_fails (activeOnly : Bool) :
    FailsIn (fun f => f.isValueFault = true) (store.list (.text company) .null activeOnly) := by
  have hcodes : FailsIn (fun f => f.isValueFault = true) (store.concepts (.text company)) :=
    (Key.check_fails _ _).bind fun _ _ => .ok _
  refine hcodes.bind fun names _ => FailsIn.bind (.ok _) fun codes hnames => ?_
  obtain rfl := Except.ok.inj hnames
  refine FailsIn.bind (.mapM fun code hcode => ?_) fun _ _ => .ok _
  obtain ⟨name, -, rfl⟩ := List.mem_map.1 hcode
  exact scopeOf_fails

theorem find_fails (formula : Json) : FailsIn (fun f => f.kind = .noFormula) (store.find formula) := by
  unfold find
  dsimp only
  split
  · exact .ok _
  · exact .error rfl

/-- Whatever a stored row is found by, its scope is there. -/
theorem locate_fails (h : Reachable store) (formula : Json) :
    FailsIn (fun f => f.kind = .noFormula) (store.locate formula) := by
  refine (find_fails formula).bind fun located hfind => ?_
  have hscope : ∃ scope, store.scopeOf (.text located.company) (.text located.concept) = .ok scope := by
    unfold find at hfind
    dsimp only at hfind
    split at hfind
    · next v hv =>
      cases hfind
      obtain ⟨_, -, hv⟩ := Option.bind_eq_some_iff.1 hv
      obtain ⟨s, hs, hmem⟩ := List.mem_flatMap.1 (List.mem_of_find?_eq_some hv)
      have hs := List.mem_mergeSort.1 hs
      have hself : store.scope s.company s.concept = s := scopeIn_of_mem (nodup_keys_of_reachable h) hs
      obtain ⟨hcompany, hconcept⟩ := placed_of_reachable h s.company s.concept _ (hself.symm ▸ hmem)
      obtain ⟨hsafe, hsafe'⟩ := keyed_of_reachable h s hs
      rw [hcompany, hconcept]
      exact ⟨_, bind_eq_ok.2 ⟨_, Key.check_eq_ok.2 ⟨hsafe, rfl⟩,
        bind_eq_ok.2 ⟨_, Key.check_eq_ok.2 ⟨hsafe', rfl⟩, rfl⟩⟩⟩
    · cases hfind
  obtain ⟨scope, hscope⟩ := hscope
  rw [hscope]
  refine FailsIn.bind (.ok scope) fun _ _ => FailsIn.bind ?_ fun _ _ => .ok _
  unfold existing
  split
  · exact .ok _
  · exact .error rfl

/-! ### Changes -/

theorem write_fails {expected : Int} :
    FailsIn (fun f => f.kind = .conflict) (store.write company concept expected rows) := by
  unfold write
  dsimp only
  split
  · exact .ok _
  · exact .error rfl

/-- The faults of changes: of a formula, of a refused value or of certain kinds. The only other one is that of
a given expression. -/
inductive Changing (given : String → Prop) (kinds : List FaultKind) (f : Fault) : Prop
  | formula (h : f.isFormulaFault = true)
  | value (h : f.isValueFault = true)
  | kind (h : f.kind ∈ kinds)
  | expression {s : String} (hs : given s) (h : f = .arithmetic .conversionSyntax)
      (haccept : Formula.accept s = .error f)

theorem acceptExpression_fails (h : given s) :
    FailsIn (Changing given kinds) (acceptExpression (.text s)) := by
  have haccept : FailsIn (Changing given kinds) (Formula.accept s) := by
    intro f hf
    rcases Formula.accept_fails s f hf with hformula | hsyntax
    · exact .formula hformula
    · exact .expression h hsyntax hf
  exact FailsIn.bind (.ok s) fun _ hs => by
    cases hs
    exact haccept.bind fun _ _ => .ok _

theorem create_fails {d : Draft} (hnames : ∀ n ∈ Fields.names d.fields, n ∉ draftFields)
    (hexpression : d.expression = .text s) (hs : given s) :
    FailsIn (Changing given [.conflict]) (store.create id now d) := by
  have hrepeated : refuseRepeated d.fields = .ok () := by
    unfold refuseRepeated
    split
    · next n hn =>
      exact absurd (List.contains_iff_mem.1 (List.find?_some hn)) (hnames n (List.mem_of_find?_eq_some hn))
    · rfl
  unfold create
  rw [hrepeated, hexpression]
  refine FailsIn.bind (.ok ()) fun _ _ => ?_
  refine FailsIn.bind (ensure_fails fun _ => .value rfl) fun _ _ => ?_
  refine (acceptExpression_fails hs).bind fun _ _ => ?_
  refine FailsIn.bind ((Record.load_fails _).mono fun _ => .value) fun row _ => ?_
  refine FailsIn.bind (scopeOf_fails.mono fun _ => .value) fun scope _ => ?_
  refine FailsIn.bind (ensure_fails fun _ => .kind (by simp [Fault.kind])) fun _ _ => ?_
  exact FailsIn.bind (write_fails.mono fun _ h => .kind (by simp [h])) fun _ _ => .ok _

theorem newVersion_fails (h : Reachable store) {changes : Fields} {createdBy : Json}
    (hexpression : ∀ j ∈ Fields.lookup (Fields.overlay [] changes) "expression",
      ∃ s, j = .text s ∧ given s) :
    FailsIn (Changing given [.conflict, .noFormula])
      (store.newVersion id now formula changes createdBy) := by
  have hchanged : FailsIn (Changing given [.conflict, .noFormula])
      (acceptChanged (Fields.overlay [] changes)) := by
    unfold acceptChanged
    split
    · next j hj =>
      obtain ⟨s, rfl, hs⟩ := hexpression j hj
      exact acceptExpression_fails hs
    · exact .ok _
  refine FailsIn.bind (ensure_fails fun _ => .value rfl) fun _ _ => ?_
  refine hchanged.bind fun _ _ => ?_
  refine FailsIn.bind ((locate_fails h formula).mono fun _ h => .kind (by simp [h])) fun found _ => ?_
  refine FailsIn.bind (ensure_fails fun _ => .kind (by simp [Fault.kind])) fun _ _ => ?_
  refine FailsIn.bind ((Record.load_fails _).mono fun _ => .value) fun row _ => ?_
  refine FailsIn.bind (ensure_fails fun _ => .kind (by simp [Fault.kind])) fun _ _ => ?_
  exact FailsIn.bind (write_fails.mono fun _ h => .kind (by simp [h])) fun _ _ => .ok _

/-- Nothing is written between the reading of a scope and its deletion. -/
theorem delete_fails (h : Reachable store) {isReferenced : String → Except Fault Bool}
    (hreferenced : ∀ id, ∃ b, isReferenced id = .ok b) :
    FailsIn (fun f => f.kind = .noFormula ∨ f.kind = .immutable) (store.delete isReferenced formula) := by
  refine FailsIn.bind ((locate_fails h formula).mono fun _ => .inl) fun found hfound => ?_
  refine FailsIn.bind (ensure_fails fun _ => .inr rfl) fun _ _ => ?_
  refine FailsIn.bind (ensure_fails fun _ => .inr rfl) fun _ _ => ?_
  obtain ⟨b, hb⟩ := hreferenced found.2.id
  refine FailsIn.bind (hb ▸ .ok b) fun _ _ => ?_
  refine FailsIn.bind (ensure_fails fun _ => .inr rfl) fun _ _ => ?_
  obtain ⟨company, concept, hscope, -⟩ := locate_eq_ok hfound
  obtain ⟨hcompany, hconcept⟩ := store.scope_key company concept
  rw [hscope, hcompany, hconcept, write_eq_ok.2 ⟨rfl, rfl⟩]
  exact .ok _

end FormulaStore

/-- Every entry of a sound trail can be read. -/
theorem AuditTrail.Sound.exists_isReferenced {t : AuditTrail} (h : t.Sound) (rule : String) :
    ∃ b, t.isReferenced rule = .ok b := by
  have hdocuments : ∀ d ∈ t.inFileOrder, ∃ e, AuditEntry.load d.content = .ok e := by
    intro d hd
    obtain ⟨e, rfl, -, hload, -⟩ := h.replays d (List.mem_mergeSort.1 hd)
    exact ⟨e, hload⟩
  unfold isReferenced
  revert hdocuments
  generalize t.inFileOrder = documents
  intro hdocuments
  induction documents with
  | nil => exact ⟨false, rfl⟩
  | cons d ds ih =>
      obtain ⟨e, he⟩ := hdocuments d List.mem_cons_self
      obtain ⟨b, hb⟩ := ih fun d hd => hdocuments d (List.mem_cons_of_mem _ hd)
      unfold references
      rw [he]
      by_cases hrule : e.rule = rule
      · exact ⟨true, by simp [bind, Except.bind, hrule]; rfl⟩
      · exact ⟨b, by simp [bind, Except.bind, hrule, hb]⟩

end Payroll
