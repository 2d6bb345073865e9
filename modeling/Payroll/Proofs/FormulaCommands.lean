import Mathlib
import Payroll.Proofs.CommandOutcomes
import Payroll.Proofs.CommandStates
import Payroll.Proofs.HashedSnapshots
import Payroll.Proofs.StoreFaults
import Payroll.Proofs.TypedArguments
import Payroll.Proofs.UnexplainedFaults

/-!
How the commands for formulas end. Of an expression that is given they explain whatever is wrong, except for
signs that look like digits; all other faults are explained, and the store that they leave comes from
changes.
-/

namespace Payroll

open Result

namespace Fields

variable {fs changes : Fields} {key : String} {v : Json}

theorem mem_of_lookup (h : lookup fs key = some v) : (key, v) ∈ fs := by
  induction fs with
  | nil => cases h
  | cons f fs ih =>
      rw [lookup] at h
      split at h
      · next hkey =>
        rw [← hkey, ← Option.some.inj h]
        exact List.mem_cons_self
      · exact List.mem_cons_of_mem _ (ih h)

/-- A field of an overlay is one of the fields laid over or of those under them. -/
theorem mem_overlay {f : String × Json} (h : f ∈ overlay fs changes) : f ∈ fs ∨ f ∈ changes := by
  induction changes generalizing fs with
  | nil => exact .inl h
  | cons c cs ih =>
      rcases ih h with h | h
      · rcases Json.mem_put h with h | rfl
        · exact .inl h
        · exact .inr List.mem_cons_self
      · exact .inr (List.mem_cons_of_mem _ h)

end Fields

namespace Formula

variable {s : String} {e : Expr} {reading : Reading}

theorem Reading.ofSample_answers (fields : Fields) (v : Variable) :
    ∃ o, ofSample fields v = .ok o := by
  rw [ofSample]
  split <;> exact ⟨_, rfl⟩

/-- A formula is refused for its digits only where it rounds a number that no context has digits for. -/
theorem beyond_of_evaluateTree (he : accept s = .ok e) {method : RoundingMethod}
    (hreads : ∀ v, ∃ o, reading v = .ok o) (h : evaluateTree method reading e = .error .digitLimit) :
    (∃ f ∈ e.functions, f.Rounds) ∧
      ∃ v ∈ e.vars, ∃ d, reading.value? v = some d ∧ BeyondContexts maxPlaces d := by
  by_cases hmissing : ∃ v ∈ e.vars.eraseDups, reading.value? v = none
  · obtain ⟨f, hf, hkind⟩ := Reading.numbers_of_missing hreads hmissing
    rw [evaluateTree, hf] at h
    rw [Except.error.inj h] at hkind
    cases hkind
  · obtain ⟨values, hvalues, hvalue⟩ :=
      Reading.numbers_of_values fun v hv hnone => hmissing ⟨v, hv, hnone⟩
    have hends : EndsIn (Expr.Passed reading.value? e.vars)
        (Expr.Refused reading.value? e.vars e.functions) (e.eval method reading.value?) :=
      Expr.eval_ends (wellFormed_of_accept he) (computed_of_accept he)
    rw [evaluateTree, hvalues] at h
    simp only [Expr.eval_congr fun v hv => hvalue v (List.mem_eraseDups.2 hv)] at h
    cases hx : e.eval method reading.value? with
    | ok d =>
        rw [hx] at h
        cases h
    | error f =>
        rw [hx] at h hends
        rcases hends with (hkind | ⟨s, rfl⟩) | ⟨-, hbeyond⟩
        · have hf : f = .digitLimit :=
            (asEvaluation_eq_self hkind).symm.trans (Except.error.inj h)
          rw [hf] at hkind
          cases hkind
        · cases h
        · exact hbeyond

theorem Template.accept_expression {t : Template} (h : t ∈ Template.all) :
    ∃ e, accept t.expression = .ok e := by
  have hall : ∀ t ∈ Template.all, (accept t.expression).toOption.isSome = true := by decide +kernel
  obtain ⟨e, he⟩ := Option.isSome_iff_exists.1 (hall t h)
  exact ⟨e, ok_of_toOption he⟩

end Formula

namespace Command.Formulas

variable {i : Installation} {F : Fault → Prop} {o : Occasion} {words : List String}

/-! ### Checking and trying -/

theorem validate_ends (h : i.Kept) :
    Ends Installation.Kept (Unexplained i.config words "formula" "validate") i (validate.run o words) := by
  refine ends_taking h fun s hs => Looks.ends (Q := fun _ => True) ?_ h
  have haccept : FailsIn (fun f => f.isFormulaFault = true ∨
      Unexplained i.config words "formula" "validate" f) (Formula.accept s) := by
    intro f hf
    rcases Formula.accept_fails s f hf with hformula | rfl
    · exact .inl hformula
    · exact .inr (.expression (.validate hs) hf)
  exact (looks_explainingAs haccept.endsIn).bind fun e _ => looks_sayAll _

/-- Sample values are read from the line alone. -/
theorem looks_assignments (pairs : List String) : Looks i F (assignments pairs) fun fields =>
    ∀ session, outcome (assignments pairs) session = (.ok fields, session) := by
  unfold assignments
  generalize ([] : Fields) = fields
  induction pairs generalizing fields with
  | nil => exact .pure fun _ => rfl
  | cons pair pairs ih =>
      simp only [List.foldlM_cons]
      split
      · simp only [pure_bind]
        exact ih _
      · exact (looks_refuse (Q := fun _ => False) _).bind fun _ => False.elim

theorem tryOut_ends (h : i.Kept) :
    Ends Installation.Kept (Unexplained i.config words "formula" "test") i (tryOut.run o words) := by
  refine ends_taking h fun (s, pairs) hl => Looks.ends (Q := fun _ => True) ?_ h
  refine (looks_assignments pairs).bind fun fields hfields => ?_
  have hreads := Formula.Reading.ofSample_answers fields
  have htrial : FailsIn (fun f => f.isFormulaFault = true ∨
      Unexplained i.config words "formula" "test" f)
      (Formula.tryOut RoundingPolicy.standard.method s fields) := by
    refine FailsIn.bind ?_ fun _ _ => FailsIn.bind (fun f hf => ?_) fun e he f hf => ?_
    · unfold Formula.refuseUndefined
      split
      · exact .ok _
      · exact .error (.inl rfl)
    · rcases Formula.accept_fails s f hf with hformula | rfl
      · exact .inl hformula
      · exact .inr (.expression (.test hl) hf)
    · have hreading (v : Formula.Variable) :
          FailsIn (fun _ => False) (Formula.Reading.ofSample fields v) := by
        obtain ⟨o, ho⟩ := hreads v
        exact ho ▸ .ok o
      rcases Formula.evaluateTree_fails hreading _ e f hf with hformula | rfl | hnone
      · exact .inl hformula
      · obtain ⟨hrounds, hvariable⟩ := Formula.beyond_of_evaluateTree he hreads hf
        exact .inr (.digits hl hfields he hrounds hvariable)
      · exact hnone.elim
  exact (looks_explainingAs htrial.endsIn).bind fun d _ => looks_say _

theorem vocabulary_ends (h : i.Kept) : Ends Installation.Kept F i (vocabulary.run o words) :=
  ends_taking h fun _ _ =>
    (Looks.ite (Q := fun _ => True) (fun _ => looks_say _) fun _ => looks_sayAll _).ends h

theorem templates_ends (h : i.Kept) : Ends Installation.Kept F i (templates.run o words) :=
  ends_taking h fun _ _ => (looks_sayAll _).ends h

/-! ### Questions about versions -/

theorem resolve_ends (h : i.Kept) : Ends Installation.Kept F i (resolve.run o words) := by
  refine ends_taking h fun (company, concept, target, asJson) _ =>
    Looks.ends (Q := fun _ => True) ?_ h
  obtain ⟨path, hpath⟩ := Installation.exists_dataPath h.config
  refine (looks_data hpath).bind fun d _ => ?_
  have hfound : FailsIn (fun f => f.isValueFault = true)
      (d.store.resolveOn (.text company) (.text concept) target) :=
    FormulaStore.resolveOn_fails target
  refine (looks_explainingAs (hfound.mono fun _ => Or.inl).endsIn).bind fun found _ => ?_
  cases found with
  | none => exact looks_fail _
  | some r => exact .ite (fun _ => looks_say _) fun _ => looks_sayAll _

theorem history_ends (h : i.Kept) : Ends Installation.Kept F i (history.run o words) := by
  refine ends_taking h fun (company, concept) _ => Looks.ends (Q := fun _ => True) ?_ h
  obtain ⟨path, hpath⟩ := Installation.exists_dataPath h.config
  refine (looks_data hpath).bind fun d _ => ?_
  have hrows : FailsIn (fun f => f.isValueFault = true)
      (d.store.history (.text company) (.text concept)) :=
    FormulaStore.history_fails
  refine (looks_explainingAs (hrows.mono fun _ => Or.inl).endsIn).bind fun rows _ => ?_
  exact .ite (fun _ => looks_say _) fun _ => looks_sayAll _

theorem list_ends (h : i.Kept) : Ends Installation.Kept F i (list.run o words) := by
  refine ends_taking h fun (company, all) _ => Looks.ends (Q := fun _ => True) ?_ h
  obtain ⟨path, hpath⟩ := Installation.exists_dataPath h.config
  refine (looks_data hpath).bind fun d _ => ?_
  have hrows : FailsIn (fun f => f.isValueFault = true) (d.store.list (.text company) .null !all) :=
    FormulaStore.list_fails !all
  refine (looks_explainingAs (hrows.mono fun _ => Or.inl).endsIn).bind fun rows _ => ?_
  exact .ite (fun _ => looks_say _) fun _ => looks_sayAll _

/-! ### Changes -/

/-- Fields that versions may have different from each other, of which an expression is a given text. -/
def Offers (given : String → Prop) (fields : Fields) : Prop :=
  ∀ f ∈ fields, f.1 ∈ FormulaStore.versionedFields ∧
    (f.1 = "expression" → ∃ s, f.2 = .text s ∧ given s)

section Offers

variable {given given' : String → Prop} {fields changes : Fields}

theorem Offers.mono (h : Offers given fields) (hgiven : ∀ s, given s → given' s) :
    Offers given' fields :=
  fun f hf => (h f hf).imp_right fun hs he => (hs he).imp fun _ => And.imp_right (hgiven _)

theorem Offers.overlay (h : Offers given fields) (hchanges : Offers given changes) :
    Offers given (Fields.overlay fields changes) :=
  fun f hf => (Fields.mem_overlay hf).elim (h f) (hchanges f)

theorem Offers.exists_expression (h : Offers given fields) {j : Json}
    (hj : Fields.lookup fields "expression" = some j) : ∃ s, j = .text s ∧ given s :=
  (h _ (Fields.mem_of_lookup hj)).2 rfl

theorem offers_given? {α : Type} {key : String} {value : Option α} {write : α → Json}
    (hkey : key ∈ FormulaStore.versionedFields)
    (h : key = "expression" → ∀ a, value = some a → ∃ s, write a = .text s ∧ given s) :
    Offers given (given? key value write) := by
  intro f hf
  obtain ⟨f', hf', rfl⟩ := Option.mem_toList.1 hf |> Option.map_eq_some_iff.1
  exact ⟨hkey, fun he => h he f' hf'⟩

theorem Offers.append (h : Offers given fields) (hchanges : Offers given changes) :
    Offers given (fields ++ changes) :=
  fun f hf => (List.mem_append.1 hf).elim (h f) (hchanges f)

end Offers

theorem Terms.offers (t : Terms) : Offers (fun s => t.expression = some s) t.toFields := by
  unfold Terms.toFields
  iterate 6 refine Offers.append ?_ (offers_given? (by decide) (absurd · (by decide)))
  refine Offers.append (offers_given? (by decide) (absurd · (by decide))) ?_
  exact offers_given? (by decide) fun _ s hs => ⟨s, rfl, hs⟩

theorem CreateLine.offers (l : CreateLine) :
    Offers (fun s => l.terms.expression = some s) l.fields :=
  .append (.append (offers_given? (by decide) (absurd · (by decide))) l.terms.offers)
    (offers_given? (by decide) (absurd · (by decide)))

theorem offers_template (t : Formula.Template) :
    Offers (fun s => s = t.expression) (Fields.without t.toFields "concept_code") := by
  intro f hf
  obtain ⟨hf, hother⟩ := List.mem_filter.1 hf
  have hfield {key : String} {v : Json} (hkey : key ∈ FormulaStore.versionedFields)
      (hne : key ≠ "expression") : (key, v).1 ∈ FormulaStore.versionedFields ∧
        ((key, v).1 = "expression" → ∃ s, (key, v).2 = .text s ∧ s = t.expression) :=
    ⟨hkey, (absurd · hne)⟩
  rw [Formula.Template.toFields, List.mem_append, List.mem_append] at hf
  obtain (hf | hf) | hf := hf
  · simp only [List.mem_cons, List.not_mem_nil, or_false] at hf
    obtain rfl | rfl | rfl | rfl | rfl := hf
    · exact absurd rfl (bne_iff_ne.1 hother)
    · exact hfield (by decide) (by decide)
    · exact hfield (by decide) (by decide)
    · exact ⟨List.elem_iff.1 rfl, fun _ => ⟨_, rfl, rfl⟩⟩
    · exact hfield (by decide) (by decide)
  · unfold Formula.Template.limitFields at hf
    split at hf
    · simp only [List.mem_cons, List.not_mem_nil, or_false] at hf
      obtain rfl | rfl := hf
      · exact hfield (by decide) (by decide)
      · exact hfield (by decide) (by decide)
    · cases hf
  · rw [List.mem_singleton.1 hf]
    exact hfield (by decide) (by decide)

theorem looks_templateFields (l : CreateLine) : Looks i F (templateFields l)
    (Offers fun s => ∃ t ∈ Formula.Template.all, s = t.expression) := by
  refine .ite (fun _ => ?_) fun _ => .pure (by nofun)
  cases hfind : Formula.Template.find? l.concept with
  | none => exact looks_refuse _
  | some t => exact .pure ((offers_template t).mono fun _ hs => ⟨t, List.mem_of_find?_eq_some hfind, hs⟩)

theorem looks_sayMade (headline : String) (asJson : Bool) (v : FormulaVersion) :
    Looks i F (sayMade headline asJson v) fun _ => True :=
  .ite (fun _ => looks_say _) fun _ => looks_sayAll _

theorem draftOf_names {l : CreateLine} {fields : Fields} {given : String → Prop}
    (h : Offers given fields) :
    ∀ n ∈ Fields.names (draftOf l fields).fields, n ∉ FormulaStore.draftFields := by
  intro n hn
  obtain ⟨f, hf, rfl⟩ := List.mem_map.1 hn
  obtain ⟨hf, hother⟩ := List.mem_filter.1 hf
  have hdisjoint : ∀ n ∈ FormulaStore.versionedFields,
      (!(neededOptions.map (·.2)).contains n) = true → n ∉ FormulaStore.draftFields := by
    decide
  exact hdisjoint _ (h f hf).1 hother

/-- A store that a change leads to takes the place of the one before. -/
theorem ends_setStore_of_run {next : FormulaStore} (op : FormulaStore.Operation) {path : String}
    {x : Action Unit} (h : i.Kept) (hpath : i.dataPath = .ok path)
    (hfresh : op.Fresh (i.directory path).store) (hrun : op.run (i.directory path).store = .ok next)
    (hx : ∀ j, Looks j F x fun _ => True) :
    Ends Installation.Kept F i (setStore next >>= fun _ => x) := by
  have hdirectory := h.data path
  have hstore : next.Reachable := by
    have hstep := hdirectory.store.step op hfresh
    rwa [FormulaStore.Operation.after, hrun] at hstep
  exact ends_setStore h hpath ((hx _).ends (h.putDirectory ⟨hstore, hdirectory.trail, hdirectory.dated⟩))

/-- A change goes unexplained for an expression alone, which then is the one that the line gives. -/
theorem explained_of_changing {given : String → Prop} {command : String} {kinds : List FaultKind}
    {f : Fault} (hf : FormulaStore.Changing given kinds f)
    (hgiven : ∀ s, given s → Formula.accept s = .error f → Proposes words s command) :
    (f.isFormulaFault || f.isValueFault || among kinds f) = true ∨
      Unexplained i.config words "formula" command f := by
  cases hf with
  | formula h => exact .inl (by rw [h]; rfl)
  | value h => exact .inl (by rw [h, Bool.or_true]; rfl)
  | kind h => exact .inl (by simp [among, h])
  | expression hs h haccept =>
      subst h
      exact .inr (.expression (hgiven _ hs haccept) haccept)

theorem exists_expression_of_missingOptions {given : String → Prop} {fields : Fields}
    (h : Offers given fields) (hmissing : (missingOptions fields).isEmpty = true) (l : CreateLine) :
    ∃ s, (draftOf l fields).expression = .text s ∧ given s := by
  have hsome : ¬(Fields.lookup fields "expression").isNone = true := by
    intro hnone
    have hmem : "--expression" ∈ missingOptions fields :=
      List.mem_map.2 ⟨("--expression", "expression"), List.mem_filter.2 ⟨by decide, hnone⟩, rfl⟩
    rw [List.isEmpty_iff.1 hmissing] at hmem
    cases hmem
  cases hj : Fields.lookup fields "expression" with
  | none => exact absurd (hj ▸ rfl) hsome
  | some j =>
      obtain ⟨s, rfl, hs⟩ := h.exists_expression hj
      exact ⟨s, congrArg (·.getD .null) hj, hs⟩

/-- The expressions that a line for a new formula may start from. -/
def CreateLine.Offered (l : CreateLine) (s : String) : Prop :=
  l.terms.expression = some s ∨ ∃ t ∈ Formula.Template.all, s = t.expression

theorem create_ends (h : i.Kept) (ho : o.Fresh i) :
    Ends Installation.Kept (Unexplained i.config words "formula" "create") i (create.run o words) := by
  refine ends_taking h fun l hl => ?_
  refine (looks_templateFields l).endsBind h fun template htemplate => ?_
  have hoffers : Offers l.Offered (Fields.overlay template l.fields) :=
    (htemplate.mono fun _ => .inr).overlay (l.offers.mono fun _ => .inl)
  generalize Fields.overlay template l.fields = fields at hoffers
  dsimp only
  split
  swap
  · exact (looks_refuse (Q := fun _ => False) _).endsBind h fun _ => False.elim
  next hmissing =>
  obtain ⟨path, hpath⟩ := Installation.exists_dataPath h.config
  refine (looks_data hpath).endsBind h fun d hd => ?_
  subst hd
  obtain ⟨s, hs, hgiven⟩ := exists_expression_of_missingOptions hoffers hmissing l
  have hcreate : FailsIn (FormulaStore.Changing l.Offered [.conflict])
      ((i.directory path).store.create o.id o.now (draftOf l fields)) :=
    FormulaStore.create_fails (draftOf_names hoffers) hs hgiven
  have hproposes (f : Fault) : ∀ s, l.Offered s → Formula.accept s = .error f →
      Proposes words s "create" := by
    rintro s (hs | ⟨t, ht, rfl⟩) hf
    · exact .create hl hs
    · obtain ⟨e, he⟩ := Formula.Template.accept_expression ht
      cases he.symm.trans hf
  refine (looks_explainingAs (hcreate.mono fun f hf =>
    explained_of_changing hf (hproposes f)).endsIn).endsBind h fun (row, next) hnext => ?_
  refine ends_setStore_of_run (.create o.id o.now (draftOf l fields)) h hpath ?_ ?_ fun _ =>
    looks_sayMade _ _ _
  · rintro _ ⟨⟩
    exact ho.rows path
  · exact bind_eq_ok.2 ⟨_, hnext, rfl⟩

theorem newVersion_ends (h : i.Kept) (ho : o.Fresh i) :
    Ends Installation.Kept (Unexplained i.config words "formula" "new-version") i
      (newVersion.run o words) := by
  refine ends_taking h fun (formula, terms, createdBy, asJson) hl => ?_
  refine Ends.refusing h (looks_refuse _) fun _ => ?_
  obtain ⟨path, hpath⟩ := Installation.exists_dataPath h.config
  refine (looks_data hpath).endsBind h fun d hd => ?_
  subst hd
  have hnew : FailsIn (FormulaStore.Changing (fun s => terms.expression = some s) [.conflict, .noFormula])
      ((i.directory path).store.newVersion o.id o.now (.text formula) terms.toFields
        (.optional .text createdBy)) :=
    FormulaStore.newVersion_fails (h.data path).store fun j hj =>
      (Offers.overlay (by nofun) terms.offers).exists_expression hj
  refine (looks_explainingAs (hnew.mono fun f hf => explained_of_changing hf fun s hs _ =>
    .newVersion hl hs).endsIn).endsBind h fun (row, next) hnext => ?_
  refine ends_setStore_of_run (.newVersion o.id o.now (.text formula) terms.toFields
    (.optional .text createdBy)) h hpath ?_ ?_ fun _ => looks_sayMade _ _ _
  · rintro _ ⟨⟩
    exact ho.rows path
  · exact bind_eq_ok.2 ⟨_, hnext, rfl⟩

theorem delete_ends (h : i.Kept) : Ends Installation.Kept F i (delete.run o words) := by
  refine ends_taking h fun (formula, force) _ => ?_
  obtain ⟨path, hpath⟩ := Installation.exists_dataPath h.config
  have hdeletes : Ends Installation.Kept F i (do
      let d ← data
      let store ← explaining (among [.noFormula, .immutable])
        (d.store.delete d.trail.isReferenced (.text formula))
      setStore store
      say s!"Deleted formula {formula}") := by
    refine (looks_data hpath).endsBind h fun d hd => ?_
    subst hd
    have hfails : FailsIn (fun f => among [.noFormula, .immutable] f = true ∨ F f)
        ((i.directory path).store.delete (i.directory path).trail.isReferenced (.text formula)) :=
      (FormulaStore.delete_fails (h.data path).store (h.data path).trail.exists_isReferenced).mono
        fun f hf => .inl (by rcases hf with hf | hf <;> simp [among, hf])
    refine (looks_explainingAs hfails.endsIn).endsBind h fun next hnext => ?_
    exact ends_setStore_of_run (.delete _ (.text formula)) h hpath (by nofun) hnext fun _ =>
      looks_say _
  dsimp only
  split
  · exact hdeletes
  · exact (looks_confirm _).endsBind h fun _ _ => hdeletes

end Command.Formulas

end Payroll
