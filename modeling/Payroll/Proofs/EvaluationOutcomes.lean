import Mathlib
import Payroll.Proofs.Faults
import Payroll.Proofs.FormulaExact
import Payroll.Proofs.RoundedValues
import Payroll.Proofs.RoundingOutcomes
import Payroll.Proofs.TokenTexts

/-!
What the evaluation of an accepted formula can end in: a number, a fault of the evaluation, or the
refusal to round the value of a variable that no context has digits enough for.
-/

namespace Payroll

open Result

namespace Decimal.Context

variable {ctx : Context} {a b r : Decimal}

theorem adjusted_le_of_add (hs : ctx.Standard) (h : ctx.add a b = .ok r) :
    r.adjusted ≤ ctx.maxExponent := by
  obtain ⟨d, hd⟩ := add_eq_fit ctx a b
  exact adjusted_le_of_fit hs (hd.symm.trans h)

theorem adjusted_le_of_div (hs : ctx.Standard) (h : ctx.div a b = .ok r) :
    r.adjusted ≤ ctx.maxExponent := by
  unfold div at h
  dsimp only at h
  split_ifs at h <;> exact adjusted_le_of_fit hs h

theorem adjusted_le_of_rem (hs : ctx.Standard) (h : ctx.rem a b = .ok r) :
    r.adjusted ≤ ctx.maxExponent := by
  unfold rem at h
  dsimp only at h
  split_ifs at h <;> exact adjusted_le_of_fit hs h

end Decimal.Context

section

variable {outer : Decimal.Context} {places : Nat} {method : RoundingMethod} {d : Decimal}

/-- Rounding fails for want of digits only in the choice of a context. -/
theorem beyond_of_roundTo (hs : outer.Standard)
    (h : roundTo outer places method d = .error .digitLimit) : BeyondContexts places d := by
  by_contra hbeyond
  have hprecision := hs.precision
  have hctx : ∃ ctx, roundingContext outer places d = .ok ctx := by
    rw [roundingContext, if_neg (max_le hprecision (not_lt.1 hbeyond)).not_gt]
    exact ⟨_, rfl⟩
  obtain ⟨ctx, hctx⟩ := hctx
  have hsignal {α : Type} (x : Except Decimal.Signal α) :
      FailsIn (· ≠ Fault.digitLimit) (liftM x : Except Fault α) := by
    cases x with
    | ok a => exact .ok a
    | error s => exact .error Fault.noConfusion
  have hrest : FailsIn (· ≠ Fault.digitLimit) (roundTo outer places method d) := by
    by_cases hm : method = .halfUp ∧ d.value < 0
    · obtain ⟨rfl, hneg⟩ := hm
      rw [roundTo_negated hctx hneg]
      exact (hsignal _).bind fun m _ => (hsignal _).bind fun q _ => hsignal _
    · rw [roundTo_direct hctx hm]
      exact hsignal _
  exact hrest _ h rfl

end

namespace Formula

open Decimal.Context

/-- The functions that write a number with decimal places. -/
def Function.Rounds (f : Function) : Prop := f = .floor ∨ f = .ceil ∨ f = .round

/-- Faults and signals that become faults of the evaluation. -/
def Caught (f : Fault) : Prop := f.kind = .evaluation ∨ ∃ s, f = .arithmetic s

/-- A number as arithmetic leaves it. -/
def Computed (d : Decimal) : Prop := d.adjusted ≤ arithmetic.maxExponent

variable {method : RoundingMethod} {env : Variable → Option Decimal} {d : Decimal}

theorem computed_flag (b : Bool) : Computed (flag b) := by
  change (flag b).adjusted ≤ arithmetic.maxExponent
  cases b <;> decide +kernel

theorem ends_signal {x : Except Decimal.Signal Decimal}
    (h : ∀ r, x = .ok r → Computed r) : EndsIn Computed Caught (liftM x) := by
  cases x with
  | ok r => exact h r rfl
  | error s => exact .inr ⟨s, rfl⟩

theorem UnaryOp.apply_ends (op : UnaryOp) (d : Decimal) :
    EndsIn (fun r => Computed r ∨ r = d) Caught (op.apply d) := by
  cases op with
  | minus =>
      exact (ends_signal fun _ => adjusted_le_of_fit standard_arithmetic).mono (fun _ => .inl)
        fun _ => id
  | plus => exact .inr rfl
  | not => exact .inl (computed_flag _)

theorem BinaryOp.apply_ends (op : BinaryOp) (l r : Decimal) :
    EndsIn Computed Caught (op.apply l r) := by
  have hs := standard_arithmetic
  cases op with
  | add | sub => exact ends_signal fun _ => adjusted_le_of_add hs
  | mul => exact ends_signal fun _ => adjusted_le_of_fit hs
  | div =>
      simp only [apply]
      split
      · exact .inl rfl
      · exact ends_signal fun _ => adjusted_le_of_div hs
  | rem =>
      simp only [apply]
      split
      · exact .inl rfl
      · exact ends_signal fun _ => adjusted_le_of_rem hs
  | _ => exact computed_flag _

theorem BinaryOp.computed_of_decidedBy {op : BinaryOp} {r : Decimal} (h : op.decidedBy d = some r) :
    Computed r := by
  unfold decidedBy at h
  split at h
  · split at h
    · cases h
    · cases h
      exact computed_flag false
  · split at h
    · cases h
      exact computed_flag true
    · cases h
  · cases h

/-- The places are at most ten, so what cannot be rounded to them cannot be rounded to ten. -/
theorem roundTo_ends {places : Nat} (hplaces : places ≤ maxPlaces) (method : RoundingMethod)
    (d : Decimal) : EndsIn Computed (fun f => Caught f ∨ f = .digitLimit ∧ BeyondContexts maxPlaces d)
      (roundTo arithmetic places method d) := by
  cases h : roundTo arithmetic places method d with
  | ok r => exact adjusted_le_of_roundTo standard_arithmetic h
  | error f =>
      obtain rfl | hf := roundTo_fails _ _ _ _ f h
      · exact .inr ⟨rfl, (beyond_of_roundTo standard_arithmetic h).mono hplaces⟩
      · exact .inl (.inr (hf.elim (fun h => ⟨_, h⟩) fun h => ⟨_, h⟩))

theorem roundPlaces_ends (d : Decimal) : EndsIn (· ≤ maxPlaces) Caught (roundPlaces d) := by
  unfold roundPlaces
  split
  · next h =>
    have hten : (10 : Decimal).value = (maxPlaces : ℕ) := by
      rw [maxPlaces]
      exact (Decimal.value_mk 10 0).trans (by norm_num)
    have hle : d.value ≤ (maxPlaces : ℕ) := hten ▸ Decimal.le_iff.1 h.2.2
    have hnonneg : 0 ≤ d.value := Decimal.value_zero' ▸ Decimal.le_iff.1 h.2.1
    change d.truncate.toNat ≤ maxPlaces
    rw [Decimal.truncate_eq, truncated, if_pos hnonneg]
    have hfloor : (⌊d.value⌋ : ℚ) ≤ (maxPlaces : ℕ) := (Int.floor_le _).trans hle
    have : ⌊d.value⌋ ≤ (maxPlaces : ℤ) := by exact_mod_cast hfloor
    omega
  · exact .inl rfl

theorem Function.apply_ends (f : Function) {ds : List Decimal} (haccepts : f.accepts ds.length) :
    EndsIn (fun r => Computed r ∨ r ∈ ds)
      (fun g => Caught g ∨ g = .digitLimit ∧ f.Rounds ∧ ∃ d ∈ ds, BeyondContexts maxPlaces d)
      (f.apply method ds) := by
  obtain ⟨hleast, hmost⟩ := accepts_iff.1 haccepts
  have hs := standard_arithmetic
  have hcaught {x : Except Fault Decimal} (h : EndsIn Computed Caught x) :
      EndsIn (fun r => Computed r ∨ r ∈ ds)
        (fun g => Caught g ∨ g = .digitLimit ∧ f.Rounds ∧ ∃ d ∈ ds, BeyondContexts maxPlaces d) x :=
    h.mono (fun _ => .inl) fun _ => .inl
  have hrounds (hf : f.Rounds) {places : Nat} (hplaces : places ≤ maxPlaces)
      (method : RoundingMethod) {d : Decimal} (hd : d ∈ ds) :
      EndsIn (fun r => Computed r ∨ r ∈ ds)
        (fun g => Caught g ∨ g = .digitLimit ∧ f.Rounds ∧ ∃ d ∈ ds, BeyondContexts maxPlaces d)
        (roundTo arithmetic places method d) :=
    (roundTo_ends hplaces method d).mono (fun _ => .inl) fun _ =>
      .imp_right fun h => ⟨h.1, hf, d, hd, h.2⟩
  cases f with
  | min =>
      obtain _ | ⟨d, ds⟩ := ds
      · cases hleast
      · exact .inr (Decimal.minimum_mem d ds)
  | max =>
      obtain _ | ⟨d, ds⟩ := ds
      · cases hleast
      · exact .inr (Decimal.maximum_mem d ds)
  | abs =>
      obtain _ | ⟨d, ds⟩ := ds
      · cases hleast
      · exact hcaught (ends_signal fun _ => adjusted_le_of_fit hs)
  | floor =>
      obtain _ | ⟨d, ds⟩ := ds
      · cases hleast
      · exact hrounds (.inl rfl) (Nat.zero_le _) .floor List.mem_cons_self
  | ceil =>
      obtain _ | ⟨d, ds⟩ := ds
      · cases hleast
      · exact hrounds (.inr (.inl rfl)) (Nat.zero_le _) .ceil List.mem_cons_self
  | round =>
      obtain _ | ⟨d, _ | ⟨p, ds⟩⟩ := ds
      · cases hleast
      · exact hrounds (.inr (.inr rfl)) (by decide) method List.mem_cons_self
      · exact EndsIn.bind ((roundPlaces_ends p).mono (fun _ => id) fun _ => .inl) fun n hn =>
          hrounds (.inr (.inr rfl)) hn method List.mem_cons_self
  | proportional =>
      obtain ⟨a, n, m, rfl⟩ : ∃ a n m, ds = [a, n, m] :=
        List.length_eq_three.1 (le_antisymm (hmost 3 rfl) hleast)
      simp only [apply]
      split
      · exact .inl (.inl rfl)
      · refine EndsIn.bind (P := fun _ => True) ?_ fun product _ =>
          hcaught (ends_signal fun _ => adjusted_le_of_div hs)
        exact (ends_signal fun _ => adjusted_le_of_fit hs).mono (fun _ _ => trivial) fun _ => .inl

namespace Expr

variable {e : Expr} {es : List Expr} {vs ws : List Variable} {fs gs : List Function}

/-- A number that was computed, or the value of one of the variables. -/
def Passed (env : Variable → Option Decimal) (vs : List Variable) (d : Decimal) : Prop :=
  Computed d ∨ ∃ v ∈ vs, env v = some d

/-- A fault that is caught, or the refusal to round the value of one of the variables. -/
def Refused (env : Variable → Option Decimal) (vs : List Variable) (fs : List Function)
    (f : Fault) : Prop :=
  Caught f ∨ f = .digitLimit ∧ (∃ g ∈ fs, g.Rounds) ∧
    ∃ v ∈ vs, ∃ d, env v = some d ∧ BeyondContexts maxPlaces d

/-- Both are about the variables and functions of a part as much as about those of the whole. -/
theorem ends_mono {x : Except Fault Decimal} (h : EndsIn (Passed env vs) (Refused env vs fs) x)
    (hvs : vs ⊆ ws) (hfs : fs ⊆ gs) : EndsIn (Passed env ws) (Refused env ws gs) x := by
  refine h.mono (fun d => ?_) fun f => ?_
  · exact .imp_right fun ⟨v, hv, hd⟩ => ⟨v, hvs hv, hd⟩
  · exact .imp_right fun ⟨hf, ⟨g, hg, hrounds⟩, v, hv, hd⟩ =>
      ⟨hf, ⟨g, hfs hg, hrounds⟩, v, hvs hv, hd⟩

theorem evalList_ends (h : ∀ e ∈ es, EndsIn (Passed env vs) (Refused env vs fs) (e.eval method env)) :
    EndsIn (fun ds => ds.length = es.length ∧ ∀ d ∈ ds, Passed env vs d) (Refused env vs fs)
      (evalList method env es) := by
  induction es with
  | nil => exact ⟨rfl, List.forall_mem_nil _⟩
  | cons e es ih =>
      obtain ⟨he, hes⟩ := List.forall_mem_cons.1 h
      rw [evalList_cons]
      refine he.bind fun d hd => (ih hes).bind fun ds hds => ?_
      exact ⟨congrArg Nat.succ hds.1, List.forall_mem_cons.2 ⟨hd, hds.2⟩⟩

/-- The induction is over the tree. What arithmetic computes is far from the limit of contexts, so a
number beyond it has come from a variable, and only the functions that round refuse it. -/
theorem eval_ends (hcalls : e.WellFormed) (hnumbers : ∀ d, Part (.number d) e → Computed d) :
    EndsIn (Passed env e.vars) (Refused env e.vars e.functions) (e.eval method env) := by
  induction e using induct with
  | number d => exact .inl (hnumbers d .whole)
  | var v =>
      rw [eval]
      cases hv : env v with
      | none => exact .inl (.inl rfl)
      | some d => exact .inr ⟨v, List.mem_singleton_self v, hv⟩
  | unary op e ih =>
      have he := ih (hcalls.part (.operand .whole)) fun d h => hnumbers d (.operand h)
      rw [eval_unary]
      refine he.bind fun d hd => (op.apply_ends d).mono (fun r hr => ?_) fun _ => .inl
      rcases hr with hr | rfl
      · exact .inl hr
      · exact hd
  | binary op l r ihl ihr =>
      have hl := ihl (hcalls.part (.left .whole)) fun d h => hnumbers d (.left h)
      have hr := ihr (hcalls.part (.right .whole)) fun d h => hnumbers d (.right h)
      rw [eval_binary]
      refine (ends_mono hl (List.subset_append_left _ _) (List.subset_append_left _ _)).bind
        fun x _ => ?_
      cases hdecided : op.decidedBy x with
      | some d => exact .inl (BinaryOp.computed_of_decidedBy hdecided)
      | none =>
          refine (ends_mono hr (List.subset_append_right _ _) (List.subset_append_right _ _)).bind
            fun y _ => (op.apply_ends x y).mono (fun _ => .inl) fun _ => .inl
  | conditional t y n iht ihy ihn =>
      have ht := iht (hcalls.part (.test .whole)) fun d h => hnumbers d (.test h)
      have hy := ihy (hcalls.part (.yes .whole)) fun d h => hnumbers d (.yes h)
      have hn := ihn (hcalls.part (.no .whole)) fun d h => hnumbers d (.no h)
      rw [eval_conditional]
      simp only [vars, functions]
      refine (ends_mono ht (by simp) (by simp)).bind fun d _ => ?_
      split
      · exact ends_mono hy (by simp) (by simp)
      · exact ends_mono hn (by simp) (by simp)
  | call f es ih =>
      have harguments : ∀ e ∈ es, EndsIn (Passed env (Expr.call f es).vars)
          (Refused env (Expr.call f es).vars (Expr.call f es).functions) (e.eval method env) := by
        intro e he
        refine ends_mono (ih e he (hcalls.part (.argument he .whole)) fun d h =>
          hnumbers d (.argument he h)) ?_ ?_
        · rw [vars, varsOfList_eq]
          exact fun v hv => List.mem_flatMap.2 ⟨e, he, hv⟩
        · rw [functions, functionsOfList_eq]
          exact fun g hg => List.mem_cons_of_mem _ (List.mem_flatMap.2 ⟨e, he, hg⟩)
      rw [eval_call]
      refine (evalList_ends harguments).bind fun ds hvalues => ?_
      obtain ⟨hlength, hds⟩ := hvalues
      refine (f.apply_ends (hlength ▸ hcalls f es .whole)).mono (fun r hr => ?_) fun g hg => ?_
      · exact hr.elim .inl (hds r)
      · refine hg.imp_right fun hrefused => ?_
        obtain ⟨hlimit, hrounds, d, hd, hbeyond⟩ := hrefused
        refine ⟨hlimit, ⟨f, by simp [functions], hrounds⟩, ?_⟩
        rcases hds d hd with hcomputed | ⟨v, hv, hvalue⟩
        · have hmax : arithmetic.maxExponent = 999999 := rfl
          simp only [Computed, BeyondContexts, maxPrecision, maxPlaces, hmax] at hcomputed hbeyond
          omega
        · exact ⟨v, hv, d, hvalue, hbeyond⟩

end Expr

/-- One of the lexemes is read as a number. -/
def Contains (ls : List Lexeme) (d : Decimal) : Prop :=
  ∃ text, Lexeme.number text ∈ ls ∧ Decimal.read text = some (.finite d)

theorem Derives.contains {n : Nat} {c : Category} {ls : List Lexeme}
    (h : Derives n c ls (.number d)) : Contains ls d := by
  generalize ht : Expr.number d = t at h
  induction h with
  | number hread =>
      cases ht
      exact ⟨_, List.mem_singleton_self _, hread⟩
  | plain _ ih | operand _ ih | unsigned _ ih => exact ih ht
  | group _ ih =>
      obtain ⟨text, hmem, hread⟩ := ih ht
      exact ⟨text, by simp [hmem], hread⟩
  | _ => cases ht

/-- A text has at most a thousand characters, and its numbers have no exponents. -/
theorem computed_of_accept {s : String} {e : Expr} (h : accept s = .ok e) :
    ∀ d, Expr.Part (.number d) e → Computed d := by
  intro d hpart
  have hparse := mapError_eq_ok.1 h
  unfold parse at hparse
  split at hparse
  · cases hparse
  · next ts htokens =>
    obtain ⟨m, c, us, hus, hsub⟩ := (Parser.derives_of_tree hparse).formed_part hpart
    obtain ⟨text, hmem, hread⟩ := hus.contains
    obtain ⟨t, ht, hlexeme⟩ := List.mem_map.1 (hsub hmem)
    have hscanned := Token.scanned_tokens s.toList
    rw [htokens] at hscanned
    have hof := hscanned t ht
    have hlength : text.length ≤ maxLength := by
      have hle := hof.length_le
      rw [hlexeme] at hle
      exact hle.trans (Token.length_le_of_tokens htokens)
    rcases Token.read_numeral (hof.numeral text hlexeme) hlength with ⟨x, hx, hadjusted⟩ | ⟨hnone, -⟩
    · cases hx.symm.trans hread
      exact hadjusted.trans (by decide)
    · cases hnone.symm.trans hread

/-- An accepted formula in a context that answers for every variable has a number as its value or
fails with a fault of the evaluation, with one exception: a function that rounds is called and one of
the variables has a value so large, or a zero of such an exponent, that no context has room for its
digits. Every variable that occurs is in the table of values, and every call has as many arguments as its
function takes. -/
theorem evaluate_ends {s : String} {e : Expr} {reading : Reading} (he : accept s = .ok e)
    (hreads : ∀ v, ∃ o, reading v = .ok o) (method : RoundingMethod) :
    e.WellFormed ∧
    (∀ values, reading.numbers e.vars.eraseDups = .ok values →
      ∀ v ∈ e.vars, ∃ d, valueIn values v = some d ∧ reading.value? v = some d) ∧
    ((∃ d, evaluate method reading s = .ok d) ∨
      (∃ f, evaluate method reading s = .error f ∧ f.kind = .evaluation) ∨
      evaluate method reading s = .error .digitLimit ∧ (∃ f ∈ e.functions, f.Rounds) ∧
        ∃ v ∈ e.vars, ∃ d, reading.value? v = some d ∧ BeyondContexts maxPlaces d) := by
  have htree : evaluate method reading s = evaluateTree method reading e := by
    rw [evaluate, he]
    rfl
  have hcalls := wellFormed_of_accept he
  rw [htree, evaluateTree]
  by_cases hmissing : ∃ v ∈ e.vars, reading.value? v = none
  · obtain ⟨v, hv, hnone⟩ := hmissing
    obtain ⟨f, hf, hkind⟩ :=
      Reading.numbers_of_missing hreads ⟨v, List.mem_eraseDups.2 hv, hnone⟩
    rw [hf]
    exact ⟨hcalls, fun values h => absurd h (by simp), .inr (.inl ⟨f, rfl, hkind⟩)⟩
  · have hset : ∀ v ∈ e.vars, reading.value? v ≠ none := fun v hv hnone => hmissing ⟨v, hv, hnone⟩
    obtain ⟨values, hvalues, hvalue⟩ :=
      Reading.numbers_of_values fun v hv => hset v (List.mem_eraseDups.1 hv)
    refine ⟨hcalls, fun values' h v hv => ?_, ?_⟩
    · obtain rfl := Except.ok.inj (hvalues.symm.trans h)
      obtain ⟨d, hd⟩ := Option.ne_none_iff_exists'.1 (hset v hv)
      exact ⟨d, (hvalue v (List.mem_eraseDups.2 hv)).trans hd, hd⟩
    · have hends : EndsIn (Expr.Passed reading.value? e.vars)
          (Expr.Refused reading.value? e.vars e.functions) (e.eval method reading.value?) :=
        Expr.eval_ends hcalls (computed_of_accept he)
      rw [hvalues]
      simp only [Expr.eval_congr fun v hv => hvalue v (List.mem_eraseDups.2 hv)]
      cases hx : e.eval method reading.value? with
      | ok d => exact .inl ⟨d, rfl⟩
      | error f =>
          rw [hx] at hends
          rcases hends with (hkind | ⟨s, rfl⟩) | ⟨rfl, hbeyond⟩
          · exact .inr (.inl ⟨f, congrArg _ (asEvaluation_eq_self hkind), hkind⟩)
          · exact .inr (.inl ⟨_, rfl, rfl⟩)
          · exact .inr (.inr ⟨rfl, hbeyond⟩)

theorem floor_of_zero_refused :
    accept "floor(custom1)" = .ok (.call .floor [.var .custom1]) ∧
    (∀ v, ∃ o, Reading.ofFields [("custom1", .text "0E+999999999999999999")] v = .ok o) ∧
    evaluate .round (.ofFields [("custom1", .text "0E+999999999999999999")]) "floor(custom1)" =
      .error .digitLimit ∧
    ∃ d, (Reading.ofFields [("custom1", .text "0E+999999999999999999")]).value? .custom1 = some d ∧
      d.isZero ∧ BeyondContexts maxPlaces d := by
  have htokens : Token.tokens "floor(custom1)".toList = .ok
      [⟨.word "floor".toList, 0⟩, ⟨.opening, 5⟩, ⟨.word "custom1".toList, 6⟩, ⟨.closing, 13⟩] := by
    cbv
  have hargument : Derives 31 .expression [.word "custom1".toList] (.var .custom1) :=
    .plain (Derives.var .custom1).term.loosen
  have hcall := Derives.call .floor [(_, _)] rfl (List.forall_mem_singleton.2 hargument)
  have haccept : accept "floor(custom1)" = .ok (.call .floor [.var .custom1]) :=
    (accept_eq_ok htokens).2 (.plain hcall.term.loosen)
  have hvalue : (Reading.ofFields [("custom1", .text "0E+999999999999999999")]).value? .custom1 =
      some ⟨false, 0, 999999999999999999⟩ := by
    decide +kernel
  have hnumber := Reading.value?_eq_some.1 hvalue
  have hbeyond : BeyondContexts 0 ⟨false, 0, 999999999999999999⟩ := by decide +kernel
  have hrefused : evaluate .round (.ofFields [("custom1", .text "0E+999999999999999999")])
      "floor(custom1)" = .error .digitLimit := by
    rw [evaluate, haccept]
    change evaluateTree .round _ (.call .floor [.var .custom1]) = _
    have hvars : (Expr.call .floor [.var .custom1]).vars.eraseDups = [.custom1] := by decide
    rw [evaluateTree, hvars]
    simp only [Reading.numbers, hnumber]
    rw [Expr.eval_call, Expr.evalList_cons]
    change (roundTo arithmetic 0 .floor _).mapError asEvaluation = _
    rw [roundTo_of_beyond hbeyond]
    rfl
  have hreads := Reading.ofFields_answers [("custom1", .text "0E+999999999999999999")]
  obtain ⟨-, -, ⟨d, hd⟩ | ⟨f, hf, hkind⟩ | hlimit⟩ := evaluate_ends haccept hreads .round
  · cases hd.symm.trans hrefused
  · cases hf.symm.trans hrefused
    cases hkind
  · exact ⟨haccept, hreads, hlimit.1, _, hvalue, rfl, hbeyond.mono (Nat.zero_le _)⟩

end Formula

end Payroll
