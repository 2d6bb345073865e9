import Mathlib
import Payroll.Formula.Exemption
import Payroll.Formula.Grammar
import Payroll.Proofs.Results
import Payroll.Proofs.RoundingExact

/-!
With which faults a computation can fail. Sums, products and roundings fail out of range only, and
the value of a formula with a fault of the formula or out of range.
-/

namespace Payroll

namespace Result

variable {ε ε' α β : Type} {P Q : ε → Prop} {x : Except ε α}

/-- If there is a fault, it is one of these. -/
def FailsIn (P : ε → Prop) (x : Except ε α) : Prop := ∀ f, x = .error f → P f

theorem Succeeds.ends {R : α → Prop} (h : Succeeds R x) : EndsIn R P x := by
  obtain ⟨a, rfl, ha⟩ := h
  exact ha

theorem EndsIn.eq_ok {R : α → Prop} (h : EndsIn R P x) : EndsIn (fun a => x = .ok a ∧ R a) P x := by
  cases x with
  | ok a => exact ⟨rfl, h⟩
  | error f => exact h

namespace FailsIn

theorem ok (a : α) : FailsIn P (.ok a : Except ε α) := nofun

theorem error {f : ε} (h : P f) : FailsIn P (.error f : Except ε α) := by
  rintro _ ⟨⟩
  exact h

theorem mono (h : FailsIn P x) (hPQ : ∀ f, P f → Q f) : FailsIn Q x := fun f hf => hPQ f (h f hf)

theorem bind {g : α → Except ε β} (hx : FailsIn P x) (hg : ∀ a, x = .ok a → FailsIn P (g a)) :
    FailsIn P (x >>= g) := by
  cases x with
  | error f => exact error (hx f rfl)
  | ok a => exact hg a rfl

theorem endsIn (h : FailsIn P x) : EndsIn (fun a => x = .ok a) P x := by
  cases x with
  | ok a => exact rfl
  | error f => exact h f rfl

theorem mapError {R : ε' → Prop} {g : ε → ε'} (h : FailsIn P x) (hg : ∀ f, P f → R (g f)) :
    FailsIn R (x.mapError g) := by
  cases x with
  | error f => exact error (hg f (h f rfl))
  | ok a => exact ok _

theorem mapM {g : α → Except ε β} {as : List α} (h : ∀ a ∈ as, FailsIn P (g a)) :
    FailsIn P (as.mapM g) := by
  induction as with
  | nil => exact ok _
  | cons a as ih =>
      rw [List.mapM_cons]
      refine bind (h a List.mem_cons_self) fun b _ => ?_
      exact bind (ih fun a ha => h a (List.mem_cons_of_mem _ ha)) fun bs _ => ok _

theorem foldlM {g : β → α → Except ε β} (h : ∀ b a, FailsIn P (g b a)) (as : List α) (b : β) :
    FailsIn P (as.foldlM g b) := by
  induction as generalizing b with
  | nil => exact ok _
  | cons a as ih =>
      rw [List.foldlM_cons]
      exact bind (h b a) fun b _ => ih b

end FailsIn

end Result

open Result

/-! ### Decimals -/

namespace Decimal.Context

variable {ctx : Context} {a b d : Decimal}

/-- Signals of results that are too large. -/
def TooLarge (s : Signal) : Prop := s = .overflow ∨ s = .invalidOperation

theorem fit_overflows : FailsIn (· = .overflow) (ctx.fit d) := by
  unfold fit
  dsimp only
  split_ifs <;> first | exact .ok _ | exact .error rfl

theorem add_overflows : FailsIn (· = .overflow) (ctx.add a b) := by
  unfold add
  dsimp only
  split_ifs <;> exact fit_overflows

theorem fit_fails : FailsIn TooLarge (ctx.fit d) := fit_overflows.mono fun _ => .inl

theorem add_fails : FailsIn TooLarge (ctx.add a b) := add_overflows.mono fun _ => .inl

theorem sub_fails : FailsIn TooLarge (ctx.sub a b) := add_fails

theorem mul_fails : FailsIn TooLarge (ctx.mul a b) := fit_fails

theorem neg_fails : FailsIn TooLarge (ctx.neg d) := fit_fails

theorem sum_fails (ds : List Decimal) : FailsIn TooLarge (ctx.sum ds) :=
  .foldlM (fun _ _ => add_fails) ds 0

theorem quantize_fails {mode : Rounding} {e : Int} : FailsIn TooLarge (ctx.quantize mode e d) := by
  unfold quantize
  dsimp only
  split_ifs <;> first | exact fit_fails | exact .error (Or.inr rfl)

end Decimal.Context

open Decimal.Context

/-- A result out of the range of the arithmetic. -/
def Fault.OutOfRange (f : Fault) : Prop :=
  f = .digitLimit ∨ f = .arithmetic .overflow ∨ f = .arithmetic .invalidOperation

theorem signal_fails {α : Type} {x : Except Decimal.Signal α} (h : FailsIn TooLarge x) :
    FailsIn Fault.OutOfRange (liftM x : Except Fault α) := by
  cases x with
  | ok a => exact .ok a
  | error s =>
      obtain rfl | rfl := h s rfl
      · exact .error (.inr (.inl rfl))
      · exact .error (.inr (.inr rfl))

theorem roundTo_fails (ctx : Decimal.Context) (places : Nat) (m : RoundingMethod) (d : Decimal) :
    FailsIn Fault.OutOfRange (roundTo ctx places m d) := by
  have hcontext : FailsIn Fault.OutOfRange (roundingContext ctx places d) := by
    unfold roundingContext
    simp only
    split
    · exact .error (.inl rfl)
    · exact .ok _
  cases hctx : roundingContext ctx places d with
  | error f =>
      rw [roundTo, hctx]
      exact .error (hcontext f hctx)
  | ok inner =>
      by_cases hm : m = .halfUp ∧ d.value < 0
      · obtain ⟨rfl, hneg⟩ := hm
        rw [roundTo_negated hctx hneg]
        exact (signal_fails neg_fails).bind fun m _ =>
          (signal_fails quantize_fails).bind fun q _ => signal_fails neg_fails
      · rw [roundTo_direct hctx hm]
        exact signal_fails quantize_fails

theorem RoundingPolicy.apply_fails (p : RoundingPolicy) (d : Decimal) :
    FailsIn Fault.OutOfRange (p.apply d) := roundTo_fails _ _ _ _

theorem RoundingPolicy.apply_zero (p : RoundingPolicy) : ∃ d, p.apply 0 = .ok d := by
  have hdigits : Decimal.digits 0 = 1 := by
    rw [Decimal.digits, show Decimal.coefficient 0 = 0 from rfl, digitCount_zero]
  have hr : Decimal.ordinary.Represents 0 := by
    refine ⟨0, Decimal.value_zero', ?_, by decide, ?_⟩
    · rw [hdigits]
      decide
    · rw [Decimal.adjusted, hdigits]
      decide
  have hexact : p.method.exact p.places 0 = 0 := by
    cases p.method <;>
      norm_num [RoundingMethod.exact, RoundingMethod.nearest, Decimal.Rounding.nearest]
  obtain ⟨d, hd, -⟩ := roundTo_exact standard_ordinary p.bounded p.method (d := 0)
    (by rw [Decimal.value_zero']; exact hr) (by decide)
    (by rw [Decimal.value_zero', hexact]; exact hr)
  exact ⟨d, hd⟩

/-! ### Formulas -/

namespace Formula

variable {R : Fault → Prop} {reading : Reading}

/-- What can go wrong between the operands of a formula and its value. -/
def Evaluating (f : Fault) : Prop :=
  f.isFormulaFault = true ∨ f = .digitLimit ∨ ∃ s, f = .arithmetic s

theorem evaluating_of_outOfRange {f : Fault} (h : f.OutOfRange) : Evaluating f := by
  obtain rfl | rfl | rfl := h
  · exact .inr (.inl rfl)
  · exact .inr (.inr ⟨_, rfl⟩)
  · exact .inr (.inr ⟨_, rfl⟩)

theorem evaluating_lift {α : Type} (x : Except Decimal.Signal α) :
    FailsIn Evaluating (liftM x : Except Fault α) := by
  cases x with
  | ok a => exact .ok a
  | error s => exact .error (.inr (.inr ⟨s, rfl⟩))

theorem UnaryOp.apply_fails (op : UnaryOp) (d : Decimal) : FailsIn Evaluating (op.apply d) := by
  cases op with
  | minus => exact evaluating_lift _
  | plus => exact .ok d
  | not => exact .ok _

theorem BinaryOp.apply_fails (op : BinaryOp) (l r : Decimal) :
    FailsIn Evaluating (op.apply l r) := by
  cases op with
  | add | sub | mul => exact evaluating_lift _
  | div | rem =>
      simp only [BinaryOp.apply]
      split
      · exact .error (.inl rfl)
      · exact evaluating_lift _
  | _ => exact .ok _

theorem Function.apply_fails (m : RoundingMethod) (f : Function) (args : List Decimal) :
    FailsIn Evaluating (f.apply m args) := by
  have hround (places : Nat) (method : RoundingMethod) (d : Decimal) :
      FailsIn Evaluating (roundTo arithmetic places method d) :=
    (roundTo_fails _ _ _ _).mono fun _ => evaluating_of_outOfRange
  unfold Function.apply
  split
  · exact .ok _
  · exact .ok _
  · exact evaluating_lift _
  · exact hround _ _ _
  · exact hround _ _ _
  · exact hround _ _ _
  · next d p _ =>
    have hplaces : FailsIn Evaluating (roundPlaces p) := by
      unfold roundPlaces
      split
      · exact .ok _
      · exact .error (.inl rfl)
    exact hplaces.bind fun n _ => hround _ _ _
  · split
    · exact .error (.inl rfl)
    · exact FailsIn.bind (evaluating_lift _) fun d _ => evaluating_lift _
  · exact .error (.inl rfl)

theorem eval_fails (m : RoundingMethod) (env : Variable → Option Decimal) (e : Expr) :
    FailsIn Evaluating (e.eval m env) := by
  induction e using Expr.induct with
  | number d => exact .ok d
  | var v =>
      simp only [Expr.eval]
      split
      · exact .ok _
      · exact .error (.inl rfl)
  | unary op e ih =>
      simp only [Expr.eval]
      split
      · exact UnaryOp.apply_fails op _
      · next h => exact .error (ih _ h)
  | binary op l r hl hr =>
      simp only [Expr.eval]
      split
      · next h => exact .error (hl _ h)
      · split
        · exact .ok _
        · split
          · exact BinaryOp.apply_fails op _ _
          · next h => exact .error (hr _ h)
  | conditional t y n ht hy hn =>
      simp only [Expr.eval]
      split
      · next h => exact .error (ht _ h)
      · split
        · exact hy
        · exact hn
  | call f es ih =>
      have hlist : FailsIn Evaluating (Expr.evalList m env es) := by
        induction es with
        | nil => exact .ok _
        | cons e es ihs =>
            simp only [Expr.evalList]
            split
            · next h => exact .error (ih e List.mem_cons_self _ h)
            · split
              · exact .ok _
              · next h => exact .error (ihs (fun a ha => ih a (List.mem_cons_of_mem _ ha)) _ h)
      simp only [Expr.eval]
      split
      · exact Function.apply_fails m f _
      · next h => exact .error (hlist _ h)

/-- A fault of the formula, a value with too many digits, or a fault of what is read. -/
def Failing (R : Fault → Prop) (f : Fault) : Prop :=
  f.isFormulaFault = true ∨ f = .digitLimit ∨ R f

theorem numbers_fails (h : ∀ v, FailsIn R (reading v)) (vs : List Variable) :
    FailsIn (Failing R) (reading.numbers vs) := by
  have hnumber (v : Variable) : FailsIn (Failing R) (reading.number v) := by
    unfold Reading.number
    split
    · next hv => exact .error (.inr (.inr (h v _ hv)))
    · exact .error (.inl rfl)
    · split
      · exact .ok _
      · exact .error (.inl rfl)
  induction vs with
  | nil => exact .ok _
  | cons v vs ih =>
      unfold Reading.numbers
      split
      · next hv => exact .error (hnumber v _ hv)
      · split
        · exact .ok _
        · next hvs => exact .error (ih _ hvs)

/-- Signals of the arithmetic inside a formula are faults of its evaluation. -/
theorem evaluateTree_fails (h : ∀ v, FailsIn R (reading v)) (m : RoundingMethod) (e : Expr) :
    FailsIn (Failing R) (evaluateTree m reading e) := by
  unfold evaluateTree
  split
  · next hf => exact .error (numbers_fails h _ _ hf)
  · refine (eval_fails m _ e).mapError fun f hf => ?_
    obtain hf | rfl | ⟨s, rfl⟩ := hf
    · cases f <;> first | exact .inl hf | cases hf
    · exact .inr (.inl rfl)
    · exact .inl rfl

/-- A rule that looks at its limit: a taxable concept that is not exempt and has one above zero. -/
def ExemptionRule.Limited (rule : ExemptionRule) : Prop :=
  rule.taxable = true ∧ rule.exempt = false ∧
    ∃ a d, rule.limit = some a ∧ a.toDecimal = .ok d ∧ d.le 0 = false

theorem roundValueOf_fails (p : RoundingPolicy) (d : Decimal) :
    FailsIn (fun f => f.isFormulaFault = true) (roundValueOf p d) :=
  (RoundingPolicy.apply_fails p d).mapError fun _ _ => rfl

theorem limitUnitValue_fails (hr : ∀ v, FailsIn R (reading v))
    (hd : ∀ v a, reading v = .ok (some a) → FailsIn R a.toDecimal) (fiscal : Option FiscalValues)
    (unit : Json) : FailsIn (Failing R) (limitUnitValue reading fiscal unit) := by
  have hreference (pick : FiscalValues → Decimal) (name : String) (v : Variable) :
      FailsIn (Failing R) (referenceValue reading fiscal pick name v) := by
    cases fiscal with
    | some values => exact .ok _
    | none =>
        refine FailsIn.bind ((hr v).mono fun _ h => .inr (.inr h)) fun a ha => ?_
        cases a with
        | none => exact .error (.inl rfl)
        | some a => exact (hd v a ha).mono fun _ h => .inr (.inr h)
  unfold limitUnitValue
  split
  · exact .ok _
  iterate 3 exact hreference _ _ _
  · exact .error (.inl rfl)

/-- Only a rule that looks at its limit multiplies and subtracts. -/
theorem divide_fails (hr : ∀ v, FailsIn R (reading v))
    (hd : ∀ v a, reading v = .ok (some a) → FailsIn R a.toDecimal) {rule : ExemptionRule}
    (hl : ∀ a ∈ rule.limit, FailsIn R a.toDecimal) (p : RoundingPolicy)
    (fiscal : Option FiscalValues) (value : Decimal) :
    FailsIn (fun f => Failing R f ∨ f.OutOfRange ∧ rule.Limited)
      (divide p reading rule fiscal value) := by
  obtain ⟨z, hz⟩ := p.apply_zero
  unfold divide
  simp only [hz]
  split
  · exact .ok _
  · next hwhole =>
    have hlimit : FailsIn R rule.limitNumber := by
      unfold ExemptionRule.limitNumber
      split
      · next a ha => exact hl a ha
      · exact .ok _
    refine FailsIn.bind (hlimit.mono fun _ h => .inl (.inr (.inr h))) fun limit hlim => ?_
    split
    · exact .ok _
    · next hpos =>
      have hlimited : rule.Limited := by
        unfold ExemptionRule.limitNumber at hlim
        split at hlim
        · next a ha => exact ⟨by simp_all, by simp_all, a, limit, ha, hlim, by simpa using hpos⟩
        · cases hlim
          exact absurd (by decide) hpos
      have hrange {α : Type} {x : Except Fault α} (h : FailsIn Fault.OutOfRange x) :
          FailsIn (fun f => Failing R f ∨ f.OutOfRange ∧ rule.Limited) x :=
        h.mono fun f hf => .inr ⟨hf, hlimited⟩
      refine FailsIn.bind ((limitUnitValue_fails hr hd fiscal _).mono fun _ h => .inl h)
        fun unit _ => ?_
      refine FailsIn.bind (hrange (signal_fails mul_fails)) fun product _ => ?_
      refine FailsIn.bind ((roundValueOf_fails p product).mono fun _ h => .inl (.inl h))
        fun amount _ => ?_
      refine FailsIn.bind (hrange (signal_fails sub_fails)) fun rest _ => ?_
      refine FailsIn.bind (hrange (p.apply_fails _)) fun taxable _ => ?_
      exact FailsIn.bind (hrange (p.apply_fails _)) fun exempt _ => .ok _

theorem accept_fails (s : String) :
    FailsIn (fun f => f.isFormulaFault = true ∨ f = .arithmetic .conversionSyntax) (accept s) := by
  unfold accept
  cases parse s with
  | ok e => exact .ok e
  | error r => cases r <;> first | exact .error (.inr rfl) | exact .error (.inl rfl)

/-- Reading and dividing aside, only faults of the formula itself come out of its evaluation. -/
theorem evaluateWithExemption_fails (hr : ∀ v, FailsIn R (reading v))
    (hd : ∀ v a, reading v = .ok (some a) → FailsIn R a.toDecimal) {rule : ExemptionRule}
    (hl : ∀ a ∈ rule.limit, FailsIn R a.toDecimal) (p : RoundingPolicy)
    (fiscal : Option FiscalValues) (s : String) :
    FailsIn (fun f => Failing R f ∨ f.OutOfRange ∧ rule.Limited ∨
        f = .arithmetic .conversionSyntax ∧ accept s = .error f)
      (evaluateWithExemption p reading rule fiscal s) := by
  have hformula {α : Type} {x : Except Fault α} (h : FailsIn (Failing R) x) :
      FailsIn (fun f => Failing R f ∨ f.OutOfRange ∧ rule.Limited ∨
        f = .arithmetic .conversionSyntax ∧ accept s = .error f) x := h.mono fun _ h => .inl h
  have haccept : FailsIn (fun f => Failing R f ∨ f.OutOfRange ∧ rule.Limited ∨
      f = .arithmetic .conversionSyntax ∧ accept s = .error f) (accept s) := by
    intro f hf
    obtain h | h := accept_fails s f hf
    · exact .inl (.inl h)
    · exact .inr (.inr ⟨h, hf⟩)
  have hreport (vs : List Variable) : FailsIn R (variableReport reading vs) := by
    refine .mapM fun v _ => FailsIn.bind (hr v) fun a ha => ?_
    cases a with
    | none => exact .ok _
    | some a => exact FailsIn.bind (hd v a ha) fun d _ => .ok _
  refine haccept.bind fun e _ => ?_
  refine FailsIn.bind (hformula (evaluateTree_fails hr p.method e)) fun raw _ => ?_
  refine FailsIn.bind (hformula ((roundValueOf_fails p raw).mono fun _ => .inl)) fun value _ => ?_
  refine FailsIn.bind (hformula ((hreport _).mono fun _ h => .inr (.inr h))) fun inputs _ => ?_
  refine FailsIn.bind ((divide_fails hr hd hl p fiscal value).mono fun f h => ?_)
    fun parts _ => .ok _
  exact h.imp_right .inl

end Formula

end Payroll
