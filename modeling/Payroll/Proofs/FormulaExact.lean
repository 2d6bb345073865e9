import Mathlib
import Payroll.Formula.Reference
import Payroll.Proofs.DecimalQuotient
import Payroll.Proofs.FormulaReplay
import Payroll.Proofs.GrammarParsing
import Payroll.Proofs.RoundingExact

/-!
Formulas are evaluated exactly. Where everything on the path of an evaluation is held by formula
arithmetic, the outcome is the exact value of the formula, and an error where that is undefined.
-/

namespace Payroll

open Result

namespace Decimal

variable {a b : Decimal}

theorem lt_eq (a b : Decimal) : a.lt b = decide (a.value < b.value) := by
  rw [Bool.eq_iff_iff, lt_iff, decide_eq_true_iff]

theorem le_eq (a b : Decimal) : a.le b = decide (a.value ≤ b.value) := by
  rw [Bool.eq_iff_iff, le_iff, decide_eq_true_iff]

theorem same_eq (a b : Decimal) : a.same b = decide (a.value = b.value) := by
  rw [Bool.eq_iff_iff, same_iff, decide_eq_true_iff]

theorem value_minimum (d : Decimal) (ds : List Decimal) :
    (minimum d ds).value = (ds.map value).foldl min d.value := by
  induction ds generalizing d with
  | nil => rfl
  | cons e es ih =>
      have hleast : (if e.lt d then e else d).value = min d.value e.value := by
        split
        · next h => rw [min_eq_right (lt_iff.1 h).le]
        · next h => rw [min_eq_left (not_lt.1 (mt lt_iff.2 h))]
      rw [minimum, ih, hleast]
      rfl

theorem value_maximum (d : Decimal) (ds : List Decimal) :
    (maximum d ds).value = (ds.map value).foldl max d.value := by
  induction ds generalizing d with
  | nil => rfl
  | cons e es ih =>
      have hgreatest : (if d.lt e then e else d).value = max d.value e.value := by
        split
        · next h => rw [max_eq_right (lt_iff.1 h).le]
        · next h => rw [max_eq_left (not_lt.1 (mt lt_iff.2 h))]
      rw [maximum, ih, hgreatest]
      rfl

theorem value_min2 (a b : Decimal) : (min2 a b).value = min a.value b.value := value_minimum a [b]

theorem value_max2 (a b : Decimal) : (max2 a b).value = max a.value b.value := value_maximum a [b]

theorem minimum_mem (d : Decimal) (ds : List Decimal) : minimum d ds ∈ d :: ds := by
  induction ds generalizing d with
  | nil => exact List.mem_cons_self
  | cons e es ih =>
      rw [minimum]
      rcases List.mem_cons.1 (ih (if e.lt d then e else d)) with h | h
      · rw [h]
        split <;> simp
      · exact List.mem_cons_of_mem _ (List.mem_cons_of_mem _ h)

theorem maximum_mem (d : Decimal) (ds : List Decimal) : maximum d ds ∈ d :: ds := by
  induction ds generalizing d with
  | nil => exact List.mem_cons_self
  | cons e es ih =>
      rw [maximum]
      rcases List.mem_cons.1 (ih (if d.lt e then e else d)) with h | h
      · rw [h]
        split <;> simp
      · exact List.mem_cons_of_mem _ (List.mem_cons_of_mem _ h)

end Decimal

namespace Formula

theorem standard_arithmetic : arithmetic.Standard := ⟨rfl, rfl, by decide⟩

/-- A decimal of formula arithmetic denotes a number. -/
structure Denotes (d : Decimal) (x : ℚ) : Prop where
  value_eq : d.value = x
  held : HeldDecimal d

/-- An outcome is what a reference gives: something that stands for its value, or a failure of the
evaluation where it is undefined. -/
def Agrees {α β : Type} (P : α → β → Prop) (r : Except Fault α) : Option β → Prop
  | some x => ∃ d, r = .ok d ∧ P d x
  | none => ∃ f, r = .error f ∧ f.kind = .evaluation

variable {method : RoundingMethod} {d : Decimal} {x : ℚ}

theorem agrees_of_yields {r : Except Decimal.Signal Decimal} (h : arithmetic.Yields r x)
    (hx : Held x) : Agrees Denotes (liftM r) (some x) := by
  obtain ⟨d, hd, rfl, hexponent⟩ := h
  exact ⟨d, signal_eq_ok.2 hd, rfl, hx, hexponent⟩

theorem holds_eq (d : Decimal) : holds d = decide (d.value ≠ 0) := by
  rw [holds, Bool.eq_iff_iff, Bool.not_eq_true', decide_eq_true_iff, Ne, Decimal.value_eq_zero,
    Bool.not_eq_true]

theorem heldDecimal_of_lt {s : Bool} {n : Nat} {e : Int} (hn : n < pow10 34)
    (hlow : arithmetic.tiny ≤ e) (hhigh : e ≤ 0) : HeldDecimal ⟨s, n, e⟩ := by
  have hdigits : digitCount n ≤ 34 := digitCount_le hn (by decide)
  have hmax : arithmetic.maxExponent = 999999 := rfl
  refine ⟨⟨⟨s, n, e⟩, rfl, hdigits, hlow, ?_⟩, ?_⟩
  · change e + digitCount n - 1 ≤ arithmetic.maxExponent
    omega
  · change e ≤ arithmetic.maxExponent
    omega

theorem denotes_flag (b : Bool) : Denotes (flag b) (truth b) := by
  cases b with
  | false =>
      exact ⟨Decimal.value_zero _ _, heldDecimal_of_lt (by decide) (by decide) (by decide)⟩
  | true =>
      refine ⟨?_, heldDecimal_of_lt (by decide) (by decide) (by decide)⟩
      exact (Decimal.value_mk 1 0).trans (by norm_num [truth])

theorem agrees_flag {b c : Bool} (h : b = c) : Agrees Denotes (.ok (flag b)) (some (truth c)) :=
  ⟨flag b, rfl, h ▸ denotes_flag b⟩

theorem UnaryOp.agrees (op : UnaryOp) (hd : HeldDecimal d) (h : Held (op.exact d.value)) :
    Agrees Denotes (op.apply d) (some (op.exact d.value)) := by
  cases op with
  | minus => exact agrees_of_yields (Decimal.Context.yields_neg standard_arithmetic h) h
  | plus => exact ⟨d, rfl, rfl, hd⟩
  | not =>
      refine agrees_flag ?_
      rw [holds_eq, ← decide_not]
      simp

namespace BinaryOp

theorem decidedBy_eq_none (op : BinaryOp) (d : Decimal) :
    op.decidedBy d = none ↔ op.shortcut d.value = none := by
  cases op <;> simp [decidedBy, shortcut, holds_eq]

theorem denotes_of_decidedBy {op : BinaryOp} {d r : Decimal} (h : op.decidedBy d = some r) :
    ∃ z, op.shortcut d.value = some z ∧ Denotes r z := by
  cases op with
  | or =>
    simp only [decidedBy, holds_eq] at h
    split at h
    · next hd =>
      cases h
      exact ⟨1, by simpa [shortcut] using hd, denotes_flag true⟩
    · cases h
  | and =>
    simp only [decidedBy, holds_eq] at h
    split at h
    · cases h
    · next hd =>
      cases h
      exact ⟨0, by simpa [shortcut] using hd, denotes_flag false⟩
  | _ => cases h

theorem agrees (op : BinaryOp) {l r : Decimal} (h : op.Fits l.value r.value) :
    Agrees Denotes (op.apply l r) (op.exact l.value r.value) := by
  obtain ⟨hquotient, hresult⟩ := h
  have hs := standard_arithmetic
  have hzero : r.isZero = decide (r.value = 0) := by
    rw [Bool.eq_iff_iff, decide_eq_true_iff, Decimal.value_eq_zero]
  cases op with
  | or | and => exact agrees_flag (holds_eq r)
  | equal => exact agrees_flag (Decimal.same_eq l r)
  | notEqual => exact agrees_flag (by rw [Decimal.same_eq, decide_not])
  | less => exact agrees_flag (Decimal.lt_eq l r)
  | atMost => exact agrees_flag (Decimal.le_eq l r)
  | greater => exact agrees_flag (Decimal.lt_eq r l)
  | atLeast => exact agrees_flag (Decimal.le_eq r l)
  | add =>
      have h := hresult _ rfl
      exact agrees_of_yields (Decimal.Context.yields_add hs h) h
  | sub =>
      have h := hresult _ rfl
      exact agrees_of_yields (Decimal.Context.yields_sub hs h) h
  | mul =>
      have h := hresult _ rfl
      exact agrees_of_yields (Decimal.Context.yields_mul hs h) h
  | div =>
      by_cases hr : r.value = 0
      · simp only [apply, exact, hzero, hr, decide_true, if_true]
        exact ⟨_, rfl, rfl⟩
      · have h := hresult _ (if_neg hr)
        simp only [apply, exact, hzero, hr, decide_false, if_false, Bool.false_eq_true]
        exact agrees_of_yields (Decimal.Context.yields_div hs (by simp [hzero, hr]) h) h
  | rem =>
      by_cases hr : r.value = 0
      · simp only [apply, exact, hzero, hr, decide_true, if_true]
        exact ⟨_, rfl, rfl⟩
      · have h := hresult _ (if_neg hr)
        simp only [apply, exact, hzero, hr, decide_false, if_false, Bool.false_eq_true]
        exact agrees_of_yields
          (Decimal.Context.yields_rem hs (by simp [hzero, hr]) (hquotient rfl hr) h) h

end BinaryOp

/-- The places of a rounding are read off its second argument. -/
theorem roundPlaces_agrees (p : Decimal) :
    Agrees (· = ·) (roundPlaces p)
      (if (⌊p.value⌋ : ℚ) = p.value ∧ 0 ≤ p.value ∧ p.value ≤ maxPlaces then some ⌊p.value⌋.toNat
        else none) := by
  have hinteger : p.same p.roundToInteger = true ↔ (⌊p.value⌋ : ℚ) = p.value := by
    rw [Decimal.same_iff, Decimal.value_roundToInteger]
    constructor
    · intro h
      rw [h, Int.floor_intCast]
    · intro h
      rw [← h, Decimal.Rounding.nearest_intCast]
  have hten : (10 : Decimal).value = (maxPlaces : ℕ) := by
    rw [maxPlaces]
    exact (Decimal.value_mk 10 0).trans (by norm_num)
  have hcondition : (p.same p.roundToInteger ∧ Decimal.le 0 p ∧ p.le 10) ↔
      (⌊p.value⌋ : ℚ) = p.value ∧ 0 ≤ p.value ∧ p.value ≤ maxPlaces := by
    rw [hinteger, Decimal.le_iff, Decimal.le_iff, Decimal.value_zero', hten]
  unfold roundPlaces
  by_cases h : (⌊p.value⌋ : ℚ) = p.value ∧ 0 ≤ p.value ∧ p.value ≤ maxPlaces
  · rw [if_pos (hcondition.2 h), if_pos h]
    refine ⟨_, rfl, ?_⟩
    rw [Decimal.truncate_eq, truncated, if_pos h.2.1]
  · rw [if_neg (mt hcondition.1 h), if_neg h]
    exact ⟨_, rfl, rfl⟩

theorem roundTo_agrees {places : Nat} (hplaces : places ≤ maxPlaces) (hd : HeldDecimal d)
    (h : Held (method.exact places d.value)) :
    Agrees Denotes (roundTo arithmetic places method d) (some (method.exact places d.value)) := by
  obtain ⟨r, hr, hvalue, hexponent⟩ := roundTo_exact standard_arithmetic hplaces method hd.1 hd.2 h
  exact ⟨r, hr, hvalue, hvalue ▸ h, hexponent⟩

theorem Agrees.bind {α β α' β' : Type} {P : α → β → Prop} {Q : α' → β' → Prop}
    {r : Except Fault α} {o : Option β} {f : α → Except Fault α'} {g : β → Option β'}
    (h : Agrees P r o) (hf : ∀ a b, o = some b → P a b → Agrees Q (f a) (g b)) :
    Agrees Q (r >>= f) (o.bind g) := by
  cases o with
  | none =>
      obtain ⟨e, rfl, he⟩ := h
      exact ⟨e, rfl, he⟩
  | some b =>
      obtain ⟨a, rfl, hab⟩ := h
      exact hf a b rfl hab

theorem Function.accepts_iff {f : Function} {n : Nat} :
    f.accepts n = true ↔ f.leastArguments ≤ n ∧ ∀ m ∈ f.mostArguments, n ≤ m := by
  rw [accepts, Bool.and_eq_true, decide_eq_true_iff]
  cases f.mostArguments <;> simp

theorem roundTo_agrees_integer (method : RoundingMethod) (hd : HeldDecimal d)
    (h : Held (method.nearest d.value)) :
    Agrees Denotes (roundTo arithmetic 0 method d) (some (method.nearest d.value : ℚ)) := by
  have hexact : method.exact 0 d.value = method.nearest d.value := by simp [RoundingMethod.exact]
  rw [← hexact] at h ⊢
  exact roundTo_agrees (Nat.zero_le _) hd h

/-- With places in a second argument, which the rounding takes as they stand. -/
theorem Function.round_agrees {p : Decimal} (hd : HeldDecimal d)
    (h : ∀ z ∈ Function.exact method .round [d.value, p.value], Held z) :
    Agrees Denotes (Function.apply method .round [d, p])
      (Function.exact method .round [d.value, p.value]) := by
  have hp := roundPlaces_agrees p
  simp only [exact] at h ⊢
  split at hp
  · next hcondition =>
    rw [if_pos hcondition] at h ⊢
    obtain ⟨places, hplaces, rfl⟩ := hp
    have hten : ⌊p.value⌋.toNat ≤ maxPlaces := by
      have hfloor : ⌊p.value⌋ ≤ (maxPlaces : ℤ) := by
        have hle := hcondition.2.2
        rw [← hcondition.1] at hle
        exact_mod_cast hle
      omega
    simp only [apply, hplaces]
    exact roundTo_agrees hten hd (h _ rfl)
  · next hcondition =>
    obtain ⟨fault, hfault, hkind⟩ := hp
    rw [if_neg hcondition]
    exact ⟨fault, by simp only [apply, hfault]; rfl, hkind⟩

/-- The product is computed before the quotient, so that it has to be held as well. -/
theorem Function.proportional_agrees {a n m : Decimal}
    (hproduct : m.value ≠ 0 → Held (a.value * n.value))
    (h : ∀ z ∈ Function.exact method .proportional [a.value, n.value, m.value], Held z) :
    Agrees Denotes (Function.apply method .proportional [a, n, m])
      (Function.exact method .proportional [a.value, n.value, m.value]) := by
  have hs := standard_arithmetic
  have hzero : m.isZero = decide (m.value = 0) := by
    rw [Bool.eq_iff_iff, decide_eq_true_iff, Decimal.value_eq_zero]
  simp only [exact, apply, hzero] at h ⊢
  by_cases hm : m.value = 0
  · simp only [hm, decide_true, if_true]
    exact ⟨_, rfl, rfl⟩
  · simp only [hm, decide_false, if_false, Bool.false_eq_true] at h ⊢
    obtain ⟨product, hok, hvalue, -⟩ := Decimal.Context.yields_mul hs (hproduct hm)
    have h := h _ rfl
    rw [← hvalue] at h ⊢
    rw [hok]
    exact agrees_of_yields (Decimal.Context.yields_div hs (by simp [hzero, hm]) h) h

theorem Function.agrees (f : Function) {ds : List Decimal} (haccepts : f.accepts ds.length)
    (hds : ∀ d ∈ ds, HeldDecimal d) (h : f.Fits method (ds.map Decimal.value)) :
    Agrees Denotes (f.apply method ds) (f.exact method (ds.map Decimal.value)) := by
  obtain ⟨hleast, hmost⟩ := accepts_iff.1 haccepts
  obtain ⟨hproduct, hresult⟩ := h
  have hsingle (hone : ds.length ≤ 1) (hpos : 1 ≤ ds.length) : ∃ d, ds = [d] :=
    List.length_eq_one_iff.1 (le_antisymm hone hpos)
  cases f with
  | min =>
      obtain _ | ⟨d, ds⟩ := ds
      · cases hleast
      · exact ⟨_, rfl, Decimal.value_minimum d ds, hds _ (Decimal.minimum_mem d ds)⟩
  | max =>
      obtain _ | ⟨d, ds⟩ := ds
      · cases hleast
      · exact ⟨_, rfl, Decimal.value_maximum d ds, hds _ (Decimal.maximum_mem d ds)⟩
  | abs =>
      obtain ⟨d, rfl⟩ := hsingle (hmost 1 rfl) hleast
      have h := hresult _ rfl
      exact agrees_of_yields (Decimal.Context.yields_abs standard_arithmetic h) h
  | floor =>
      obtain ⟨d, rfl⟩ := hsingle (hmost 1 rfl) hleast
      have h := hresult _ rfl
      exact roundTo_agrees_integer .floor (hds d List.mem_cons_self) h
  | ceil =>
      obtain ⟨d, rfl⟩ := hsingle (hmost 1 rfl) hleast
      have h := hresult _ rfl
      exact roundTo_agrees_integer .ceil (hds d List.mem_cons_self) h
  | round =>
      have htwo : ds.length ≤ 2 := hmost 2 rfl
      obtain _ | ⟨d, _ | ⟨p, _ | ⟨q, ds⟩⟩⟩ := ds
      · cases hleast
      · exact roundTo_agrees (by decide) (hds d List.mem_cons_self) (hresult _ rfl)
      · exact round_agrees (hds d List.mem_cons_self) hresult
      · simp at htwo
  | proportional =>
      obtain ⟨a, n, m, rfl⟩ : ∃ a n m, ds = [a, n, m] :=
        List.length_eq_three.1 (le_antisymm (hmost 3 rfl) hleast)
      exact proportional_agrees (hproduct _ _ _ rfl rfl) hresult

namespace Expr

variable {env env' : Variable → Option Decimal} {e l r t y n : Expr} {es : List Expr}

section Steps

theorem eval_unary (op : UnaryOp) :
    eval method env (.unary op e) = eval method env e >>= op.apply := by
  rw [eval]
  cases eval method env e <;> rfl

theorem eval_binary (op : BinaryOp) : eval method env (.binary op l r) =
    eval method env l >>= fun x =>
      match op.decidedBy x with
      | some d => .ok d
      | none => eval method env r >>= op.apply x := by
  rw [eval]
  cases eval method env l with
  | error f => rfl
  | ok x =>
      dsimp only
      change _ = match op.decidedBy x with
        | some d => Except.ok d
        | none => eval method env r >>= op.apply x
      cases op.decidedBy x with
      | some d => rfl
      | none => cases eval method env r <;> rfl

theorem eval_conditional : eval method env (.conditional t y n) =
    eval method env t >>= fun d => if holds d then eval method env y else eval method env n := by
  rw [eval]
  cases eval method env t <;> rfl

theorem eval_call (f : Function) :
    eval method env (.call f es) = evalList method env es >>= f.apply method := by
  rw [eval]
  cases evalList method env es <;> rfl

theorem evalList_cons : evalList method env (e :: es) =
    eval method env e >>= fun d => evalList method env es >>= fun ds => .ok (d :: ds) := by
  rw [evalList]
  cases eval method env e with
  | error f => rfl
  | ok d => cases evalList method env es <;> rfl

end Steps

/-- What the arguments of a call denote. -/
structure DenoteAll (es : List Expr) (ds : List Decimal) (xs : List ℚ) : Prop where
  length_eq : ds.length = es.length
  values_eq : ds.map Decimal.value = xs
  held : ∀ d ∈ ds, HeldDecimal d

theorem evalList_agrees
    (h : ∀ e ∈ es, e.Fits method env →
      Agrees Denotes (e.eval method env) (e.exact method (valuesOf env)))
    (hfits : FitsList method env es) :
    Agrees (DenoteAll es) (evalList method env es) (exactList method (valuesOf env) es) := by
  induction es with
  | nil => exact ⟨[], rfl, rfl, rfl, fun _ hd => nomatch hd⟩
  | cons e es ih =>
      obtain ⟨he, hes⟩ := List.forall_mem_cons.1 h
      obtain ⟨hfit, hrest⟩ := hfits
      rw [evalList_cons, exactList]
      refine (he hfit).bind fun d x hx hd => ?_
      rw [Option.map_eq_bind]
      refine (ih hes (hrest (by rw [hx]; rfl))).bind fun ds xs _ hds => ?_
      refine ⟨d :: ds, rfl, ?_, ?_, List.forall_mem_cons.2 ⟨hd.held, hds.held⟩⟩
      · rw [List.length_cons, List.length_cons, hds.length_eq]
      · rw [List.map_cons, hd.value_eq, hds.values_eq]

/-- Every call in a tree has as many arguments as its function takes. -/
def WellFormed (e : Expr) : Prop := ∀ f es, Part (.call f es) e → f.accepts es.length

theorem Part.trans {p q : Expr} (hpq : Part p q) (h : Part q e) : Part p e := by
  induction h with
  | whole => exact hpq
  | operand _ ih => exact .operand ih
  | left _ ih => exact .left ih
  | right _ ih => exact .right ih
  | test _ ih => exact .test ih
  | yes _ ih => exact .yes ih
  | no _ ih => exact .no ih
  | argument he _ ih => exact .argument he ih

theorem WellFormed.part {p : Expr} (h : e.WellFormed) (hp : Part p e) : p.WellFormed :=
  fun f es hcall => h f es (hcall.trans hp)

/-- The induction is over the tree. At a node, what the operands denote decides the way that the
evaluation goes on, and the result is held because the way is within the limits. -/
theorem eval_agrees (hcalls : e.WellFormed) (hfits : e.Fits method env) :
    Agrees Denotes (e.eval method env) (e.exact method (valuesOf env)) := by
  induction e using induct with
  | number d => exact ⟨d, rfl, rfl, hfits⟩
  | var v =>
      simp only [exact, eval, valuesOf]
      simp only [Fits] at hfits
      cases hv : env v with
      | none => exact ⟨_, rfl, rfl⟩
      | some d => exact ⟨d, rfl, rfl, hfits d hv⟩
  | unary op e ih =>
      simp only [Fits] at hfits
      rw [eval_unary, exact, Option.map_eq_bind]
      refine (ih (hcalls.part (.operand .whole)) hfits.1).bind fun d x hx hd => ?_
      have hop := hfits.2 x hx
      obtain ⟨rfl, hd⟩ := hd
      exact op.agrees hd hop
  | binary op l r ihl ihr =>
      simp only [Fits] at hfits
      rw [eval_binary, exact]
      refine (ihl (hcalls.part (.left .whole)) hfits.1).bind fun d x hx hd => ?_
      have hright := hfits.2 x hx
      obtain ⟨rfl, hd⟩ := hd
      cases hdecided : op.decidedBy d with
      | some d' =>
          obtain ⟨z, hz, hd'⟩ := BinaryOp.denotes_of_decidedBy hdecided
          rw [hz]
          exact ⟨d', rfl, hd'⟩
      | none =>
          have hnone := (op.decidedBy_eq_none d).1 hdecided
          obtain ⟨hr, hop⟩ := hright hnone
          rw [hnone]
          refine (ihr (hcalls.part (.right .whole)) hr).bind fun d' y hy hd' => ?_
          have hfit := hop y hy
          obtain ⟨rfl, -⟩ := hd'
          exact op.agrees hfit
  | conditional t y n iht ihy ihn =>
      simp only [Fits] at hfits
      rw [eval_conditional, exact]
      refine (iht (hcalls.part (.test .whole)) hfits.1).bind fun d x hx hd => ?_
      obtain ⟨hyes, hno⟩ := hfits.2 x hx
      obtain ⟨rfl, -⟩ := hd
      by_cases hzero : d.value = 0
      · rw [if_pos hzero, if_neg (by simp [holds_eq, hzero])]
        exact ihn (hcalls.part (.no .whole)) (hno hzero)
      · rw [if_neg hzero, if_pos (by simp [holds_eq, hzero])]
        exact ihy (hcalls.part (.yes .whole)) (hyes hzero)
  | call f es ih =>
      simp only [Fits] at hfits
      rw [eval_call, exact]
      have harguments : ∀ e ∈ es, e.Fits method env →
          Agrees Denotes (e.eval method env) (e.exact method (valuesOf env)) := fun e he =>
        ih e he (hcalls.part (.argument he .whole))
      refine (evalList_agrees harguments hfits.1).bind fun ds xs hxs hds => ?_
      have hf := hfits.2 xs hxs
      obtain ⟨hlength, rfl, hds⟩ := hds
      exact f.agrees (hlength ▸ hcalls f es .whole) hds hf

theorem eval_congr (h : ∀ v ∈ e.vars, env v = env' v) :
    e.eval method env = e.eval method env' := by
  induction e using induct with
  | number d => rfl
  | var v => rw [eval, eval, h v (List.mem_singleton_self v)]
  | unary op e ih => rw [eval_unary, eval_unary, ih h]
  | binary op l r ihl ihr =>
      simp only [vars, List.mem_append] at h
      rw [eval_binary, eval_binary, ihl fun v hv => h v (.inl hv), ihr fun v hv => h v (.inr hv)]
  | conditional t y n iht ihy ihn =>
      simp only [vars, List.mem_append] at h
      rw [eval_conditional, eval_conditional, iht fun v hv => h v (.inl (.inl hv)),
        ihy fun v hv => h v (.inl (.inr hv)), ihn fun v hv => h v (.inr hv)]
  | call f es ih =>
      have hlist : evalList method env es = evalList method env' es := by
        simp only [vars, varsOfList_eq, List.mem_flatMap] at h
        clear f
        induction es with
        | nil => rfl
        | cons e es ihes =>
            obtain ⟨he, hes⟩ := List.forall_mem_cons.1 ih
            have hrest : ∀ v, (∃ e' ∈ es, v ∈ e'.vars) → env v = env' v := by
              rintro v ⟨e', he', hv⟩
              exact h v ⟨e', List.mem_cons_of_mem _ he', hv⟩
            rw [evalList_cons, evalList_cons, he fun v hv => h v ⟨e, List.mem_cons_self, hv⟩,
              ihes hes hrest]
      rw [eval_call, eval_call, hlist]

end Expr

theorem subset_separated {ls : List Lexeme} {items : List (List Lexeme)} (h : ls ∈ items) :
    ls ⊆ separated items := by
  obtain _ | ⟨first, items⟩ := items
  · cases h
  · rw [separated_cons]
    rcases List.mem_cons.1 h with rfl | h
    · exact List.subset_append_left _ _
    · intro l hl
      exact List.mem_append_right _ (List.mem_flatMap.2 ⟨ls, h, List.mem_cons_of_mem _ hl⟩)

/-- The tree of some of the lexemes. -/
def Formed (ls : List Lexeme) (t : Expr) : Prop := ∃ n c us, Derives n c us t ∧ us ⊆ ls

theorem Formed.mono {ls ls' : List Lexeme} {t : Expr} (h : Formed ls t) (hls : ls ⊆ ls') :
    Formed ls' t := by
  obtain ⟨n, c, us, hus, hsub⟩ := h
  exact ⟨n, c, us, hus, List.Subset.trans hsub hls⟩

namespace Derives

variable {n : Nat} {c : Category} {ls : List Lexeme} {p t : Expr}

theorem formed (h : Derives n c ls t) : Formed ls t := ⟨n, c, ls, h, List.Subset.refl ls⟩

/-- The parts of a tree are the trees of parts of its text. -/
theorem formed_part (h : Derives n c ls t) (hpart : Expr.Part p t) : Formed ls p := by
  induction h with
  | conditional ht hy hn iht ihy ihn =>
      obtain rfl | hpart | hpart | hpart := Expr.part_conditional.1 hpart
      · exact (conditional ht hy hn).formed
      · exact (iht hpart).mono (List.subset_append_left _ _)
      · exact (ihy hpart).mono fun l hl => by simp [hl]
      · exact (ihn hpart).mono fun l hl => by simp [hl]
  | operation op hop hl hr ihl ihr =>
      obtain rfl | hpart | hpart := Expr.part_binary.1 hpart
      · exact (operation op hop hl hr).formed
      · exact (ihl hpart).mono (List.subset_append_left _ _)
      · exact (ihr hpart).mono fun l hl => List.mem_append_right _ (List.mem_cons_of_mem _ hl)
  | sign op ht ih =>
      obtain rfl | hpart := Expr.part_unary.1 hpart
      · exact (sign op ht).formed
      · exact (ih hpart).mono (List.subset_cons_self _ _)
  | @number d _ _ hread => exact Expr.part_number.1 hpart ▸ (number (d := d) hread).formed
  | @var d v => exact Expr.part_var.1 hpart ▸ (var (d := d) v).formed
  | call g arguments hg hall ih =>
      obtain rfl | ⟨e, he, hpart⟩ := Expr.part_call.1 hpart
      · exact (call g arguments hg hall).formed
      · obtain ⟨a, ha, rfl⟩ := List.mem_map.1 he
        refine (ih a ha hpart).mono fun l hl => ?_
        have hseparated := subset_separated (List.mem_map_of_mem ha) hl
        simp [hseparated]
  | plain _ ih | operand _ ih | unsigned _ ih => exact ih hpart
  | group _ ih => exact (ih hpart).mono (by simp)

theorem accepts {f : Function} {es : List Expr} (h : Derives n c ls (.call f es)) :
    f.accepts es.length := by
  generalize ht : Expr.call f es = t at h
  induction h with
  | call g arguments hg _ _ =>
      cases ht
      rwa [List.length_map]
  | plain _ ih | operand _ ih | unsigned _ ih | group _ ih => exact ih ht
  | _ => cases ht

theorem wellFormed (h : Derives n c ls t) : t.WellFormed := by
  intro f es hpart
  obtain ⟨m, c', us, hus, -⟩ := h.formed_part hpart
  exact hus.accepts

end Derives

theorem wellFormed_of_accept {s : String} {e : Expr} (h : accept s = .ok e) : e.WellFormed := by
  have hparse := mapError_eq_ok.1 h
  unfold parse at hparse
  split at hparse
  · cases hparse
  · exact (Parser.derives_of_tree hparse).wellFormed

namespace Reading

variable {reading : Reading} {v : Variable} {vs : List Variable}

theorem value?_eq_some : reading.value? v = some d ↔ reading.number v = .ok d := by
  rw [value?]
  cases reading.number v <;> simp [Except.toOption]

theorem ofFields_answers (fields : Fields) (v : Variable) : ∃ o, ofFields fields v = .ok o := by
  rw [ofFields]
  split <;> exact ⟨_, rfl⟩

/-- With a number for every variable, the values that are looked up are those of the context. -/
theorem numbers_of_values (h : ∀ v ∈ vs, reading.value? v ≠ none) :
    ∃ ds, reading.numbers vs = .ok ds ∧ ∀ v ∈ vs, valueIn ds v = reading.value? v := by
  induction vs with
  | nil => exact ⟨[], rfl, fun _ hv => nomatch hv⟩
  | cons w ws ih =>
      obtain ⟨hw, hws⟩ := List.forall_mem_cons.1 h
      obtain ⟨d, hd⟩ := Option.ne_none_iff_exists'.1 hw
      obtain ⟨ds, hds, hvalues⟩ := ih hws
      refine ⟨(w, d) :: ds, ?_, fun v hv => ?_⟩
      · rw [numbers, value?_eq_some.1 hd, hds]
      · rw [valueIn, List.find?_cons]
        by_cases hwv : w = v
        · subst hwv
          simp [hd]
        · simp only [beq_eq_false_iff_ne.2 hwv]
          exact hvalues v ((List.mem_cons.1 hv).resolve_left (Ne.symm hwv))

/-- A variable without a number is a failure of the evaluation. -/
theorem numbers_of_missing (hreads : ∀ v, ∃ o, reading v = .ok o)
    (h : ∃ v ∈ vs, reading.value? v = none) :
    ∃ f, reading.numbers vs = .error f ∧ f.kind = .evaluation := by
  have hfault {w : Variable} {f : Fault} (hf : reading.number w = .error f) :
      f.kind = .evaluation := by
    obtain ⟨o, ho⟩ := hreads w
    simp only [number, ho] at hf
    split at hf
    · next heq => cases heq
    · cases hf
      rfl
    · split at hf <;> cases hf
      rfl
  induction vs with
  | nil =>
      obtain ⟨v, hv, -⟩ := h
      cases hv
  | cons w ws ih =>
      rw [numbers]
      cases hw : reading.number w with
      | error f => exact ⟨f, rfl, hfault hw⟩
      | ok d =>
          obtain ⟨v, hv, hnone⟩ := h
          have hws : v ∈ ws := by
            refine (List.mem_cons.1 hv).resolve_left fun hvw => ?_
            rw [hvw, value?_eq_some.2 hw] at hnone
            cases hnone
          obtain ⟨f, hf, hkind⟩ := ih ⟨v, hws, hnone⟩
          rw [hf]
          exact ⟨f, rfl, hkind⟩

end Reading

theorem asEvaluation_eq_self {f : Fault} (h : f.kind = .evaluation) : asEvaluation f = f := by
  cases f <;> first | rfl | cases h

theorem Agrees.asEvaluation {α β : Type} {P : α → β → Prop} {r : Except Fault α} {o : Option β}
    (h : Agrees P r o) : Agrees P (r.mapError asEvaluation) o := by
  cases o with
  | some b =>
      obtain ⟨a, rfl, hab⟩ := h
      exact ⟨a, rfl, hab⟩
  | none =>
      obtain ⟨f, rfl, hf⟩ := h
      exact ⟨f, congrArg _ (asEvaluation_eq_self hf), hf⟩

/-- A formula has an exact value if every variable that occurs in it has a number, also one that the
evaluation does not come to; without a number the evaluation fails. With numbers for all of them and
everything on the path within the limits of formula arithmetic, the evaluation gives a decimal of
that value, and fails where the value is undefined. -/
theorem evaluate_exact {s : String} {e : Expr} {reading : Reading} (he : accept s = .ok e)
    (hreads : ∀ v, ∃ o, reading v = .ok o) :
    ((∃ v ∈ e.vars, reading.value? v = none) →
      ∃ f, evaluate method reading s = .error f ∧ f.kind = .evaluation) ∧
    ((∀ v ∈ e.vars, reading.value? v ≠ none) → e.Fits method reading.value? →
      (∀ x, e.exact method (valuesOf reading.value?) = some x ↔
        ∃ d, evaluate method reading s = .ok d ∧ d.value = x) ∧
      (e.exact method (valuesOf reading.value?) = none ↔
        ∃ f, evaluate method reading s = .error f ∧ f.kind = .evaluation)) := by
  have htree : evaluate method reading s = evaluateTree method reading e := by
    rw [evaluate, he]
    rfl
  rw [htree, evaluateTree]
  constructor
  · rintro ⟨v, hv, hnone⟩
    obtain ⟨f, hf, hkind⟩ :=
      Reading.numbers_of_missing hreads ⟨v, List.mem_eraseDups.2 hv, hnone⟩
    rw [hf]
    exact ⟨f, rfl, hkind⟩
  · intro hset hfits
    have hset' : ∀ v ∈ e.vars.eraseDups, reading.value? v ≠ none := fun v hv =>
      hset v (List.mem_eraseDups.1 hv)
    obtain ⟨ds, hds, hvalues⟩ := Reading.numbers_of_values hset'
    have hagrees := (Expr.eval_agrees (wellFormed_of_accept he) hfits).asEvaluation
    rw [hds]
    simp only [Expr.eval_congr fun v hv => hvalues v (List.mem_eraseDups.2 hv)]
    cases hx : e.exact method (valuesOf reading.value?) with
    | some x =>
        rw [hx] at hagrees
        obtain ⟨d, hd, hdx⟩ := hagrees
        rw [hd]
        refine ⟨fun y => ?_, by simp⟩
        simp [hdx.value_eq]
    | none =>
        rw [hx] at hagrees
        obtain ⟨f, hf, hkind⟩ := hagrees
        rw [hf]
        exact ⟨by simp, by simp [hkind]⟩

theorem denotes_digit (n : Nat) (h : n < 10) : Denotes (OfNat.ofNat n) n :=
  ⟨(Decimal.value_mk n 0).trans (by simp),
    heldDecimal_of_lt (h.trans (by decide)) (by decide) (by decide)⟩

/-! A quotient that is computed only where it is defined -/

def guardedTree : Expr :=
  .conditional (.binary .greater (.var .custom1) (.number 0))
    (.binary .div (.var .custom1) (.number 8)) (.binary .div (.number 0) (.number 0))

theorem accept_guarded : accept "custom1 > 0 ? custom1 / 8 : 0 / 0" = .ok guardedTree := by
  have htokens : Token.tokens "custom1 > 0 ? custom1 / 8 : 0 / 0".toList = .ok
      [⟨.word "custom1".toList, 0⟩, ⟨.operator .greater, 8⟩, ⟨.number ['0'], 10⟩, ⟨.question, 12⟩,
        ⟨.word "custom1".toList, 14⟩, ⟨.operator .divide, 22⟩, ⟨.number ['8'], 24⟩, ⟨.colon, 26⟩,
        ⟨.number ['0'], 28⟩, ⟨.operator .divide, 30⟩, ⟨.number ['0'], 32⟩] := by
    cbv
  have hvar (d : Nat) := Derives.var (d := d) .custom1
  have hzero (d : Nat) : Derives d .primary [.number ['0']] (.number 0) := .number (by decide +kernel)
  have height : Derives 30 .primary [.number ['8']] (.number 8) := .number (by decide +kernel)
  have htest := Derives.operation .greater rfl
    (.operand (l := .comparison) (hvar 31).term) (hzero 31).term
  have hyes := Derives.operation .div rfl (hvar 30).factor height.unsigned
  have hno := Derives.operation .div rfl (hzero 30).factor (hzero 30).unsigned
  exact (accept_eq_ok htokens).2 (.conditional htest.loosen (.plain hyes.loosen) (.plain hno.loosen))

theorem evaluate_guarded :
    accept "custom1 > 0 ? custom1 / 8 : 0 / 0" = .ok guardedTree ∧
    (Reading.ofFields [("custom1", .int 1)]).value? .custom1 = some 1 ∧
    guardedTree.Fits .round (Reading.ofFields [("custom1", .int 1)]).value? ∧
    guardedTree.exact .round (valuesOf (Reading.ofFields [("custom1", .int 1)]).value?) =
      some (1 / 8) ∧
    ∃ d, evaluate .round (.ofFields [("custom1", .int 1)]) "custom1 > 0 ? custom1 / 8 : 0 / 0" =
      .ok d ∧ d.value = 1 / 8 := by
  have hset : (Reading.ofFields [("custom1", .int 1)]).value? .custom1 = some 1 := by
    decide +kernel
  have hvars : ∀ v ∈ guardedTree.vars, v = .custom1 := by decide
  have hzero : Denotes 0 0 := by simpa using denotes_digit 0 (by decide)
  have hone : Denotes 1 1 := by simpa using denotes_digit 1 (by decide)
  have height : Denotes 8 8 := by simpa using denotes_digit 8 (by decide)
  have heighth : Held 8⁻¹ := by
    have h : HeldDecimal ⟨false, 125, -3⟩ := heldDecimal_of_lt (by decide) (by decide) (by decide)
    have hvalue : (⟨false, 125, -3⟩ : Decimal).value = 8⁻¹ :=
      (Decimal.value_mk 125 (-3)).trans (by norm_num)
    exact hvalue ▸ h.1
  have hflag : Held 1 := hone.value_eq ▸ hone.held.1
  have hfits : guardedTree.Fits .round (Reading.ofFields [("custom1", .int 1)]).value? := by
    simp [guardedTree, Expr.Fits, Expr.exact, hset, valuesOf, hone.value_eq, hzero.value_eq,
      height.value_eq, BinaryOp.shortcut, BinaryOp.Fits, BinaryOp.exact, truth, hflag, hone.held,
      hzero.held, height.held, heighth]
  have hexact : guardedTree.exact .round
      (valuesOf (Reading.ofFields [("custom1", .int 1)]).value?) = some (1 / 8) := by
    simp [guardedTree, Expr.exact, hset, valuesOf, hone.value_eq, hzero.value_eq, height.value_eq,
      BinaryOp.shortcut, BinaryOp.exact, truth]
  obtain ⟨-, h⟩ := @evaluate_exact .round _ _ _ accept_guarded (Reading.ofFields_answers _)
  obtain ⟨hvalue, -⟩ := h (fun v hv => by simp [hvars v hv, hset]) hfits
  exact ⟨accept_guarded, hset, hfits, hexact, (hvalue _).1 hexact⟩

/-- A variable that the evaluation would not come to makes it fail if it has no number. -/
theorem evaluate_untaken :
    accept "1 ? 2 : custom1" = .ok (.conditional (.number 1) (.number 2) (.var .custom1)) ∧
    Expr.Fits .round (Reading.ofFields []).value?
      (.conditional (.number 1) (.number 2) (.var .custom1)) ∧
    Expr.exact .round (valuesOf (Reading.ofFields []).value?)
      (.conditional (.number 1) (.number 2) (.var .custom1)) = some 2 ∧
    evaluate .round (.ofFields []) "1 ? 2 : custom1" = .error (.variableNotSet "custom1") := by
  have htokens : Token.tokens "1 ? 2 : custom1".toList = .ok
      [⟨.number ['1'], 0⟩, ⟨.question, 2⟩, ⟨.number ['2'], 4⟩, ⟨.colon, 6⟩,
        ⟨.word "custom1".toList, 8⟩] := by
    cbv
  have hone : Derives 31 .primary [.number ['1']] (.number 1) := .number (by decide +kernel)
  have htwo : Derives 30 .primary [.number ['2']] (.number 2) := .number (by decide +kernel)
  have htree := (accept_eq_ok htokens).2 (.conditional hone.term.loosen (.plain htwo.term.loosen)
    (.plain (Derives.var .custom1).term.loosen))
  have hone' : Denotes 1 1 := by simpa using denotes_digit 1 (by decide)
  have htwo' : Denotes 2 2 := by simpa using denotes_digit 2 (by decide)
  refine ⟨htree, ?_, ?_, ?_⟩
  · simp [Expr.Fits, Expr.exact, hone'.value_eq, hone'.held, htwo'.held]
  · simp [Expr.exact, hone'.value_eq, htwo'.value_eq]
  · rw [evaluate, htree]
    rfl

end Formula

end Payroll
