import Mathlib
import Payroll.Formula.Expr
import Payroll.Formula.Token

/-!
The grammar of formulas, as a relation between the lexemes of a text and the tree that they have.
-/

namespace Payroll.Formula

/-- The levels of binary operators, from the loosest to the tightest. -/
inductive Level
  | disjunction
  | conjunction
  | equality
  | comparison
  | additive
  | multiplicative
  deriving DecidableEq, Repr

inductive Category
  | expression
  | level (l : Level)
  | unary
  | primary
  deriving DecidableEq, Repr

/-- What the operands on a level are made of. -/
def Level.tighter : Level → Category
  | .disjunction => .level .conjunction
  | .conjunction => .level .equality
  | .equality => .level .comparison
  | .comparison => .level .additive
  | .additive => .level .multiplicative
  | .multiplicative => .unary

namespace BinaryOp

def level : BinaryOp → Level
  | .or => .disjunction
  | .and => .conjunction
  | .equal | .notEqual => .equality
  | .less | .atMost | .greater | .atLeast => .comparison
  | .add | .sub => .additive
  | .mul | .div | .rem => .multiplicative

def operator : BinaryOp → Operator
  | .or => .or
  | .and => .and
  | .equal => .equal
  | .notEqual => .notEqual
  | .less => .less
  | .atMost => .atMost
  | .greater => .greater
  | .atLeast => .atLeast
  | .add => .plus
  | .sub => .minus
  | .mul => .times
  | .div => .divide
  | .rem => .remainder

end BinaryOp

def UnaryOp.operator : UnaryOp → Operator
  | .minus => .minus
  | .plus => .plus
  | .not => .not

def separated (items : List (List Lexeme)) : List Lexeme := [Lexeme.comma].intercalate items

/-- Lexemes that form a tree with at most so many expressions and signs open at once. -/
inductive Derives : Nat → Category → List Lexeme → Expr → Prop
  | conditional {d ts us vs test yes no} :
      Derives d (.level .disjunction) ts test → Derives d .expression us yes →
      Derives d .expression vs no →
      Derives (d + 1) .expression (ts ++ .question :: (us ++ .colon :: vs))
        (.conditional test yes no)
  | plain {d ts t} : Derives d (.level .disjunction) ts t → Derives (d + 1) .expression ts t
  | operation {d l ts us left right} (op : BinaryOp) (level_eq : op.level = l) :
      Derives d (.level l) ts left → Derives d l.tighter us right →
      Derives d (.level l) (ts ++ .operator op.operator :: us) (.binary op left right)
  | operand {d l ts t} : Derives d l.tighter ts t → Derives d (.level l) ts t
  | sign {d ts t} (op : UnaryOp) : Derives d .unary ts t →
      Derives (d + 1) .unary (.operator op.operator :: ts) (.unary op t)
  | unsigned {d ts t} : Derives d .primary ts t → Derives d .unary ts t
  | number {d text x} : Decimal.read text = some (.finite x) →
      Derives d .primary [.number text] (.number x)
  | var {d} (v : Variable) : Derives d .primary [.word v.name.toList] (.var v)
  | call {d} (f : Function) (arguments : List (List Lexeme × Expr)) :
      f.accepts arguments.length → (∀ a ∈ arguments, Derives d .expression a.1 a.2) →
      Derives d .primary
        (.word f.name.toList :: .opening :: (separated (arguments.map (·.1)) ++ [.closing]))
        (.call f (arguments.map (·.2)))
  | group {d ts t} : Derives d .expression ts t →
      Derives d .primary (.opening :: (ts ++ [.closing])) t

def wordIf (taken : Bool) (w : List Char) : List String := if taken then [String.ofList w] else []

/-- The words that have an opening parenthesis after them, or those that have none. -/
def words (called : Bool) : List Lexeme → List String
  | [] => []
  | .word w :: .opening :: ls => wordIf called w ++ words called ls
  | .word w :: ls => wordIf (!called) w ++ words called ls
  | _ :: ls => words called ls

namespace Expr

/-- The parts of a tree, itself among them. -/
inductive Part : Expr → Expr → Prop
  | whole {e} : Part e e
  | operand {p op e} : Part p e → Part p (.unary op e)
  | left {p op l r} : Part p l → Part p (.binary op l r)
  | right {p op l r} : Part p r → Part p (.binary op l r)
  | test {p t y n} : Part p t → Part p (.conditional t y n)
  | yes {p t y n} : Part p y → Part p (.conditional t y n)
  | no {p t y n} : Part p n → Part p (.conditional t y n)
  | argument {p f es e} : e ∈ es → Part p e → Part p (.call f es)

section Part

variable {p e l r t y n : Expr} {op : UnaryOp} {op' : BinaryOp} {f : Function} {es : List Expr}

@[simp] theorem part_number {d : Decimal} : Part p (.number d) ↔ p = .number d :=
  ⟨fun h => by cases h; rfl, fun h => h ▸ .whole⟩

@[simp] theorem part_var {v : Variable} : Part p (.var v) ↔ p = .var v :=
  ⟨fun h => by cases h; rfl, fun h => h ▸ .whole⟩

@[simp] theorem part_unary : Part p (.unary op e) ↔ p = .unary op e ∨ Part p e := by
  constructor
  · intro h
    cases h with
    | whole => exact .inl rfl
    | operand h => exact .inr h
  · rintro (rfl | h)
    · exact .whole
    · exact .operand h

@[simp] theorem part_binary :
    Part p (.binary op' l r) ↔ p = .binary op' l r ∨ Part p l ∨ Part p r := by
  constructor
  · intro h
    cases h with
    | whole => exact .inl rfl
    | left h => exact .inr (.inl h)
    | right h => exact .inr (.inr h)
  · rintro (rfl | h | h)
    · exact .whole
    · exact .left h
    · exact .right h

@[simp] theorem part_conditional :
    Part p (.conditional t y n) ↔ p = .conditional t y n ∨ Part p t ∨ Part p y ∨ Part p n := by
  constructor
  · intro h
    cases h with
    | whole => exact .inl rfl
    | test h => exact .inr (.inl h)
    | yes h => exact .inr (.inr (.inl h))
    | no h => exact .inr (.inr (.inr h))
  · rintro (rfl | h | h | h)
    · exact .whole
    · exact .test h
    · exact .yes h
    · exact .no h

@[simp] theorem part_call : Part p (.call f es) ↔ p = .call f es ∨ ∃ e ∈ es, Part p e := by
  constructor
  · intro h
    cases h with
    | whole => exact .inl rfl
    | argument he h => exact .inr ⟨_, he, h⟩
  · rintro (rfl | ⟨e, he, h⟩)
    · exact .whole
    · exact .argument he h

end Part

/-- Induction over trees, with all arguments of a call at once. -/
@[elab_as_elim] theorem induct {P : Expr → Prop} (number : ∀ d, P (.number d))
    (var : ∀ v, P (.var v)) (unary : ∀ op e, P e → P (.unary op e))
    (binary : ∀ op l r, P l → P r → P (.binary op l r))
    (conditional : ∀ t y n, P t → P y → P n → P (.conditional t y n))
    (call : ∀ f es, (∀ e ∈ es, P e) → P (.call f es)) (e : Expr) : P e :=
  @Expr.rec P (fun es => ∀ e ∈ es, P e) number var unary binary conditional call
    (fun _ he => nomatch he) (fun _ _ he hes => List.forall_mem_cons.2 ⟨he, hes⟩) e

theorem varsOfList_eq (es : List Expr) : varsOfList es = es.flatMap vars := by
  induction es with
  | nil => rfl
  | cons e es ih => rw [varsOfList, ih, List.flatMap_cons]

theorem functionsOfList_eq (es : List Expr) : functionsOfList es = es.flatMap functions := by
  induction es with
  | nil => rfl
  | cons e es ih => rw [functionsOfList, ih, List.flatMap_cons]

theorem mem_vars {v : Variable} {e : Expr} : v ∈ e.vars ↔ Part (.var v) e := by
  induction e using induct with
  | number => simp [vars]
  | var => simp [vars]
  | unary _ _ ih => simp [vars, ih]
  | binary _ _ _ ihl ihr => simp [vars, ihl, ihr]
  | conditional _ _ _ iht ihy ihn => simp [vars, iht, ihy, ihn]
  | call f es ih =>
      rw [vars, varsOfList_eq, List.mem_flatMap, part_call]
      simpa using exists_congr fun e => and_congr_right (ih e)

theorem mem_functions {f : Function} {e : Expr} :
    f ∈ e.functions ↔ ∃ es, Part (.call f es) e := by
  induction e using induct with
  | number => simp [functions]
  | var => simp [functions]
  | unary _ _ ih => simp [functions, ih]
  | binary _ _ _ ihl ihr => simp [functions, ihl, ihr, exists_or]
  | conditional _ _ _ iht ihy ihn => simp [functions, iht, ihy, ihn, exists_or]
  | call g es ih =>
      rw [functions, functionsOfList_eq, List.mem_cons, List.mem_flatMap]
      simp only [part_call, call.injEq, exists_or]
      refine or_congr (by simp) ?_
      rw [exists_comm]
      simpa using exists_congr fun e => and_congr_right (ih e)

end Expr

end Payroll.Formula
