import Mathlib
import Payroll.Formula.Evaluate
import Payroll.Proofs.GrammarParsing
import Payroll.Proofs.GrammarRejections

/-!
Which formulas are accepted: those whose tokens derive a tree of the grammar. All others are
rejected, and the names of the tree are the words of the text.
-/

namespace Payroll.Formula

open Result

/-! Names in the tokens and in the tree -/

section Words

variable {ls ls' : List Lexeme} {x : Lexeme} {called : Bool}

theorem words_append (hx : x ≠ .opening) :
    words called (ls ++ x :: ls') = words called ls ++ words called (x :: ls') := by
  fun_induction words called ls with
  | case1 => rfl
  | case2 w ls ih => simp [words, ih]
  | case3 w ls hls ih =>
      cases ls with
      | nil => simp [words, hx]
      | cons y ls =>
          have hy : y ≠ .opening := fun h => hls ls (h ▸ rfl)
          simpa [words, hy] using ih
  | case4 y ls _ hy ih =>
      have hstep (ls : List Lexeme) : words called (y :: ls) = words called ls := by
        cases y <;> first | rfl | exact absurd rfl (hy _)
      rw [List.cons_append, hstep]
      exact ih

theorem words_closing : words called (ls ++ [.closing]) = words called ls := by
  rw [words_append (by decide)]
  simp [words]

theorem words_items (items : List (List Lexeme)) :
    words called (ls ++ items.flatMap (Lexeme.comma :: ·)) =
      words called ls ++ items.flatMap (words called) := by
  induction items generalizing ls with
  | nil => simp
  | cons ls' items ih =>
      rw [List.flatMap_cons, List.cons_append, words_append (by decide), List.flatMap_cons]
      simp [words, ih]

theorem words_separated (items : List (List Lexeme)) :
    words called (separated items) = items.flatMap (words called) := by
  cases items with
  | nil => rfl
  | cons ls items => rw [separated_cons, words_items, List.flatMap_cons]

end Words

/-- The names in a tree are the words that it was derived from. -/
theorem Derives.words_eq {d : Nat} {c : Category} {ls : List Lexeme} {t : Expr}
    (h : Derives d c ls t) :
    words false ls = t.vars.map (·.name) ∧ words true ls = t.functions.map (·.name) := by
  induction h with
  | conditional _ _ _ iht ihy ihn =>
      have happend (b : Bool) (ls us vs : List Lexeme) :
          words b (ls ++ .question :: (us ++ .colon :: vs)) =
            words b ls ++ (words b us ++ words b vs) := by
        rw [words_append (by decide), words, words_append (by decide), words] <;> simp
      simp [happend, iht, ihy, ihn, Expr.vars, Expr.functions]
  | plain _ ih | operand _ ih | unsigned _ ih => exact ih
  | operation op _ _ _ ihl ihr =>
      have happend (b : Bool) (ls us : List Lexeme) :
          words b (ls ++ .operator op.operator :: us) = words b ls ++ words b us := by
        rw [words_append (x := .operator op.operator) (by simp), words] <;> simp
      simp [happend, ihl, ihr, Expr.vars, Expr.functions]
  | sign op _ ih => exact ih
  | number => exact ⟨rfl, rfl⟩
  | var v => simp [words, wordIf, Expr.vars, Expr.functions]
  | call f items _ _ ih =>
      have hvars : items.flatMap (fun a => words false a.1) =
          items.flatMap (fun a => a.2.vars.map (·.name)) :=
        List.flatMap_congr fun a ha => (ih a ha).1
      have hfunctions : items.flatMap (fun a => words true a.1) =
          items.flatMap (fun a => a.2.functions.map (·.name)) :=
        List.flatMap_congr fun a ha => (ih a ha).2
      simp only [words, words_closing, words_separated, List.flatMap_map, hvars, hfunctions,
        Expr.vars, Expr.functions, Expr.varsOfList_eq, Expr.functionsOfList_eq]
      simp [wordIf, List.map_flatMap]
  | group _ ih => simpa [words, words_closing] using ih

/-- Tokens whose numbers can all be read. -/
def Legible (ts : List Token) : Prop :=
  ∀ text p, ⟨.number text, p⟩ ∈ ts → ∃ x, Decimal.read text = some (.finite x)

namespace Parser

variable {stop : Nat} {ts : List Token}

theorem rejected_of_tree {r : Rejection} (hts : Legible ts) (h : tree stop ts = .error r) :
    Fault.ofRejection r = .rejected [r] := by
  have hq : Accounts stop
      (fun t => ∀ text, t.lexeme = .number text → ∃ x, Decimal.read text = some (.finite x))
      (fun r => Fault.ofRejection r = .rejected [r]) := {
    tooDeep := rfl
    expected := fun _ _ _ => rfl
    unexpected := fun _ _ => rfl
    trailing := fun _ _ => rfl
    notCalled := fun _ _ _ _ => rfl
    unknownVariable := fun _ _ _ _ _ => rfl
    unknownFunction := fun _ _ _ _ => rfl
    arity := fun _ _ _ => rfl
    unreadableNumber := fun text _ htext hread => by
      obtain ⟨x, hx⟩ := htext text rfl
      exact absurd hx (hread x) }
  refine rejection_of_tree hq (fun t ht text hlexeme => hts text t.position ?_) h
  rw [← hlexeme]
  exact ht

end Parser

/-- A text with legible tokens is accepted with the tree that the grammar derives from them, which
no other derivation has, and is rejected if there is none. The variables and functions of the tree
are those that occur in it, and the words among the tokens. -/
theorem accept_iff_derives {s : String} {ts : List Token} (h : Token.tokens s.toList = .ok ts)
    (hts : Legible ts) :
    (∀ e, accept s = .ok e ↔ Derives maxDepth .expression (lexemes ts) e) ∧
    ((¬∃ e, Derives maxDepth .expression (lexemes ts) e) →
      ∃ r, accept s = .error (.rejected [r])) ∧
    (∀ d d' e e', Derives d .expression (lexemes ts) e → Derives d' .expression (lexemes ts) e' →
      e = e') ∧
    ∀ e, accept s = .ok e →
      (∀ v, v ∈ e.vars ↔ Expr.Part (.var v) e) ∧ (∀ f, f ∈ e.functions ↔ ∃ es, Expr.Part (.call f es) e) ∧
      words false (lexemes ts) = e.vars.map (·.name) ∧
      words true (lexemes ts) = e.functions.map (·.name) := by
  have haccept : accept s = (Parser.tree s.length ts).mapError Fault.ofRejection := by
    rw [accept, parse, h]
  have hiff (e : Expr) : accept s = .ok e ↔ Derives maxDepth .expression (lexemes ts) e :=
    accept_eq_ok h
  refine ⟨hiff, fun hnone => ?_, fun _ _ _ _ => Derives.unique, fun e he => ?_⟩
  · cases htree : Parser.tree s.length ts with
    | ok e => exact absurd ⟨e, Parser.tree_eq_ok.1 htree⟩ hnone
    | error r =>
        rw [haccept, htree]
        exact ⟨r, congrArg _ (Parser.rejected_of_tree hts htree)⟩
  · exact ⟨fun _ => Expr.mem_vars, fun _ => Expr.mem_functions, ((hiff e).1 he).words_eq⟩

/-! A difference of three terms, grouped to the left -/

def bonusTokens : List Token :=
  [⟨.word "custom1".toList, 0⟩, ⟨.operator .minus, 8⟩, ⟨.number ['2'], 10⟩, ⟨.operator .minus, 12⟩,
    ⟨.word "abs".toList, 14⟩, ⟨.opening, 17⟩, ⟨.operator .minus, 18⟩,
    ⟨.word "seniority".toList, 19⟩, ⟨.closing, 28⟩]

def bonusTree : Expr :=
  .binary .sub (.binary .sub (.var .custom1) (.number 2)) (.call .abs [.unary .minus (.var .seniority)])

theorem tokens_bonus : Token.tokens "custom1 - 2 - abs(-seniority)".toList = .ok bonusTokens := by
  cbv

theorem legible_bonus : Legible bonusTokens := by
  intro text p h
  simp only [bonusTokens, List.mem_cons, Token.mk.injEq, reduceCtorEq, Lexeme.number.injEq,
    List.not_mem_nil, false_and, or_false, false_or] at h
  rw [h.1]
  exact ⟨2, by decide +kernel⟩

theorem derives_bonus : Derives maxDepth .expression (lexemes bonusTokens) bonusTree := by
  have htwo : Derives 31 .primary [.number ['2']] (.number 2) := .number (by decide +kernel)
  have hsign : Derives 30 .unary [.operator .minus, .word "seniority".toList]
      (.unary .minus (.var .seniority)) := .sign .minus (.unsigned (.var .seniority))
  have hargument := (Derives.operand (l := .multiplicative) hsign).loosen
  have hcall := Derives.call .abs [(_, _)] rfl (List.forall_mem_singleton.2 (.plain hargument))
  have hleft := Derives.operation .sub rfl (Derives.var .custom1).term htwo.factor
  exact .plain (Derives.operation .sub rfl hleft hcall.factor).loosen

theorem bonus_accepted : Token.tokens "custom1 - 2 - abs(-seniority)".toList = .ok bonusTokens ∧
    Legible bonusTokens ∧ accept "custom1 - 2 - abs(-seniority)" = .ok bonusTree ∧
    words false (lexemes bonusTokens) = ["custom1", "seniority"] ∧
    words true (lexemes bonusTokens) = ["abs"] := by
  obtain ⟨hiff, -, -, hwords⟩ := accept_iff_derives tokens_bonus legible_bonus
  have haccept := (hiff bonusTree).2 derives_bonus
  obtain ⟨-, -, hplain, hcalled⟩ := hwords _ haccept
  exact ⟨tokens_bonus, legible_bonus, haccept, hplain, hcalled⟩

end Payroll.Formula
