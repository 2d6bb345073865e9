import Mathlib
import Payroll.Formula.Grammar
import Payroll.Formula.Parser
import Payroll.Proofs.Results

/-!
What a parser reads belongs to the grammar: every tree that comes out of it is derived from the
tokens that it has taken.
-/

namespace Payroll.Formula

open Result

def lexemes (ts : List Token) : List Lexeme := ts.map (·.lexeme)

@[simp] theorem lexemes_nil : lexemes [] = [] := rfl

@[simp] theorem lexemes_cons (t : Token) (ts : List Token) :
    lexemes (t :: ts) = t.lexeme :: lexemes ts := rfl

@[simp] theorem lexemes_append (ts us : List Token) :
    lexemes (ts ++ us) = lexemes ts ++ lexemes us := List.map_append

theorem separated_cons (ls : List Lexeme) (items : List (List Lexeme)) :
    separated (ls :: items) = ls ++ items.flatMap (Lexeme.comma :: ·) := by
  induction items generalizing ls with
  | nil => simp [separated, List.intercalate]
  | cons ls' items ih =>
      have hstep : separated (ls :: ls' :: items) = ls ++ .comma :: separated (ls' :: items) := by
        simp [separated, List.intercalate]
      rw [hstep, ih, List.flatMap_cons, List.cons_append]

theorem Function.ofName?_eq_some {s : String} {f : Function} :
    ofName? s = some f ↔ f.name = s := by
  constructor
  · intro h
    simpa using List.find?_some h
  · rintro rfl
    cases f <;> decide

theorem Variable.ofName?_eq_some {s : String} {v : Variable} :
    ofName? s = some v ↔ v.name = s := by
  constructor
  · intro h
    simpa using List.find?_some h
  · rintro rfl
    cases v <;> decide

/-- No variable has the name of a function. -/
theorem Function.ofName?_variable (v : Variable) : ofName? v.name = none := by
  cases v <;> decide

namespace Level

/-- The operators that a parser looks for on a level. -/
def find? : Level → Operator → Option BinaryOp
  | disjunction => Parser.disjunction?
  | conjunction => Parser.conjunction?
  | equality => Parser.equality?
  | comparison => Parser.comparison?
  | additive => Parser.additive?
  | multiplicative => Parser.multiplicative?

theorem find?_eq_some {l : Level} {o : Operator} {op : BinaryOp} :
    l.find? o = some op ↔ op.level = l ∧ op.operator = o := by
  constructor
  · intro h
    cases l <;> cases o <;> cases h <;> exact ⟨rfl, rfl⟩
  · rintro ⟨rfl, rfl⟩
    cases op <;> rfl

end Level

theorem sign?_eq_some {o : Operator} {op : UnaryOp} :
    Parser.sign? o = some op ↔ op.operator = o := by
  constructor
  · intro h
    cases o <;> cases h <;> rfl
  · rintro rfl
    cases op <;> rfl

namespace Derives

variable {d d' : Nat} {c : Category} {ls : List Lexeme} {t : Expr}

theorem mono (h : Derives d c ls t) (hd : d ≤ d') : Derives d' c ls t := by
  induction h generalizing d' with
  | conditional _ _ _ ih ihy ihn =>
      obtain _ | d' := d'
      · omega
      · have hd := Nat.le_of_succ_le_succ hd
        exact .conditional (ih hd) (ihy hd) (ihn hd)
  | plain _ ih =>
      obtain _ | d' := d'
      · omega
      · exact .plain (ih (Nat.le_of_succ_le_succ hd))
  | operation op hl _ _ ihl ihr => exact .operation op hl (ihl hd) (ihr hd)
  | operand _ ih => exact .operand (ih hd)
  | sign op _ ih =>
      obtain _ | d' := d'
      · omega
      · exact .sign op (ih (Nat.le_of_succ_le_succ hd))
  | unsigned _ ih => exact .unsigned (ih hd)
  | number h => exact .number h
  | var v => exact .var v
  | call f arguments hf _ ih => exact .call f arguments hf fun a ha => ih a ha hd
  | group _ ih => exact .group (ih hd)

/-- What stands on a level stands on every looser one. -/
theorem loosen {l : Level} (h : Derives d (.level l) ls t) : Derives d (.level .disjunction) ls t := by
  have hequality {ls : List Lexeme} {t : Expr} (h : Derives d (.level .equality) ls t) :
      Derives d (.level .disjunction) ls t :=
    .operand (l := .disjunction) (.operand (l := .conjunction) h)
  have hadditive {ls : List Lexeme} {t : Expr} (h : Derives d (.level .additive) ls t) :
      Derives d (.level .disjunction) ls t :=
    hequality (.operand (l := .equality) (.operand (l := .comparison) h))
  cases l with
  | disjunction => exact h
  | conjunction => exact .operand (l := .disjunction) h
  | equality => exact hequality h
  | comparison => exact hequality (.operand (l := .equality) h)
  | additive => exact hadditive h
  | multiplicative => exact hadditive (.operand (l := .additive) h)

theorem factor (h : Derives d .primary ls t) : Derives d (.level .multiplicative) ls t :=
  .operand (l := .multiplicative) (.unsigned h)

theorem term (h : Derives d .primary ls t) : Derives d (.level .additive) ls t :=
  .operand (l := .additive) h.factor

end Derives

namespace Parser

variable {d stop : Nat} {c : Category} {l : Level} {operand inner deeper : Parser Expr}
  {t left : Expr} {ts rest : List Token} {ls : List Lexeme}

/-- What the parser takes of a token list derives the tree that it gives. -/
def Reads (p : Parser Expr) (d : Nat) (c : Category) : Prop :=
  ∀ ts t rest, p ts = .ok (t, rest) →
    ∃ taken, ts = taken ++ rest ∧ Derives d c (lexemes taken) t

theorem reads_chain (hp : Reads operand d l.tighter) {fuel : Nat}
    (hleft : Derives d (.level l) ls left)
    (h : chain l.find? operand fuel left ts = .ok (t, rest)) :
    ∃ taken, ts = taken ++ rest ∧ Derives d (.level l) (ls ++ lexemes taken) t := by
  induction fuel generalizing left ls ts with
  | zero =>
      cases h
      exact ⟨[], rfl, by simpa using hleft⟩
  | succ fuel ih =>
      have hstop : left = t ∧ ts = rest →
          ∃ taken, ts = taken ++ rest ∧ Derives d (.level l) (ls ++ lexemes taken) t := by
        rintro ⟨rfl, rfl⟩
        exact ⟨[], rfl, by simpa using hleft⟩
      unfold chain at h
      split at h
      · next o p after =>
        split at h
        · next op hop =>
          obtain ⟨hlevel, rfl⟩ := Level.find?_eq_some.1 hop
          split at h
          · next right after' hright =>
            obtain ⟨taken, rfl, htaken⟩ := hp _ _ _ hright
            obtain ⟨more, rfl, hmore⟩ := ih (.operation op hlevel hleft htaken) h
            exact ⟨⟨.operator op.operator, p⟩ :: (taken ++ more), by simp, by simpa using hmore⟩
          · cases h
        · cases h
          exact hstop ⟨rfl, rfl⟩
      · cases h
        exact hstop ⟨rfl, rfl⟩

theorem reads_level (hp : Reads operand d l.tighter) :
    Reads (level l.find? operand) d (.level l) := by
  intro ts t rest h
  unfold level at h
  split at h
  · next left after hleft =>
    obtain ⟨taken, rfl, htaken⟩ := hp _ _ _ hleft
    obtain ⟨more, rfl, hmore⟩ := reads_chain hp (.operand htaken) h
    exact ⟨taken ++ more, by simp, by simpa using hmore⟩
  · cases h

theorem reads_ladder (hp : Reads operand d .unary) :
    Reads (ladder operand) d (.level .disjunction) := by
  have h₁ : Reads _ d (.level .multiplicative) := reads_level hp
  have h₂ : Reads _ d (.level .additive) := reads_level h₁
  have h₃ : Reads _ d (.level .comparison) := reads_level h₂
  have h₄ : Reads _ d (.level .equality) := reads_level h₃
  have h₅ : Reads _ d (.level .conjunction) := reads_level h₄
  exact reads_level (l := .disjunction) h₅

theorem expectColon_eq_ok (h : expectColon stop ts = .ok rest) :
    ∃ p, ts = ⟨.colon, p⟩ :: rest := by
  unfold expectColon at h
  split at h
  · cases h
    exact ⟨_, rfl⟩
  · cases h

theorem expectClosing_eq_ok (h : expectClosing stop ts = .ok rest) :
    ∃ p, ts = ⟨.closing, p⟩ :: rest := by
  unfold expectClosing at h
  split at h
  · cases h
    exact ⟨_, rfl⟩
  · cases h

theorem reads_conditionalWith (hinner : Reads inner d .expression)
    (hp : Reads operand d .unary) :
    Reads (conditionalWith stop inner operand) (d + 1) .expression := by
  intro ts t rest h
  obtain ⟨⟨test, after⟩, htest, hmore⟩ := bind_eq_ok.1 h
  clear h
  obtain ⟨taken, rfl, htaken⟩ := reads_ladder hp _ _ _ htest
  dsimp only at hmore
  split at hmore
  · next p after =>
    obtain ⟨⟨yes, after₁⟩, hyes, h⟩ := bind_eq_ok.1 hmore
    obtain ⟨after₂, hcolon, h⟩ := bind_eq_ok.1 h
    obtain ⟨⟨no, after₃⟩, hno, h⟩ := bind_eq_ok.1 h
    cases h
    obtain ⟨takenYes, rfl, htakenYes⟩ := hinner _ _ _ hyes
    obtain ⟨q, rfl⟩ := expectColon_eq_ok hcolon
    obtain ⟨takenNo, rfl, htakenNo⟩ := hinner _ _ _ hno
    exact ⟨taken ++ ⟨.question, p⟩ :: (takenYes ++ ⟨.colon, q⟩ :: takenNo), by simp,
      by simpa using Derives.conditional htaken htakenYes htakenNo⟩
  · cases hmore
    exact ⟨taken, rfl, .plain htaken⟩

theorem reads_moreArguments (hp : Reads inner d .expression) {fuel : Nat} {acc es : List Expr}
    (h : moreArguments inner fuel acc ts = .ok (es, rest)) :
    ∃ taken, ts = taken ++ rest ∧ ∃ items : List (List Lexeme × Expr),
      lexemes taken = items.flatMap (fun a => .comma :: a.1) ∧
      es = acc.reverse ++ items.map (·.2) ∧ ∀ a ∈ items, Derives d .expression a.1 a.2 := by
  have hstop {acc : List Expr} {ts : List Token} (hacc : acc.reverse = es) (hts : ts = rest) :
      ∃ taken, ts = taken ++ rest ∧ ∃ items : List (List Lexeme × Expr),
        lexemes taken = items.flatMap (fun a => .comma :: a.1) ∧
        es = acc.reverse ++ items.map (·.2) ∧ ∀ a ∈ items, Derives d .expression a.1 a.2 :=
    ⟨[], hts, [], rfl, by simp [hacc], fun _ ha => nomatch ha⟩
  induction fuel generalizing acc ts with
  | zero =>
      cases h
      exact hstop rfl rfl
  | succ fuel ih =>
      unfold moreArguments at h
      split at h
      · next p after =>
        split at h
        · next e after' he =>
          obtain ⟨taken, rfl, htaken⟩ := hp _ _ _ he
          obtain ⟨more, rfl, items, hitems, rfl, hmore⟩ := ih h
          refine ⟨⟨.comma, p⟩ :: (taken ++ more), by simp, (lexemes taken, e) :: items,
            by simp [hitems], by simp, ?_⟩
          simpa [htaken] using hmore
        · cases h
      · cases h
        exact hstop rfl rfl

theorem reads_arguments (hp : Reads inner d .expression) {es : List Expr}
    (h : arguments inner ts = .ok (es, rest)) :
    ∃ taken, ts = taken ++ rest ∧ ∃ items : List (List Lexeme × Expr),
      lexemes taken = separated (items.map (·.1)) ∧ es = items.map (·.2) ∧
      ∀ a ∈ items, Derives d .expression a.1 a.2 := by
  unfold arguments at h
  split at h
  · cases h
    exact ⟨[], rfl, [], rfl, rfl, fun _ ha => nomatch ha⟩
  · split at h
    · next e after he =>
      obtain ⟨taken, rfl, htaken⟩ := hp _ _ _ he
      obtain ⟨more, rfl, items, hitems, rfl, hmore⟩ := reads_moreArguments hp h
      refine ⟨taken ++ more, by simp, (lexemes taken, e) :: items, ?_, by simp, ?_⟩
      · simp [hitems, separated_cons, List.flatMap_map]
      · simpa [htaken] using hmore
    · cases h

theorem variableNamed_eq_ok {w : List Char} {p : Nat} :
    variableNamed (String.ofList w) p = .ok t ↔ ∃ v : Variable, w = v.name.toList ∧ t = .var v := by
  constructor
  · intro h
    unfold variableNamed at h
    split at h
    · cases h
    · next v _ hv =>
      cases h
      exact ⟨v, by rw [Variable.ofName?_eq_some.1 hv, String.toList_ofList], rfl⟩
    · cases h
  · rintro ⟨v, rfl, rfl⟩
    rw [String.ofList_toList, variableNamed, Function.ofName?_variable,
      Variable.ofName?_eq_some.2 rfl]

theorem numberOf_eq_ok {text : List Char} :
    numberOf text = .ok t ↔ ∃ x, Decimal.read text = some (.finite x) ∧ t = .number x := by
  constructor
  · intro h
    unfold numberOf at h
    split at h
    · next x hx =>
      cases h
      exact ⟨x, hx, rfl⟩
    · cases h
  · rintro ⟨x, hx, rfl⟩
    rw [numberOf, hx]

theorem reads_primaryWith (hp : Reads inner d .expression) :
    Reads (primaryWith stop inner) d .primary := by
  intro ts t rest h
  unfold primaryWith at h
  split at h
  · next text p after =>
    obtain ⟨e, he, hrest⟩ := map_eq_ok.1 h
    cases hrest
    obtain ⟨x, hx, rfl⟩ := numberOf_eq_ok.1 he
    exact ⟨[⟨.number text, p⟩], rfl, .number hx⟩
  · next w p q after =>
    unfold callWith at h
    split at h
    · cases h
    · next f hf =>
      obtain ⟨⟨es, after'⟩, hes, h⟩ := bind_eq_ok.1 h
      obtain ⟨after'', hclosing, h⟩ := bind_eq_ok.1 h
      obtain ⟨taken, rfl, items, hitems, rfl, hderives⟩ := reads_arguments hp hes
      obtain ⟨q', rfl⟩ := expectClosing_eq_ok hclosing
      dsimp only at h
      split at h
      · next hf' =>
        cases h
        have hw : w = f.name.toList := by
          rw [Function.ofName?_eq_some.1 hf, String.toList_ofList]
        refine ⟨⟨.word w, p⟩ :: ⟨.opening, q⟩ :: (taken ++ [⟨.closing, q'⟩]), by simp, ?_⟩
        simpa [hitems, hw] using Derives.call f items (by simpa using hf') hderives
      · cases h
  · next w p after _ =>
    obtain ⟨e, he, hrest⟩ := map_eq_ok.1 h
    cases hrest
    obtain ⟨v, rfl, rfl⟩ := variableNamed_eq_ok.1 he
    exact ⟨[⟨.word v.name.toList, p⟩], rfl, .var v⟩
  · next p after =>
    obtain ⟨⟨e, after'⟩, he, h⟩ := bind_eq_ok.1 h
    obtain ⟨after'', hclosing, h⟩ := bind_eq_ok.1 h
    cases h
    obtain ⟨taken, rfl, htaken⟩ := hp _ _ _ he
    obtain ⟨q, rfl⟩ := expectClosing_eq_ok hclosing
    exact ⟨⟨.opening, p⟩ :: (taken ++ [⟨.closing, q⟩]), by simp, by simpa using Derives.group htaken⟩
  · cases h

theorem reads_tooDeep : Reads tooDeep d c := fun _ _ _ h => nomatch h

/-- A sign needs one more level than its operand; without room there is no sign. -/
theorem reads_unaryWith (hp : Reads inner d .expression)
    (hdeeper : ∀ ts t rest, deeper ts = .ok (t, rest) → ∃ d', d = d' + 1 ∧
      ∃ taken, ts = taken ++ rest ∧ Derives d' .unary (lexemes taken) t) :
    Reads (unaryWith stop deeper inner) d .unary := by
  intro ts t rest h
  have hprimary (h : primaryWith stop inner ts = .ok (t, rest)) :
      ∃ taken, ts = taken ++ rest ∧ Derives d .unary (lexemes taken) t := by
    obtain ⟨taken, rfl, htaken⟩ := reads_primaryWith hp _ _ _ h
    exact ⟨taken, rfl, .unsigned htaken⟩
  unfold unaryWith at h
  split at h
  · next o p after =>
    split at h
    · next op hop =>
      split at h
      · next e after' he =>
        cases h
        obtain ⟨d, rfl, taken, rfl, htaken⟩ := hdeeper _ _ _ he
        cases sign?_eq_some.1 hop
        exact ⟨⟨.operator op.operator, p⟩ :: taken, rfl, .sign op htaken⟩
      · cases h
    · exact hprimary h
  · exact hprimary h

/-- What is read with room for so many levels is derived with them. -/
theorem reads_levels (stop room : Nat) :
    Reads (levels stop room).1 room .expression ∧ Reads (levels stop room).2 room .unary := by
  induction room with
  | zero =>
      have hdeeper : ∀ ts t rest, tooDeep ts = .ok (t, rest) → ∃ d', 0 = d' + 1 ∧
          ∃ taken, ts = taken ++ rest ∧ Derives d' .unary (lexemes taken) t :=
        fun _ _ _ h => nomatch h
      exact ⟨reads_tooDeep, reads_unaryWith reads_tooDeep hdeeper⟩
  | succ room ih =>
      have hconditional : Reads (conditionalWith stop _ _) (room + 1) .expression :=
        reads_conditionalWith ih.1 ih.2
      refine ⟨hconditional, reads_unaryWith hconditional ?_⟩
      exact fun ts t rest h => ⟨room, rfl, ih.2 ts t rest h⟩

theorem derives_of_tree (h : tree stop ts = .ok t) :
    Derives maxDepth .expression (lexemes ts) t := by
  unfold tree at h
  split at h
  · cases h
  · next he =>
    cases h
    obtain ⟨taken, rfl, htaken⟩ := (reads_levels stop maxDepth).1 _ _ _ he
    simpa using htaken
  · cases h

end Parser

end Payroll.Formula
