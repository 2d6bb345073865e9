import Mathlib
import Payroll.Formula.Evaluate
import Payroll.Proofs.GrammarReading

/-!
The parser reads the whole grammar. A tree that is derived from the front of a token list is what
the parser reads there, if nothing follows that could go on with it; so a text has one tree at most.
-/

namespace Payroll.Formula

open Result

def Level.rank : Level → Nat
  | .disjunction => 0
  | .conjunction => 1
  | .equality => 2
  | .comparison => 3
  | .additive => 4
  | .multiplicative => 5

/-- The operators that do not belong to a category have a smaller rank. -/
def Category.rank : Category → Nat
  | .expression => 0
  | .level l => l.rank
  | .unary | .primary => 6

theorem Level.rank_lt_tighter (l : Level) : l.rank < l.tighter.rank := by
  cases l <;> decide

/-- A lexeme that nothing of a category goes on with. -/
structure Ends (c : Category) (x : Lexeme) : Prop where
  opening : x ≠ .opening
  question : c = .expression → x ≠ .question
  operator : ∀ op : BinaryOp, x = .operator op.operator → op.level.rank < c.rank

namespace Ends

variable {c c' : Category} {x : Lexeme}

theorem tighten (h : Ends c x) (hc : c.rank ≤ c'.rank) (hne : c' ≠ .expression) : Ends c' x :=
  ⟨h.opening, fun he => absurd he hne, fun op hop => (h.operator op hop).trans_le hc⟩

theorem colon (c : Category) : Ends c .colon :=
  ⟨by decide, fun _ => by decide, fun _ h => nomatch h⟩

theorem comma (c : Category) : Ends c .comma :=
  ⟨by decide, fun _ => by decide, fun _ h => nomatch h⟩

theorem closing (c : Category) : Ends c .closing :=
  ⟨by decide, fun _ => by decide, fun _ h => nomatch h⟩

theorem question_level (l : Level) : Ends (.level l) .question :=
  ⟨by decide, (nomatch ·), fun _ h => nomatch h⟩

theorem operator_tighter (op : BinaryOp) : Ends op.level.tighter (.operator op.operator) := by
  refine ⟨(nomatch ·), fun h => ?_, fun op' h => ?_⟩
  · cases op <;> cases h
  · have heq : op' = op := by
      cases op <;> cases op' <;> first | rfl | cases h
    exact heq ▸ op.level.rank_lt_tighter

end Ends

theorem lexemes_eq_cons {ts : List Token} {x : Lexeme} {ls : List Lexeme}
    (h : lexemes ts = x :: ls) : ∃ p us, ts = ⟨x, p⟩ :: us ∧ lexemes us = ls := by
  obtain ⟨⟨_, p⟩, us, rfl, rfl, rfl⟩ := List.map_eq_cons_iff.1 h
  exact ⟨p, us, rfl, rfl⟩

theorem lexemes_eq_append {ts : List Token} {ls ls' : List Lexeme} (h : lexemes ts = ls ++ ls') :
    ∃ us vs, ts = us ++ vs ∧ lexemes us = ls ∧ lexemes vs = ls' :=
  List.map_eq_append_iff.1 h

theorem lexemes_eq_append_cons {ts : List Token} {x : Lexeme} {ls ls' : List Lexeme}
    (h : lexemes ts = ls ++ x :: ls') :
    ∃ us p vs, ts = us ++ ⟨x, p⟩ :: vs ∧ lexemes us = ls ∧ lexemes vs = ls' := by
  obtain ⟨us, vs, rfl, rfl, hvs⟩ := lexemes_eq_append h
  obtain ⟨p, vs, rfl, rfl⟩ := lexemes_eq_cons hvs
  exact ⟨us, p, vs, rfl, rfl, rfl⟩

namespace Derives

variable {d : Nat} {c : Category} {ls : List Lexeme} {t : Expr}

theorem head_primary (h : Derives d .primary ls t) :
    ∃ x xs, ls = x :: xs ∧ (∀ o, x ≠ .operator o) ∧ x ≠ .closing := by
  cases h <;> exact ⟨_, _, rfl, fun _ h => (nomatch h), fun h => nomatch h⟩

theorem head (h : Derives d c ls t) : ∃ x xs, ls = x :: xs ∧ x ≠ .closing := by
  induction h with
  | conditional _ _ _ ih =>
      obtain ⟨x, xs, rfl, hx⟩ := ih
      exact ⟨x, _, rfl, hx⟩
  | operation _ _ _ _ ih =>
      obtain ⟨x, xs, rfl, hx⟩ := ih
      exact ⟨x, _, rfl, hx⟩
  | plain _ ih | operand _ ih | unsigned _ ih => exact ih
  | sign op => exact ⟨_, _, rfl, fun h => nomatch h⟩
  | number | var | call | group => exact ⟨_, _, rfl, fun h => nomatch h⟩

end Derives

namespace Parser

variable {d stop : Nat} {c c' : Category} {l : Level} {operand inner deeper : Parser Expr}
  {t left : Expr} {ts rest : List Token} {ls : List Lexeme}

/-- Nothing that stands at the front goes on with the category. -/
def Stops (c : Category) (rest : List Token) : Prop := ∀ x ∈ rest.head?, Ends c x.lexeme

theorem Stops.tighten (h : Stops c rest) (hc : c.rank ≤ c'.rank) (hne : c' ≠ .expression) :
    Stops c' rest :=
  fun x hx => (h x hx).tighten hc hne

theorem stops_cons {x : Lexeme} {p : Nat} (h : Ends c x) : Stops c (⟨x, p⟩ :: rest) := by
  intro x' hx
  cases hx
  exact h

/-- The parser gives every tree that is derived from the front of a token list. -/
def Completes (p : Parser Expr) (d : Nat) (c : Category) : Prop :=
  ∀ ts t rest, Derives d c (lexemes ts) t → Stops c rest → p (ts ++ rest) = .ok (t, rest)

theorem chain_of_stops (h : Stops (.level l) rest) (fuel : Nat) :
    chain l.find? operand fuel t rest = .ok (t, rest) := by
  cases fuel with
  | zero => rfl
  | succ fuel =>
      unfold chain
      split
      · next o p after =>
        split
        · next op hop =>
          obtain ⟨rfl, rfl⟩ := Level.find?_eq_some.1 hop
          have hlt := (h ⟨.operator op.operator, p⟩ rfl).operator op rfl
          exact absurd hlt (lt_irrefl _)
        · rfl
      · rfl

/-- After a tree of a level the operators of that level are still looked for. -/
theorem level_eq_chain (hp : Completes operand d l.tighter) (h : Derives d (.level l) ls t) :
    ∀ ts rest, lexemes ts = ls → Stops l.tighter rest → ∃ fuel, rest.length ≤ fuel ∧
      level l.find? operand (ts ++ rest) = chain l.find? operand fuel t rest := by
  generalize hc : Category.level l = c at h
  induction h with
  | operation op hl _ hright ih _ =>
      cases hc
      cases hl
      intro ts rest hts hrest
      obtain ⟨us, p, vs, rfl, rfl, rfl⟩ := lexemes_eq_append_cons hts
      obtain ⟨fuel, hfuel, heq⟩ := ih hp rfl us (⟨.operator op.operator, p⟩ :: (vs ++ rest)) rfl
        (stops_cons (.operator_tighter op))
      obtain _ | fuel := fuel
      · simp at hfuel
      · refine ⟨fuel, ?_, ?_⟩
        · simp at hfuel
          omega
        · have hfind : op.level.find? op.operator = some op := Level.find?_eq_some.2 ⟨rfl, rfl⟩
          rw [List.append_assoc, List.cons_append, heq, chain]
          simp only [hfind, hp _ _ _ hright hrest]
  | operand h _ =>
      cases hc
      intro ts rest hts hrest
      subst hts
      refine ⟨rest.length, le_rfl, ?_⟩
      rw [level, hp _ _ _ h hrest]
  | _ => cases hc

theorem completes_level (hp : Completes operand d l.tighter) :
    Completes (level l.find? operand) d (.level l) := by
  intro ts t rest h hrest
  have htighter : Stops l.tighter rest :=
    hrest.tighten l.rank_lt_tighter.le (by cases l <;> exact fun h => nomatch h)
  obtain ⟨fuel, -, heq⟩ := level_eq_chain hp h ts rest rfl htighter
  rw [heq, chain_of_stops hrest]

theorem completes_ladder (hp : Completes operand d .unary) :
    Completes (ladder operand) d (.level .disjunction) := by
  have h₁ : Completes _ d (.level .multiplicative) := completes_level hp
  have h₂ : Completes _ d (.level .additive) := completes_level h₁
  have h₃ : Completes _ d (.level .comparison) := completes_level h₂
  have h₄ : Completes _ d (.level .equality) := completes_level h₃
  have h₅ : Completes _ d (.level .conjunction) := completes_level h₄
  exact completes_level (l := .disjunction) h₅

theorem completes_conditionalWith (hinner : Completes inner d .expression)
    (hp : Completes operand d .unary) :
    Completes (conditionalWith stop inner operand) (d + 1) .expression := by
  intro ts t rest h hrest
  generalize hls : lexemes ts = ls at h
  cases h with
  | conditional htest hyes hno =>
      obtain ⟨us, p, vs, rfl, rfl, hvs⟩ := lexemes_eq_append_cons hls
      obtain ⟨vs, q, ws, rfl, rfl, rfl⟩ := lexemes_eq_append_cons hvs
      have htest := completes_ladder hp us _ (⟨.question, p⟩ :: (vs ++ ⟨.colon, q⟩ :: (ws ++ rest)))
        htest (stops_cons (.question_level _))
      have hyes := hinner vs _ (⟨.colon, q⟩ :: (ws ++ rest)) hyes (stops_cons (.colon _))
      have hno := hinner ws _ rest hno hrest
      simp only [conditionalWith, List.append_assoc, List.cons_append]
      refine bind_eq_ok.2 ⟨_, htest, ?_⟩
      refine bind_eq_ok.2 ⟨_, hyes, ?_⟩
      exact bind_eq_ok.2 ⟨_, rfl, bind_eq_ok.2 ⟨_, hno, rfl⟩⟩
  | plain htest =>
      subst hls
      have hdisjunction : Stops (.level .disjunction) rest :=
        hrest.tighten le_rfl (fun h => nomatch h)
      refine bind_eq_ok.2 ⟨_, completes_ladder hp ts _ rest htest hdisjunction, ?_⟩
      dsimp only
      split
      · next p after => exact absurd rfl ((hrest _ rfl).question rfl)
      · rfl

/-- A comma or the closing parenthesis comes after each of the arguments. -/
theorem stops_items {items : List (List Lexeme × Expr)}
    (hts : lexemes ts = items.flatMap fun a => .comma :: a.1) (q : Nat) (rest : List Token) :
    Stops .expression (ts ++ ⟨.closing, q⟩ :: rest) := by
  cases items with
  | nil =>
      cases List.map_eq_nil_iff.1 hts
      exact stops_cons (.closing _)
  | cons a items =>
      obtain ⟨p, us, rfl, -⟩ := lexemes_eq_cons hts
      exact stops_cons (.comma _)

theorem length_items {items : List (List Lexeme × Expr)}
    (hts : lexemes ts = items.flatMap fun a => .comma :: a.1) : items.length ≤ ts.length := by
  induction items generalizing ts with
  | nil => exact Nat.zero_le _
  | cons a items ih =>
      obtain ⟨p, us, rfl, hus⟩ := lexemes_eq_cons hts
      obtain ⟨us, vs, rfl, -, hvs⟩ := lexemes_eq_append hus
      have hlength := ih hvs
      simp only [List.length_cons, List.length_append]
      omega

theorem completes_moreArguments (hp : Completes inner d .expression)
    {items : List (List Lexeme × Expr)} (hitems : ∀ a ∈ items, Derives d .expression a.1 a.2)
    (hts : lexemes ts = items.flatMap fun a => .comma :: a.1) {fuel : Nat}
    (hfuel : items.length ≤ fuel) (acc : List Expr) (q : Nat) (rest : List Token) :
    moreArguments inner fuel acc (ts ++ ⟨.closing, q⟩ :: rest) =
      .ok (acc.reverse ++ items.map (·.2), ⟨.closing, q⟩ :: rest) := by
  induction items generalizing ts fuel acc with
  | nil =>
      cases List.map_eq_nil_iff.1 hts
      cases fuel <;> simp [moreArguments]
  | cons a items ih =>
      obtain ⟨ls, e⟩ := a
      obtain _ | fuel := fuel
      · simp at hfuel
      · obtain ⟨p, us, rfl, hus⟩ := lexemes_eq_cons hts
        obtain ⟨us, vs, rfl, rfl, hvs⟩ := lexemes_eq_append hus
        have hfirst := hp us e _ (hitems _ List.mem_cons_self) (stops_items hvs q rest)
        have hmore := ih (fun b hb => hitems b (List.mem_cons_of_mem _ hb)) hvs
          (Nat.le_of_succ_le_succ hfuel) (e :: acc)
        rw [List.cons_append, List.append_assoc, moreArguments]
        simp only [hfirst, hmore]
        simp

theorem completes_arguments (hp : Completes inner d .expression)
    {items : List (List Lexeme × Expr)} (hitems : ∀ a ∈ items, Derives d .expression a.1 a.2)
    (hts : lexemes ts = separated (items.map (·.1))) (q : Nat) (rest : List Token) :
    arguments inner (ts ++ ⟨.closing, q⟩ :: rest) =
      .ok (items.map (·.2), ⟨.closing, q⟩ :: rest) := by
  cases items with
  | nil =>
      cases List.map_eq_nil_iff.1 hts
      rfl
  | cons a items =>
      obtain ⟨ls, e⟩ := a
      rw [List.map_cons, separated_cons, List.flatMap_map] at hts
      obtain ⟨us, vs, rfl, rfl, hvs⟩ := lexemes_eq_append hts
      have hderives := hitems _ List.mem_cons_self
      have hfirst := hp us e _ hderives (stops_items hvs q rest)
      have hlength : items.length ≤ (vs ++ ⟨.closing, q⟩ :: rest).length :=
        (length_items hvs).trans (List.length_append ▸ Nat.le_add_right _ _)
      have hmore := completes_moreArguments hp (fun b hb => hitems b (List.mem_cons_of_mem _ hb))
        hvs hlength [e] q rest
      obtain ⟨x, xs, hxs, hx⟩ := hderives.head
      obtain ⟨p, us, rfl, -⟩ := lexemes_eq_cons hxs
      rw [List.append_assoc]
      unfold arguments
      split
      · next heq => cases heq; exact absurd rfl hx
      · simp only [hfirst, hmore]
        simp

theorem completes_primaryWith (hp : Completes inner d .expression) :
    Completes (primaryWith stop inner) d .primary := by
  intro ts t rest h hrest
  generalize hls : lexemes ts = ls at h
  cases h with
  | number hx =>
      obtain ⟨p, us, rfl, hus⟩ := lexemes_eq_cons hls
      cases List.map_eq_nil_iff.1 hus
      exact map_eq_ok.2 ⟨_, numberOf_eq_ok.2 ⟨_, hx, rfl⟩, rfl⟩
  | var v =>
      obtain ⟨p, us, rfl, hus⟩ := lexemes_eq_cons hls
      cases List.map_eq_nil_iff.1 hus
      have hv : variableNamed (String.ofList v.name.toList) p = .ok (.var v) :=
        variableNamed_eq_ok.2 ⟨v, rfl, rfl⟩
      unfold primaryWith
      split
      · next heq => cases heq
      · next heq =>
        cases heq
        exact absurd rfl (hrest _ rfl).opening
      · next heq =>
        cases heq
        exact map_eq_ok.2 ⟨_, hv, rfl⟩
      · next heq => cases heq
      · next hword _ => exact (hword _ _ _ rfl).elim
  | call f items haccepts hitems =>
      obtain ⟨p, us, rfl, hus⟩ := lexemes_eq_cons hls
      obtain ⟨p', us, rfl, hafter⟩ := lexemes_eq_cons hus
      obtain ⟨us, q, vs, rfl, harguments, hvs⟩ := lexemes_eq_append_cons hafter
      cases List.map_eq_nil_iff.1 hvs
      have hname : Function.ofName? (String.ofList f.name.toList) = some f := by
        rw [String.ofList_toList, Function.ofName?_eq_some]
      have hread := completes_arguments hp hitems harguments q rest
      simp only [List.cons_append, List.append_assoc, List.nil_append, primaryWith, callWith, hname]
      refine bind_eq_ok.2 ⟨_, hread, bind_eq_ok.2 ⟨rest, rfl, ?_⟩⟩
      rw [List.length_map, if_pos haccepts]
      rfl
  | group h =>
      obtain ⟨p, us, rfl, hus⟩ := lexemes_eq_cons hls
      obtain ⟨us, q, vs, rfl, rfl, hvs⟩ := lexemes_eq_append_cons hus
      cases List.map_eq_nil_iff.1 hvs
      have hinner := hp us t (⟨.closing, q⟩ :: rest) h (stops_cons (.closing _))
      simp only [List.cons_append, List.append_assoc, List.nil_append, primaryWith]
      exact bind_eq_ok.2 ⟨_, hinner, bind_eq_ok.2 ⟨rest, rfl, rfl⟩⟩

theorem completes_unaryWith (hp : Completes inner d .expression)
    (hdeeper : ∀ d', d = d' + 1 → Completes deeper d' .unary) :
    Completes (unaryWith stop deeper inner) d .unary := by
  intro ts t rest h hrest
  generalize hls : lexemes ts = ls at h
  cases h with
  | sign op h =>
      obtain ⟨p, us, rfl, rfl⟩ := lexemes_eq_cons hls
      have hsign : sign? op.operator = some op := sign?_eq_some.2 rfl
      have hoperand := hdeeper _ rfl us _ rest h hrest
      simp only [List.cons_append, unaryWith, hsign, hoperand]
  | unsigned h =>
      subst hls
      have hprimary : primaryWith stop inner (ts ++ rest) = .ok (t, rest) :=
        completes_primaryWith hp ts t rest h (hrest.tighten le_rfl (fun h => nomatch h))
      obtain ⟨x, xs, hxs, hx, -⟩ := h.head_primary
      obtain ⟨p, us, rfl, -⟩ := lexemes_eq_cons hxs
      rw [← hprimary]
      unfold unaryWith
      split
      · next heq =>
        cases heq
        exact absurd rfl (hx _)
      · rfl

theorem completes_tooDeep : Completes tooDeep 0 .expression := by
  intro ts t rest h
  generalize lexemes ts = ls at h
  cases h

/-- What is derived with so many levels is read with room for them. -/
theorem completes_levels (stop room : Nat) :
    Completes (levels stop room).1 room .expression ∧
      Completes (levels stop room).2 room .unary := by
  induction room with
  | zero =>
      have hdeeper : ∀ d', 0 = d' + 1 → Completes tooDeep d' .unary := fun _ h => nomatch h
      exact ⟨completes_tooDeep, completes_unaryWith completes_tooDeep hdeeper⟩
  | succ room ih =>
      have hconditional : Completes (conditionalWith stop _ _) (room + 1) .expression :=
        completes_conditionalWith ih.1 ih.2
      refine ⟨hconditional, completes_unaryWith hconditional ?_⟩
      rintro d ⟨⟩
      exact ih.2

theorem tree_eq_ok : tree stop ts = .ok t ↔ Derives maxDepth .expression (lexemes ts) t := by
  refine ⟨derives_of_tree, fun h => ?_⟩
  have hread := (completes_levels stop maxDepth).1 ts t [] h (fun _ hx => nomatch hx)
  rw [List.append_nil] at hread
  rw [tree, hread]

end Parser

theorem accept_eq_ok {s : String} {ts : List Token} {e : Expr} (h : Token.tokens s.toList = .ok ts) :
    accept s = .ok e ↔ Derives maxDepth .expression (lexemes ts) e := by
  rw [accept, parse, h, mapError_eq_ok, Parser.tree_eq_ok]

/-- However deep they nest, lexemes have one tree at most. -/
theorem Derives.unique {d d' : Nat} {ls : List Lexeme} {t t' : Expr}
    (h : Derives d .expression ls t) (h' : Derives d' .expression ls t') : t = t' := by
  let ts : List Token := ls.map fun x => ⟨x, 0⟩
  have hts : lexemes ts = ls := by simp [ts, lexemes, Function.comp_def]
  have hcomplete := (Parser.completes_levels 0 (max d d')).1
  have hstops : Parser.Stops .expression [] := fun _ hx => nomatch hx
  have hread := hcomplete ts t [] (hts ▸ h.mono (le_max_left d d')) hstops
  have hread' := hcomplete ts t' [] (hts ▸ h'.mono (le_max_right d d')) hstops
  cases hread.symm.trans hread'
  rfl

end Payroll.Formula
