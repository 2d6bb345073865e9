import Mathlib
import Payroll.Proofs.GrammarReading

/-!
What the parser rejects tokens for. Each rejection is about one of the tokens that it was given, or about
their end.
-/

namespace Payroll.Formula.Parser

variable {α β : Type} {stop : Nat} {P : Token → Prop} {Q : Rejection → Prop}
  {operand inner deeper : Parser Expr} {ts : List Token} {ops : Operator → Option BinaryOp}

/-- Rejections of tokens that have one property have another. -/
structure Accounts (stop : Nat) (P : Token → Prop) (Q : Rejection → Prop) : Prop where
  tooDeep : Q .tooDeep
  expected (what : Expected) (ts : List Token) :
    (∀ t ∈ ts, P t) → Q (.expected what (front stop ts).1 (front stop ts).2)
  unexpected (ts : List Token) :
    (∀ t ∈ ts, P t) → Q (.unexpected (front stop ts).1 (front stop ts).2)
  trailing (t : Token) : P t → Q (.trailing t.text t.position)
  notCalled (w : List Char) (p : Nat) : P ⟨.word w, p⟩ →
    (Function.ofName? (String.ofList w)).isSome → Q (.notCalled (String.ofList w) p)
  unknownVariable (w : List Char) (p : Nat) : P ⟨.word w, p⟩ →
    Function.ofName? (String.ofList w) = none → Variable.ofName? (String.ofList w) = none →
    Q (.unknownVariable (String.ofList w) p)
  unknownFunction (w : List Char) (p : Nat) : P ⟨.word w, p⟩ →
    Function.ofName? (String.ofList w) = none → Q (.unknownFunction (String.ofList w) p)
  arity (f : Function) (n : Nat) : f.accepts n = false → Q (.arity f n)
  unreadableNumber (text : List Char) (p : Nat) : P ⟨.number text, p⟩ →
    (∀ x, Decimal.read text ≠ some (.finite x)) → Q (.unreadableNumber (String.ofList text))

/-- Something was read and tokens are left, or there is a rejection. -/
def Accounted (P : Token → Prop) (Q : Rejection → Prop) : Except Rejection (α × List Token) → Prop
  | .ok (_, rest) => ∀ t ∈ rest, P t
  | .error r => Q r

def AccountsFor (P : Token → Prop) (Q : Rejection → Prop) (p : Parser α) : Prop :=
  ∀ ts, (∀ t ∈ ts, P t) → Accounted P Q (p ts)

theorem tail_of_all {t : Token} (h : ∀ u ∈ t :: ts, P u) : ∀ u ∈ ts, P u :=
  (List.forall_mem_cons.1 h).2

theorem accounted_bind {x : Except Rejection (α × List Token)}
    {f : α × List Token → Except Rejection (β × List Token)} (hx : Accounted P Q x)
    (hf : ∀ a rest, (∀ t ∈ rest, P t) → Accounted P Q (f (a, rest))) : Accounted P Q (x >>= f) := by
  cases x with
  | error r => exact hx
  | ok a => exact hf a.1 a.2 hx

theorem accounted_cases {x : Except Rejection (α × List Token)} (hx : Accounted P Q x) :
    (∃ r, x = .error r ∧ Q r) ∨ ∃ a rest, x = .ok (a, rest) ∧ ∀ t ∈ rest, P t := by
  cases x with
  | error r => exact .inl ⟨r, rfl, hx⟩
  | ok a => exact .inr ⟨a.1, a.2, rfl, hx⟩

theorem accountsFor_chain (hp : AccountsFor P Q operand) (fuel : Nat) (left : Expr) :
    AccountsFor P Q (chain ops operand fuel left) := by
  induction fuel generalizing left with
  | zero => exact fun ts hts => hts
  | succ fuel ih =>
      intro ts hts
      unfold chain
      split
      · split
        · rcases accounted_cases (hp _ (tail_of_all hts)) with ⟨r, heq, hr⟩ | ⟨_, _, heq, hrest⟩
          · simp only [heq]
            exact hr
          · simp only [heq]
            exact ih _ _ hrest
        · exact hts
      · exact hts

theorem accountsFor_level (hp : AccountsFor P Q operand) : AccountsFor P Q (level ops operand) := by
  intro ts hts
  unfold level
  rcases accounted_cases (hp ts hts) with ⟨r, heq, hr⟩ | ⟨_, _, heq, hrest⟩
  · simp only [heq]
    exact hr
  · simp only [heq]
    exact accountsFor_chain hp _ _ _ hrest

theorem accountsFor_ladder (hp : AccountsFor P Q operand) : AccountsFor P Q (ladder operand) := by
  iterate 6 apply accountsFor_level
  exact hp

section

variable (hq : Accounts stop P Q)

include hq

theorem accounted_expectColon {f : List Token → Except Rejection (β × List Token)}
    (hts : ∀ t ∈ ts, P t) (hf : ∀ rest, (∀ t ∈ rest, P t) → Accounted P Q (f rest)) :
    Accounted P Q (expectColon stop ts >>= f) := by
  unfold expectColon
  split
  · exact hf _ (tail_of_all hts)
  · exact hq.expected .colon ts hts

theorem accounted_expectClosing {f : List Token → Except Rejection (β × List Token)}
    (hts : ∀ t ∈ ts, P t) (hf : ∀ rest, (∀ t ∈ rest, P t) → Accounted P Q (f rest)) :
    Accounted P Q (expectClosing stop ts >>= f) := by
  unfold expectClosing
  split
  · exact hf _ (tail_of_all hts)
  · exact hq.expected .closing ts hts

theorem accountsFor_conditionalWith (hinner : AccountsFor P Q inner) (hp : AccountsFor P Q operand) :
    AccountsFor P Q (conditionalWith stop inner operand) := by
  intro ts hts
  refine accounted_bind (accountsFor_ladder hp ts hts) fun test rest hrest => ?_
  dsimp only
  split
  · refine accounted_bind (hinner _ (tail_of_all hrest)) fun yes rest hrest => ?_
    refine accounted_expectColon hq hrest fun rest hrest => ?_
    exact accounted_bind (hinner _ hrest) fun no rest hrest => hrest
  · exact hrest

omit hq in
theorem accountsFor_moreArguments (hp : AccountsFor P Q inner) (fuel : Nat) (acc : List Expr) :
    AccountsFor P Q (moreArguments inner fuel acc) := by
  induction fuel generalizing acc with
  | zero => exact fun ts hts => hts
  | succ fuel ih =>
      intro ts hts
      unfold moreArguments
      split
      · rcases accounted_cases (hp _ (tail_of_all hts)) with ⟨r, heq, hr⟩ | ⟨_, _, heq, hrest⟩
        · simp only [heq]
          exact hr
        · simp only [heq]
          exact ih _ _ hrest
      · exact hts

omit hq in
theorem accountsFor_arguments (hp : AccountsFor P Q inner) : AccountsFor P Q (arguments inner) := by
  intro ts hts
  unfold arguments
  split
  · exact hts
  · rcases accounted_cases (hp ts hts) with ⟨r, heq, hr⟩ | ⟨_, _, heq, hrest⟩
    · simp only [heq]
      exact hr
    · simp only [heq]
      exact accountsFor_moreArguments hp _ _ _ hrest

theorem accountsFor_callWith (hp : AccountsFor P Q inner) {w : List Char} {p : Nat}
    (hw : P ⟨.word w, p⟩) : AccountsFor P Q (callWith stop inner (String.ofList w) p) := by
  intro ts hts
  unfold callWith
  split
  · next hnone => exact hq.unknownFunction w p hw hnone
  · refine accounted_bind (accountsFor_arguments hp ts hts) fun es rest hrest => ?_
    refine accounted_expectClosing hq hrest fun rest hrest => ?_
    split
    · exact hrest
    · next hcount => exact hq.arity _ _ (Bool.eq_false_of_not_eq_true hcount)

theorem accountsFor_primaryWith (hp : AccountsFor P Q inner) :
    AccountsFor P Q (primaryWith stop inner) := by
  intro ts hts
  unfold primaryWith
  split
  · next text p rest =>
    obtain ⟨htext, hrest⟩ := List.forall_mem_cons.1 hts
    unfold numberOf
    split
    · exact hrest
    · next hread => exact hq.unreadableNumber text p htext hread
  · obtain ⟨hw, hrest⟩ := List.forall_mem_cons.1 hts
    exact accountsFor_callWith hq hp hw _ (tail_of_all hrest)
  · next w p rest _ =>
    obtain ⟨hw, hrest⟩ := List.forall_mem_cons.1 hts
    unfold variableNamed
    split
    · next hf => exact hq.notCalled w p hw (Option.isSome_of_eq_some hf)
    · exact hrest
    · next hf hv => exact hq.unknownVariable w p hw hf hv
  · refine accounted_bind (hp _ (tail_of_all hts)) fun e rest hrest => ?_
    exact accounted_expectClosing hq hrest fun rest hrest => hrest
  · exact hq.unexpected ts hts

theorem accountsFor_unaryWith (hp : AccountsFor P Q inner) (hdeeper : AccountsFor P Q deeper) :
    AccountsFor P Q (unaryWith stop deeper inner) := by
  intro ts hts
  unfold unaryWith
  split
  · split
    · rcases accounted_cases (hdeeper _ (tail_of_all hts)) with ⟨r, heq, hr⟩ | ⟨_, _, heq, hrest⟩
      · simp only [heq]
        exact hr
      · simp only [heq]
        exact hrest
    · exact accountsFor_primaryWith hq hp _ hts
  · exact accountsFor_primaryWith hq hp _ hts

theorem accountsFor_levels (room : Nat) :
    AccountsFor P Q (levels stop room).1 ∧ AccountsFor P Q (levels stop room).2 := by
  have hdeep : AccountsFor P Q tooDeep := fun _ _ => hq.tooDeep
  induction room with
  | zero => exact ⟨hdeep, accountsFor_unaryWith hq hdeep hdeep⟩
  | succ room ih =>
      have hconditional : AccountsFor P Q (conditionalWith stop _ _) :=
        accountsFor_conditionalWith hq ih.1 ih.2
      exact ⟨hconditional, accountsFor_unaryWith hq hconditional ih.2⟩

theorem rejection_of_tree {r : Rejection} (hts : ∀ t ∈ ts, P t) (h : tree stop ts = .error r) :
    Q r := by
  have hread := (accountsFor_levels hq maxDepth).1 ts hts
  unfold tree at h
  split at h
  · next heq =>
    cases h
    rw [heq] at hread
    exact hread
  · cases h
  · next heq =>
    cases h
    rw [heq] at hread
    exact hq.trailing _ (hread _ List.mem_cons_self)

end

end Payroll.Formula.Parser
