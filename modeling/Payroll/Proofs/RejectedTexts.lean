import Mathlib
import Payroll.Formula.Evaluate
import Payroll.Proofs.GrammarRejections
import Payroll.Proofs.TokenTexts

/-!
Every text is accepted as a formula or rejected with a reason that holds of it, unless one of its numbers
has a digit without a decimal value.
-/

namespace Payroll.Formula

open Text

namespace Token

variable {s : List Char} {t : Token} {ts : List Token}

theorem Of.standsAt_text (h : t.Of s) : StandsAt s t.text.toList t.position := by
  rw [text, String.toList_ofList]
  exact h.standsAt

theorem Of.text_ne (h : t.Of s) : t.text ≠ "" := by
  intro hempty
  refine h.ne_nil ?_
  rw [text] at hempty
  simpa using congrArg String.toList hempty

/-- Behind the last token stands the end of the text. -/
theorem standsAt_front (h : ∀ t ∈ ts, t.Of s) :
    StandsAt s (Parser.front s.length ts).1.toList (Parser.front s.length ts).2 := by
  cases ts with
  | nil => exact ⟨List.nil_prefix, fun _ => rfl⟩
  | cons t ts => exact (h t List.mem_cons_self).standsAt_text

theorem accounts_describes (hlength : s.length ≤ maxLength) :
    Parser.Accounts s.length (Token.Of s) (Rejection.Describes s) where
  tooDeep := trivial
  expected what ts h := standsAt_front h
  unexpected ts h := standsAt_front h
  trailing t h := ⟨h.standsAt_text, h.text_ne⟩
  notCalled w p h hf := by
    rw [Rejection.Describes, String.toList_ofList]
    exact ⟨h.standsAt, hf⟩
  unknownVariable w p h hf hv := by
    rw [Rejection.Describes, String.toList_ofList]
    exact ⟨h.standsAt, hv, hf⟩
  unknownFunction w p h hf := by
    rw [Rejection.Describes, String.toList_ofList]
    exact ⟨h.standsAt, hf⟩
  arity f n h := h
  unreadableNumber text p h hread := by
    rw [Rejection.Describes, String.toList_ofList]
    have hnumeral := h.numeral text rfl
    rcases read_numeral hnumeral (h.length_le.trans hlength) with ⟨x, hx, -⟩ | ⟨-, hdigit⟩
    · exact absurd hx (hread x)
    · exact ⟨⟨p, h.standsAt⟩, hnumeral, hdigit⟩

end Token

theorem describes_of_parse {s : String} {r : Rejection} (h : parse s = .error r) :
    r.Describes s.toList := by
  have hscanned := Token.scanned_tokens s.toList
  unfold parse at h
  split at h
  · next htokens =>
    cases h
    rw [htokens] at hscanned
    exact hscanned
  · next ts htokens =>
    rw [htokens] at hscanned
    have hlength := Token.length_le_of_tokens htokens
    rw [← String.length_toList] at h
    exact Parser.rejection_of_tree (Token.accounts_describes hlength) hscanned h

/-- A text is accepted, or rejected for something that stands in it or at its end, or one of its numbers
has a digit without a decimal value: such a number is not rejected but fails to be converted. -/
theorem accept_settles (s : String) :
    (∃ e, accept s = .ok e) ∨
    (∃ r, accept s = .error (.rejected [r]) ∧ r.Describes s.toList) ∨
    accept s = .error (.arithmetic .conversionSyntax) ∧
      ∃ t p, Token.StandsAt s.toList t p ∧ Token.Numeral t ∧ ∃ c ∈ t, isDigit c ∧ digitValue? c = none := by
  rw [accept]
  cases h : parse s with
  | ok e => exact .inl ⟨e, rfl⟩
  | error r =>
      have hdescribes := describes_of_parse h
      cases r with
      | unreadableNumber t =>
          obtain ⟨⟨p, hp⟩, hnumeral, hdigit⟩ := hdescribes
          exact .inr (.inr ⟨rfl, t.toList, p, hp, hnumeral, hdigit⟩)
      | _ => exact .inr (.inl ⟨_, rfl, hdescribes⟩)

/-- A superscript looks like a digit. -/
theorem superscript_fails : accept "²" = .error (.arithmetic .conversionSyntax) ∧
    ∃ c ∈ "²".toList, isDigit c ∧ digitValue? c = none := by
  have hfails : accept "²" = .error (.arithmetic .conversionSyntax) := by cbv
  rcases accept_settles "²" with ⟨e, he⟩ | ⟨r, hr, -⟩ | ⟨-, t, p, hp, -, c, hc, hdigit⟩
  · cases he.symm.trans hfails
  · cases hr.symm.trans hfails
  · exact ⟨hfails, c, List.drop_subset _ _ (hp.1.subset hc), hdigit⟩

end Payroll.Formula
