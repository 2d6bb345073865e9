import Mathlib
import Payroll.Formula.Listing
import Payroll.Proofs.TokenTexts

/-!
Nothing of a formula is lost in its tokens: they stand one behind the other in the text with white space
between them only, and each is as long as it can be.
-/

namespace Payroll.Formula

open Text Result

namespace Operator

variable {o o' : Operator} {cs : List Char}

def double : List Operator := [.and, .or, .equal, .notEqual, .atMost, .atLeast]

def single : List Operator := [.less, .greater, .plus, .minus, .times, .divide, .remainder, .not]

theorem length_sign_le (o : Operator) : o.sign.length ≤ 2 := by cases o <;> decide

theorem mem_double (h : 1 < o.sign.length) : o ∈ double := by
  revert h
  cases o <;> decide

theorem length_of_mem_double (h : o ∈ double) : o.sign.length = 2 := by
  fin_cases h <;> rfl

/-- No operator that stands at the front is longer than the one that is found there. -/
theorem length_le_of_atFront? (h : atFront? cs = some o) (ho' : o'.sign <+: cs) :
    o'.sign.length ≤ o.sign.length := by
  by_contra hlonger
  have hpos : 0 < o.sign.length := by cases o <;> decide
  have hmem : o' ∈ double := mem_double (by omega)
  have hall : all = double ++ single := rfl
  rw [atFront?, hall, List.find?_append] at h
  cases hfound : double.find? fun p => p.sign.isPrefixOf cs with
  | none =>
      have hnot := List.find?_eq_none.1 hfound o' hmem
      exact hnot (List.isPrefixOf_iff_prefix.2 ho')
  | some p =>
      rw [hfound, Option.some_or] at h
      cases h
      have hp := length_of_mem_double (List.mem_of_find?_eq_some hfound)
      have ho := length_sign_le o'
      omega

end Operator

/-- A token goes as far as it can before the rest of the text. -/
def Lexeme.Longest (rest : List Char) : Lexeme → Prop
  | .number _ => ∀ c ∈ rest.head?, isDigit c = false ∧ c ≠ '.'
  | .word _ => ∀ c ∈ rest.head?, Token.isWordPart c = false
  | .operator o => ∀ o' : Operator, o'.sign <+: o.sign ++ rest → o'.sign.length ≤ o.sign.length
  | _ => True

namespace Token

variable {position count : Nat} {c : Char} {cs t : List Char} {l : Lexeme} {ts : List Token}

theorem numberText_longest {pointSeen : Bool} (h : numberText pointSeen cs = some t) :
    ∃ rest, cs = t ++ rest ∧ ∀ c ∈ rest.head?, isDigit c = false ∧ c ≠ '.' := by
  induction cs generalizing pointSeen t with
  | nil =>
      cases h
      exact ⟨[], rfl, by simp⟩
  | cons c cs ih =>
      have hcons {seen : Bool} (h : (numberText seen cs).map (c :: ·) = some t) :
          ∃ rest, c :: cs = t ++ rest ∧ ∀ d ∈ rest.head?, isDigit d = false ∧ d ≠ '.' := by
        obtain ⟨u, hu, rfl⟩ := Option.map_eq_some_iff.1 h
        obtain ⟨rest, rfl, hrest⟩ := ih hu
        exact ⟨rest, rfl, hrest⟩
      rw [numberText] at h
      split at h
      · exact hcons h
      · next hdigit =>
        split at h
        · split at h
          · cases h
          · exact hcons h
        · next hpoint =>
          cases h
          refine ⟨c :: cs, rfl, ?_⟩
          rintro d ⟨⟩
          exact ⟨Bool.not_eq_true _ ▸ hdigit, hpoint⟩

/-- What is read at the front of a text leaves a rest behind which it does not go on. -/
theorem lexemeAt_longest (h : lexemeAt position c cs = .ok l) :
    ∃ rest, c :: cs = l.text ++ rest ∧ l.Longest rest := by
  unfold lexemeAt at h
  split at h
  · split at h
    · cases h
    · next t ht =>
      split at h
      · cases h
      · cases h
        exact numberText_longest ht
  · split at h
    · cases h
      refine ⟨(c :: cs).dropWhile isWordPart, List.takeWhile_append_dropWhile.symm, fun d hd => ?_⟩
      have hhead := List.head?_dropWhile_not isWordPart (c :: cs)
      rw [Option.mem_def.1 hd] at hhead
      exact hhead
    · split at h
      · next hl =>
        cases h
        rw [text_of_punctuation? hl]
        refine ⟨cs, rfl, ?_⟩
        unfold punctuation? at hl
        split at hl <;> cases hl <;> trivial
      · split at h
        · next o ho =>
          cases h
          have hfront := List.find?_some (show Operator.all.find? _ = some o from ho)
          obtain ⟨rest, hrest⟩ := List.isPrefixOf_iff_prefix.1 hfront
          refine ⟨rest, hrest.symm, fun o' ho' => ?_⟩
          rw [hrest] at ho'
          exact Operator.length_le_of_atFront? ho ho'
        · cases h

/-- From a position on a text consists of these tokens, each as long as it can be, and of white space
before, between and behind them. -/
inductive Covers : Nat → List Char → List Token → Prop
  | nil (p : Nat) : Covers p [] []
  | blank {p : Nat} {c : Char} {cs : List Char} {ts : List Token} (hc : isBlank c)
      (h : Covers (p + 1) cs ts) : Covers p (c :: cs) ts
  | token {p : Nat} {rest : List Char} {l : Lexeme} {ts : List Token} (hl : l.text ≠ [])
      (longest : l.Longest rest) (h : Covers (p + l.text.length) rest ts) :
      Covers p (l.text ++ rest) (⟨l, p⟩ :: ts)

/-- Scanning takes token after token from the text and stops before there is one too many. -/
theorem covers_scan (hcount : count ≤ maxTokens) : ∀ ts, scan position count cs = .ok ts →
    Covers position cs ts ∧ count + ts.length ≤ maxTokens := by
  induction position, count, cs using scan.induct with
  | case1 position count =>
      intro ts h
      rw [scan] at h
      cases h
      exact ⟨.nil position, hcount⟩
  | case2 position count c cs hblank ih =>
      intro ts h
      rw [scan, if_pos hblank] at h
      obtain ⟨htail, hfew⟩ := ih hcount ts h
      exact ⟨.blank hblank htail, hfew⟩
  | case3 position count c cs hblank r hr =>
      intro ts h
      rw [scan, if_neg hblank, hr] at h
      cases h
  | case4 position count c cs hblank l hl hroom n r hr ih =>
      intro ts h
      rw [scan, if_neg hblank, hl] at h
      simp only [if_pos hroom] at h
      rw [hr] at h
      cases h
  | case5 position count c cs hblank l hl hroom n us hus ih =>
      intro ts h
      rw [scan, if_neg hblank, hl] at h
      simp only [if_pos hroom] at h
      rw [hus] at h
      cases h
      obtain ⟨-, hne, -⟩ := lexemeAt_eq_ok hl
      obtain ⟨rest, hrest, hlongest⟩ := lexemeAt_longest hl
      -- the scanner goes on behind the text of the token
      have hdrop : cs.drop (n - 1) = rest := by
        have hbehind : (c :: cs).drop (0 + l.text.length) = cs.drop (l.text.length - 1) :=
          drop_lexeme rfl hne
        rw [← hbehind, hrest, Nat.zero_add, List.drop_left]
      obtain ⟨htail, hfew⟩ := ih hroom us hus
      rw [hdrop] at htail
      refine ⟨hrest ▸ .token hne hlongest htail, ?_⟩
      rw [List.length_cons]
      omega
  | case6 position count c cs hblank l hl hroom =>
      intro ts h
      rw [scan, if_neg hblank, hl] at h
      simp only [if_neg hroom] at h
      cases h

namespace Covers

variable {p : Nat} {u : Token}

theorem position_le (h : Covers p cs ts) : ∀ t ∈ ts, p ≤ t.position := by
  induction h with
  | nil p => simp
  | blank hc h ih => exact fun t ht => (Nat.le_succ _).trans (ih t ht)
  | token hl longest h ih =>
      intro t ht
      rcases List.mem_cons.1 ht with rfl | ht
      · exact le_rfl
      · exact (Nat.le_add_right _ _).trans (ih t ht)

/-- Each token ends where or before the next one starts. -/
theorem apart (h : Covers p cs ts) :
    ts.Pairwise fun t u => t.position + t.lexeme.text.length ≤ u.position := by
  induction h with
  | nil p => exact List.Pairwise.nil
  | blank hc h ih => exact ih
  | token hl longest h ih => exact List.pairwise_cons.2 ⟨h.position_le, ih⟩

/-- Before a token stand as many characters as its position counts, and behind it a rest into which it
does not go on. -/
theorem exists_around (h : Covers p cs ts) : ∀ t ∈ ts, t.lexeme.text ≠ [] ∧
    ∃ before rest, cs = before ++ (t.lexeme.text ++ rest) ∧ p + before.length = t.position ∧
      t.lexeme.Longest rest := by
  induction h with
  | nil p => simp
  | @blank p c cs ts hc h ih =>
      intro t ht
      obtain ⟨hne, before, rest, rfl, hposition, hlongest⟩ := ih t ht
      refine ⟨hne, c :: before, rest, rfl, ?_, hlongest⟩
      rw [List.length_cons]
      omega
  | @token p rest l ts hl longest h ih =>
      intro t ht
      rcases List.mem_cons.1 ht with rfl | ht
      · exact ⟨hl, [], rest, rfl, rfl, longest⟩
      · obtain ⟨hne, before, behind, rfl, hposition, hlongest⟩ := ih t ht
        refine ⟨hne, l.text ++ before, behind, (List.append_assoc _ _ _).symm, ?_, hlongest⟩
        rw [List.length_append]
        omega

/-- A character that stands in no token is white space. -/
theorem blank_of_outside (h : Covers p cs ts) {i : Nat} (hc : cs[i]? = some c)
    (hout : ∀ t ∈ ts, ¬(t.position ≤ p + i ∧ p + i < t.position + t.lexeme.text.length)) :
    isBlank c := by
  induction h generalizing i with
  | nil p => cases hc
  | @blank p d cs ts hd h ih =>
      cases i with
      | zero =>
          cases hc
          exact hd
      | succ i =>
          refine ih hc fun t ht => ?_
          have := hout t ht
          omega
  | @token p rest l ts hl longest h ih =>
      have hfirst := hout _ List.mem_cons_self
      simp only at hfirst
      have hbehind : l.text.length ≤ i := by omega
      obtain ⟨j, rfl⟩ := Nat.exists_eq_add_of_le hbehind
      rw [List.getElem?_append_right hbehind, Nat.add_sub_cancel_left] at hc
      refine ih hc fun t ht => ?_
      have := hout t (List.mem_cons_of_mem _ ht)
      omega

end Covers

theorem covers_tokens {s : List Char} (h : tokens s = .ok ts) :
    Covers 0 s ts ∧ ts.length ≤ maxTokens := by
  rw [tokens] at h
  split at h
  · cases h
  · split at h
    · cases h
    · obtain ⟨hcovers, hfew⟩ := covers_scan (Nat.zero_le _) ts h
      exact ⟨hcovers, by omega⟩

end Token

namespace Listed

/-- A listed token goes on as far as one of its kind can: a number up to the first character that is
neither a digit nor a point, a word up to the first that belongs to no word, and no operator that
stands at the same place is longer. -/
structure Longest (s : String) (t : Listed) : Prop where
  number : t.kind = .number → ∀ c ∈ s.toList[t.stop]?, isDigit c = false ∧ c ≠ '.'
  word : t.kind = .word → ∀ c ∈ s.toList[t.stop]?, isAlphanumeric c = false ∧ c ≠ '_'
  operator : t.kind = .operator → ∀ o : Operator, o.sign <+: s.toList.drop t.position →
    o.sign.length ≤ t.text.length

/-- What the tokens of a text, its end apart, are in it. -/
structure Lossless (s : String) (ts : List Listed) : Prop where
  few : ts.length ≤ maxTokens
  increasing : ts.Pairwise fun t u => t.position < u.position
  apart : ts.Pairwise fun t u => t.stop ≤ u.position
  nonempty : ∀ t ∈ ts, t.text ≠ ""
  inside : ∀ t ∈ ts, t.stop ≤ s.length
  text : ∀ t ∈ ts, t.text.toList = (s.toList.drop t.position).take t.text.length
  blank : ∀ (i : Nat) (c : Char), s.toList[i]? = some c →
    (∀ t ∈ ts, ¬(t.position ≤ i ∧ i < t.stop)) → isBlank c
  longest : ∀ t ∈ ts, t.Longest s
  kind : ∀ t ∈ ts, t.kind ≠ .ending

variable {s : String} {t : Token} {rest : List Char}

theorem toList_text (t : Token) : (ofToken t).text.toList = t.lexeme.text := by
  rw [ofToken, Token.text, String.toList_ofList]

theorem stop_ofToken (t : Token) : (ofToken t).stop = t.position + t.lexeme.text.length := by
  rw [stop, ← String.length_toList, toList_text]
  rfl

theorem longest_ofToken (hs : s.toList.drop t.position = t.lexeme.text ++ rest)
    (h : t.lexeme.Longest rest) : (ofToken t).Longest s := by
  have hstop : s.toList[(ofToken t).stop]? = rest.head? := by
    rw [stop_ofToken, ← List.getElem?_drop, hs, List.getElem?_append_right le_rfl, Nat.sub_self,
      List.head?_eq_getElem?]
  obtain ⟨l, p⟩ := t
  cases l with
  | number text =>
      refine ⟨fun _ c hc => h c (hstop ▸ hc), Kind.noConfusion, Kind.noConfusion⟩
  | word text =>
      refine ⟨Kind.noConfusion, fun _ c hc => ?_, Kind.noConfusion⟩
      simpa [Token.isWordPart] using h c (hstop ▸ hc)
  | operator o =>
      refine ⟨Kind.noConfusion, Kind.noConfusion, fun _ o' ho' => ?_⟩
      have hlength := h o' (hs ▸ ho')
      rwa [← String.length_toList, toList_text]
  | _ => exact ⟨Kind.noConfusion, Kind.noConfusion, Kind.noConfusion⟩

end Listed

/-- The tokens of an accepted text are not too many and stand in it one behind the other, each as long as
it can be, with white space between them only; behind them comes the end of the text. -/
theorem listing_lossless {s : String} {es : List Listed} (h : listing s = .ok es) :
    ∃ ts, es = ts ++ [⟨.ending, "", s.length⟩] ∧ Listed.Lossless s ts := by
  obtain ⟨ts, htokens, hes⟩ := bind_eq_ok.1 h
  cases hes
  obtain ⟨hcovers, hfew⟩ := Token.covers_tokens htokens
  have haround (t : Token) (ht : t ∈ ts) : t.lexeme.text ≠ [] ∧
      ∃ rest, s.toList.drop t.position = t.lexeme.text ++ rest ∧ t.lexeme.Longest rest := by
    obtain ⟨hne, before, rest, hs, hposition, hlongest⟩ := hcovers.exists_around t ht
    refine ⟨hne, rest, ?_, hlongest⟩
    rw [hs, ← hposition, Nat.zero_add, List.drop_left]
  have hapart : (ts.map Listed.ofToken).Pairwise fun t u => t.stop ≤ u.position := by
    refine List.pairwise_map.2 (hcovers.apart.imp fun {t u} htu => ?_)
    rwa [Listed.stop_ofToken]
  refine ⟨ts.map Listed.ofToken, rfl, ?_⟩
  constructor
  case few => rwa [List.length_map]
  case apart => exact hapart
  case increasing =>
    refine List.pairwise_map.2 (hcovers.apart.imp_of_mem fun {t u} ht _ htu => ?_)
    have := List.length_pos_iff.2 (haround t ht).1
    exact (Nat.lt_add_of_pos_right this).trans_le htu
  case blank =>
    intro i c hc hout
    refine hcovers.blank_of_outside hc fun t ht => ?_
    have := hout _ (List.mem_map_of_mem ht)
    rwa [Listed.stop_ofToken, ← Nat.zero_add i] at this
  all_goals
    refine List.forall_mem_map.2 fun t ht => ?_
    obtain ⟨hne, rest, hs, hlongest⟩ := haround t ht
  case nonempty =>
    intro hempty
    rw [← Listed.toList_text, hempty] at hne
    exact hne rfl
  case inside =>
    have hlength := congrArg List.length hs
    have hpos := List.length_pos_iff.2 hne
    rw [List.length_drop, List.length_append, String.length_toList] at hlength
    rw [Listed.stop_ofToken]
    omega
  case text =>
    rw [← String.length_toList, Listed.toList_text]
    exact (hs ▸ List.take_left).symm
  case longest => exact Listed.longest_ofToken hs hlongest
  case kind => cases t with | mk l p => cases l <;> exact Kind.noConfusion

/-- A fraction is part of a word but no digit, a superscript is a digit of a number, and a blank may be
one that does not break lines. -/
theorem blended_lossless :
    listing "a½\u00a0<=.5²" = .ok [⟨.word, "a½", 0⟩, ⟨.operator, "<=", 3⟩, ⟨.number, ".5²", 5⟩,
      ⟨.ending, "", 8⟩] ∧
    Listed.Lossless "a½\u00a0<=.5²" [⟨.word, "a½", 0⟩, ⟨.operator, "<=", 3⟩, ⟨.number, ".5²", 5⟩] := by
  have hlisting : listing "a½\u00a0<=.5²" = .ok [⟨.word, "a½", 0⟩, ⟨.operator, "<=", 3⟩,
      ⟨.number, ".5²", 5⟩, ⟨.ending, "", 8⟩] :=
    ok_of_toOption (by decide +kernel)
  obtain ⟨ts, hts, hlossless⟩ := listing_lossless hlisting
  have htokens : ts = [⟨.word, "a½", 0⟩, ⟨.operator, "<=", 3⟩, ⟨.number, ".5²", 5⟩] :=
    (List.append_cancel_right hts).symm
  exact ⟨hlisting, htokens ▸ hlossless⟩

end Payroll.Formula
