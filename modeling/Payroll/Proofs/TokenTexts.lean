import Mathlib
import Payroll.Formula.Token
import Payroll.Proofs.DecimalRange
import Payroll.Proofs.DecimalText

/-!
Where tokens stand in a text, and what a number among them is: digits of any script, and signs that
look like digits, with one point at most. It can be read if all of its digits are decimal.
-/

namespace Payroll

namespace Text

variable {c : Char} {n : Nat}

theorem digitValue?_lt (h : digitValue? c = some n) : n < 10 := by
  rw [digitValue?] at h
  split at h
  · split at h
    · next hc =>
      have := Decimal.toNat_of_isDigit hc
      have hz : '0'.toNat = 48 := rfl
      cases h
      omega
    · cases h
  · obtain ⟨z, hz, rfl⟩ := Option.map_eq_some_iff.1 h
    have := List.find?_some hz
    simp only [Bool.and_eq_true, decide_eq_true_eq] at this
    omega

/-- Above ASCII there are signs that look like digits and have no decimal value. -/
theorem isDigit_ascii (hc : c.toNat < 128) : isDigit c = c.isDigit := by
  rw [isDigit, digitValue?, if_pos hc]
  split
  · next h => simp [h]
  · next h => simp [h, hc]

theorem isBlank_of_isDigit (h : isDigit c) : isBlank c = false := by
  have hblanks : ∀ n ∈ [9, 10, 11, 12, 13, 28, 29, 30, 31, 32, 0x85, 0xA0, 0x1680, 0x2000, 0x2001,
      0x2002, 0x2003, 0x2004, 0x2005, 0x2006, 0x2007, 0x2008, 0x2009, 0x200A, 0x2028, 0x2029, 0x202F,
      0x205F, 0x3000], isDigit (Char.ofNat n) = false := by
    decide
  by_contra hblank
  refine Bool.false_ne_true ((hblanks c.toNat ?_).symm.trans (by rw [Char.ofNat_toNat, h]))
  rw [Bool.not_eq_false] at hblank
  simp only [isBlank, Bool.or_eq_true, Bool.and_eq_true, decide_eq_true_eq, beq_iff_eq] at hblank
  simp only [List.mem_cons, List.not_mem_nil, or_false]
  omega

end Text

namespace Decimal

open Text

variable {w u : List Char}

theorem asciiForm_append (w u : List Char) :
    asciiForm (w ++ u) = (asciiForm w).bind fun w' => (asciiForm u).map (w' ++ ·) := by
  induction w with
  | nil => cases h : asciiForm u <;> simp [asciiForm, h]
  | cons c w ih =>
      simp only [List.cons_append, asciiForm, ih]
      split
      · rfl
      · split
        · cases asciiForm w <;> cases asciiForm u <;> simp
        · split
          · cases asciiForm w <;> cases asciiForm u <;> simp
          · rfl

/-- Digits have ASCII forms exactly if all of them are decimal. -/
theorem asciiForm_of_digits (hw : ∀ c ∈ w, isDigit c) :
    (∃ u, asciiForm w = some u ∧ (∀ c ∈ u, c.isDigit) ∧ u.length = w.length) ∧
        (∀ c ∈ w, (digitValue? c).isSome) ∨
      asciiForm w = none ∧ ∃ c ∈ w, digitValue? c = none := by
  induction w with
  | nil => exact .inl ⟨⟨[], rfl, by simp, rfl⟩, by simp⟩
  | cons c w ih =>
      have hc : isDigit c := hw c List.mem_cons_self
      have hunderscore : c ≠ '_' := by
        rintro rfl
        exact absurd hc (by decide)
      rw [asciiForm, if_neg hunderscore]
      rcases ih fun d hd => hw d (List.mem_cons_of_mem _ hd) with
        ⟨⟨u, hu, hdigits, hlength⟩, hvalues⟩ | ⟨hnone, d, hd, hvalue⟩
      · have hcons {d : Char} (hd : d.isDigit) : (∀ e ∈ d :: u, e.isDigit) ∧
            (d :: u).length = (c :: w).length := by
          simpa [hlength, hd] using hdigits
        by_cases hascii : c.toNat < 128
        · have hdigit : c.isDigit := isDigit_ascii hascii ▸ hc
          have hpos := toNat_of_isDigit hdigit
          rw [if_pos ⟨by omega, hascii⟩, hu]
          refine .inl ⟨⟨_, rfl, hcons hdigit⟩, List.forall_mem_cons.2 ⟨?_, hvalues⟩⟩
          rw [digitValue?, if_pos hascii, if_pos hdigit]
          rfl
        · rw [if_neg fun h => hascii h.2]
          cases hvalue : digitValue? c with
          | none => exact .inr ⟨rfl, c, List.mem_cons_self, hvalue⟩
          | some n =>
              have hn := digitValue?_lt hvalue
              refine .inl ⟨⟨_, by rw [hu]; rfl, hcons ?_⟩,
                List.forall_mem_cons.2 ⟨by simp [hvalue], hvalues⟩⟩
              interval_cases n <;> decide
      · refine .inr ⟨?_, d, List.mem_cons_of_mem _ hd, hvalue⟩
        rw [hnone]
        split
        · rfl
        · split <;> rfl

/-- ASCII digits with or without a point before the last ones are read as a number without a sign. -/
theorem exists_readAscii {f cs : List Char} {n : Nat} (hw : ∀ c ∈ w, c.isDigit)
    (hf : ∀ c ∈ f, c.isDigit) (hcs : cs = w ∧ w ≠ [] ∧ f = [] ∨ cs = w ++ '.' :: f ∧ f ≠ [])
    (hlength : cs.length ≤ n) (hn : n ≤ pow10 17) :
    ∃ d, readAscii cs = some (.finite d) ∧ d.adjusted ≤ n := by
  have hall : ∀ c ∈ w ++ f, c.isDigit := fun c hc => (List.mem_append.1 hc).elim (hw c) (hf c)
  have hsize : (w ++ f).length ≤ n ∧ 0 < n ∧ f.length ≤ n := by
    rcases hcs with ⟨rfl, hne, rfl⟩ | ⟨rfl, hne⟩
    · have := List.length_pos_iff.2 hne
      rw [List.append_nil, List.length_nil]
      omega
    · rw [List.length_append, List.length_cons] at hlength
      rw [List.length_append]
      omega
  have hdigits : digitCount (digitsValue (w ++ f)) ≤ n :=
    digitCount_le ((digitsValue_lt hall).trans_le (Nat.pow_le_pow_right (by decide) hsize.1)) hsize.2.1
  have hbound : (n : Int) ≤ 10 ^ 17 := by exact_mod_cast hn
  have hread : ∃ d, readUnsigned false cs = some d ∧ d.adjusted ≤ n := by
    refine ⟨⟨false, digitsValue (w ++ f), 0 - f.length⟩, ?_, ?_⟩
    · have hr : Decimal.readable ⟨false, digitsValue (w ++ f), 0 - f.length⟩ := by
        rw [readable_iff]
        simp only [adjusted, digits, maxReadable, minReadable]
        omega
      rcases hcs with ⟨rfl, hne, rfl⟩ | ⟨rfl, hne⟩
      · have hread := readUnsigned_whole (b := false) (t := []) (e := 0) hw hne noDigitAhead_nil
        simp only [List.append_nil] at hread hr ⊢
        exact hread (by simp) rfl hr
      · have hread := readUnsigned_fraction (b := false) (t := []) (e := 0) hw (.inr hne) hf
          noDigitAhead_nil rfl hr
        simpa using hread
    · simp only [adjusted, digits]
      omega
  obtain ⟨c, tail, rfl, hc⟩ : ∃ c tail, cs = c :: tail ∧ (c.isDigit ∨ c = '.') := by
    cases w with
    | nil =>
        rcases hcs with ⟨-, hne, -⟩ | ⟨rfl, -⟩
        · exact absurd rfl hne
        · exact ⟨'.', f, rfl, .inr rfl⟩
    | cons a w =>
        have ha : a.isDigit := hw a List.mem_cons_self
        rcases hcs with ⟨rfl, -, -⟩ | ⟨rfl, -⟩
        · exact ⟨a, _, rfl, .inl ha⟩
        · exact ⟨a, _, rfl, .inl ha⟩
  obtain ⟨d, hd, hadjusted⟩ := hread
  refine ⟨d, ?_, hadjusted⟩
  rw [readAscii_of_digit (readSign_of_digit hc) hc, hd]
  rfl

end Decimal

namespace Formula

open Text Decimal

namespace Token

variable {position count : Nat} {c : Char} {cs t : List Char} {l : Lexeme} {r : Rejection}

/-- The text of a number token: digits, with or without a point before the last ones. -/
inductive Numeral : List Char → Prop
  | whole {w : List Char} (hw : ∀ c ∈ w, isDigit c) (hn : w ≠ []) : Numeral w
  | fraction {w f : List Char} (hw : ∀ c ∈ w, isDigit c) (hf : ∀ c ∈ f, isDigit c) (hn : f ≠ []) :
      Numeral (w ++ '.' :: f)

theorem numberText_isPrefix {pointSeen : Bool} (h : numberText pointSeen cs = some t) : t <+: cs := by
  induction cs generalizing pointSeen t with
  | nil => cases h; exact List.nil_prefix
  | cons c cs ih =>
      rw [numberText] at h
      split at h
      · obtain ⟨u, hu, rfl⟩ := Option.map_eq_some_iff.1 h
        exact List.cons_prefix_cons.2 ⟨rfl, ih hu⟩
      · split at h
        · split at h
          · cases h
          · obtain ⟨u, hu, rfl⟩ := Option.map_eq_some_iff.1 h
            exact List.cons_prefix_cons.2 ⟨rfl, ih hu⟩
        · cases h
          exact List.nil_prefix

theorem digits_of_numberText (h : numberText true cs = some t) : ∀ c ∈ t, isDigit c := by
  induction cs generalizing t with
  | nil => cases h; simp
  | cons c cs ih =>
      rw [numberText] at h
      split at h
      · next hc =>
        obtain ⟨u, hu, rfl⟩ := Option.map_eq_some_iff.1 h
        exact List.forall_mem_cons.2 ⟨hc, ih hu⟩
      · split at h
        · cases h
        · cases h
          simp

theorem parts_of_numberText (h : numberText false cs = some t) :
    (∀ c ∈ t, isDigit c) ∨
      ∃ w f, t = w ++ '.' :: f ∧ (∀ c ∈ w, isDigit c) ∧ ∀ c ∈ f, isDigit c := by
  induction cs generalizing t with
  | nil => cases h; exact .inl (by simp)
  | cons c cs ih =>
      rw [numberText] at h
      split at h
      · next hc =>
        obtain ⟨u, hu, rfl⟩ := Option.map_eq_some_iff.1 h
        rcases ih hu with hall | ⟨w, f, rfl, hw, hf⟩
        · exact .inl (List.forall_mem_cons.2 ⟨hc, hall⟩)
        · exact .inr ⟨c :: w, f, rfl, List.forall_mem_cons.2 ⟨hc, hw⟩, hf⟩
      · split at h
        · next hpoint =>
          rw [if_neg Bool.false_ne_true] at h
          obtain ⟨u, hu, rfl⟩ := Option.map_eq_some_iff.1 h
          exact .inr ⟨[], u, by rw [hpoint]; rfl, by simp, digits_of_numberText hu⟩
        · cases h
          exact .inl (by simp)

theorem numeral_of_numberText (h : numberText false (c :: cs) = some t)
    (hstart : startsNumber (c :: cs)) (hlast : t.getLast? ≠ some '.') : Numeral t := by
  rcases parts_of_numberText h with hall | ⟨w, f, rfl, hw, hf⟩
  · refine .whole hall ?_
    rintro rfl
    rw [numberText] at h
    split at h
    · obtain ⟨u, -, hu⟩ := Option.map_eq_some_iff.1 h
      cases hu
    · next hc =>
      split at h
      · rw [if_neg Bool.false_ne_true] at h
        obtain ⟨u, -, hu⟩ := Option.map_eq_some_iff.1 h
        cases hu
      · next hpoint =>
        unfold startsNumber at hstart
        split at hstart
        · next heq =>
          cases heq
          exact hpoint rfl
        · next heq =>
          cases heq
          exact hc hstart
        · cases hstart
  · refine .fraction hw hf ?_
    rintro rfl
    exact hlast (by simp)

theorem isWordPart_of_start (h : isWordStart c) : isWordPart c := by
  simp only [isWordStart, isWordPart, Bool.or_eq_true] at *
  refine h.imp_left fun hletter => ?_
  rw [isLetter] at hletter
  rw [isAlphanumeric]
  split
  · next hascii =>
    rw [if_pos hascii] at hletter
    rw [Char.isAlphanum, hletter, Bool.true_or]
  · next hascii =>
    rw [if_neg hascii] at hletter
    rw [hletter, Bool.true_or]

theorem text_of_punctuation? (h : punctuation? c = some l) : l.text = [c] := by
  unfold punctuation? at h
  split at h <;> cases h <;> rfl

/-- A lexeme is not empty and stands at the front of its text. -/
theorem lexemeAt_eq_ok (h : lexemeAt position c cs = .ok l) :
    l.text <+: c :: cs ∧ l.text ≠ [] ∧ ∀ t, l = .number t → Numeral t := by
  unfold lexemeAt at h
  split at h
  · next hstart =>
    split at h
    · cases h
    · next t ht =>
      split at h
      · cases h
      · next hlast =>
        cases h
        have hnumeral := numeral_of_numberText ht hstart hlast
        refine ⟨numberText_isPrefix ht, ?_, fun u hu => Lexeme.number.inj hu ▸ hnumeral⟩
        cases hnumeral with
        | whole _ hn => exact hn
        | fraction _ _ _ => simp [Lexeme.text]
  · split at h
    · next hword =>
      cases h
      refine ⟨List.takeWhile_prefix _, ?_, by simp⟩
      simp [Lexeme.text, isWordPart_of_start hword]
    · split at h
      · next hl =>
        cases h
        rw [text_of_punctuation? hl]
        refine ⟨List.cons_prefix_cons.2 ⟨rfl, List.nil_prefix⟩, List.cons_ne_nil _ _, ?_⟩
        rintro t rfl
        unfold punctuation? at hl
        split at hl <;> cases hl
      · split at h
        · next o ho =>
          cases h
          have hfront := List.find?_some ho
          refine ⟨List.isPrefixOf_iff_prefix.1 hfront, ?_, by simp⟩
          cases o <;> exact List.cons_ne_nil _ _
        · cases h

/-- A text stands at a position of another; nothing stands at the end only. -/
def StandsAt (s text : List Char) (p : Nat) : Prop := text <+: s.drop p ∧ (text = [] → p = s.length)

/-- Where the tokens of a text stand in it. -/
structure Of (s : List Char) (t : Token) : Prop where
  standsAt : StandsAt s t.lexeme.text t.position
  ne_nil : t.lexeme.text ≠ []
  numeral : ∀ u, t.lexeme = .number u → Numeral u

end Token

/-- What a rejection says about a text is the case: the named text stands at the named position, which
is its end if nothing was found, and is what it was rejected for. -/
def Rejection.Describes (s : List Char) : Rejection → Prop
  | .empty => ∀ c ∈ s, isBlank c
  | .tooLong n => n = s.length ∧ maxLength < n
  | .tooManyTokens => maxTokens < s.length
  | .secondPoint p => Token.startsNumber (s.drop p) ∧ Token.numberText false (s.drop p) = none
  | .trailingPoint t p => Token.StandsAt s t.toList p ∧ t.toList.getLast? = some '.'
  | .unexpectedCharacter c p => Token.StandsAt s [c] p ∧ isBlank c = false
  | .tooDeep => True
  | .expected _ t p | .unexpected t p => Token.StandsAt s t.toList p
  | .trailing t p => Token.StandsAt s t.toList p ∧ t ≠ ""
  | .notCalled n p => Token.StandsAt s n.toList p ∧ (Function.ofName? n).isSome
  | .unknownVariable n p =>
    Token.StandsAt s n.toList p ∧ Variable.ofName? n = none ∧ Function.ofName? n = none
  | .unknownFunction n p => Token.StandsAt s n.toList p ∧ Function.ofName? n = none
  | .arity f n => f.accepts n = false
  | .undefinedName _ => False
  | .unreadableNumber t => (∃ p, Token.StandsAt s t.toList p) ∧ Token.Numeral t.toList ∧
    ∃ c ∈ t.toList, isDigit c ∧ digitValue? c = none

namespace Token

variable {position count : Nat} {s cs : List Char} {c : Char} {l : Lexeme} {r : Rejection}

theorem standsAt_of_drop {text : List Char} (hs : s.drop position = cs) (h : text <+: cs)
    (hne : text ≠ []) : StandsAt s text position :=
  ⟨hs ▸ h, fun hnil => absurd hnil hne⟩

theorem lexemeAt_eq_error (hs : s.drop position = c :: cs) (hblank : isBlank c = false)
    (h : lexemeAt position c cs = .error r) : r.Describes s := by
  unfold lexemeAt at h
  split at h
  · next hstart =>
    split at h
    · next hnone =>
      cases h
      exact ⟨hs ▸ hstart, hs ▸ hnone⟩
    · next t ht =>
      split at h
      · next hlast =>
        cases h
        have hne : t ≠ [] := by
          rintro rfl
          cases hlast
        rw [Rejection.Describes, String.toList_ofList]
        exact ⟨standsAt_of_drop hs (numberText_isPrefix ht) hne, hlast⟩
      · cases h
  · split at h
    · cases h
    · split at h
      · cases h
      · split at h
        · cases h
        · cases h
          exact ⟨standsAt_of_drop hs (List.cons_prefix_cons.2 ⟨rfl, List.nil_prefix⟩)
            (List.cons_ne_nil _ _), hblank⟩

theorem drop_lexeme (hs : s.drop position = c :: cs) (hne : l.text ≠ []) :
    s.drop (position + l.text.length) = cs.drop (l.text.length - 1) := by
  obtain ⟨n, hn⟩ : ∃ n, l.text.length = n + 1 :=
    Nat.exists_eq_succ_of_ne_zero (List.length_pos_iff.2 hne).ne'
  rw [← List.drop_drop, hs, hn]
  rfl

/-- Tokens of a text, or a reason that it has none. -/
def Scanned (s : List Char) : Except Rejection (List Token) → Prop
  | .ok ts => ∀ t ∈ ts, t.Of s
  | .error r => r.Describes s

/-- The tokens that are read do not overlap, so there are no more of them than characters. -/
theorem scanned_scan (hs : s.drop position = cs) (hcount : count ≤ position) :
    Scanned s (scan position count cs) := by
  induction position, count, cs using scan.induct with
  | case1 position count =>
      rw [scan]
      exact List.forall_mem_nil _
  | case2 position count c cs hblank ih =>
      rw [scan, if_pos hblank]
      refine ih ?_ (hcount.trans (Nat.le_succ _))
      rw [← List.drop_drop, hs]
      rfl
  | case3 position count c cs hblank r hr =>
      rw [scan, if_neg hblank, hr]
      exact lexemeAt_eq_error hs (Bool.not_eq_true _ ▸ hblank) hr
  | case4 position count c cs hblank l hl hroom n r hr ih =>
      obtain ⟨-, hne, -⟩ := lexemeAt_eq_ok hl
      have hlength : 0 < n := List.length_pos_iff.2 hne
      have hrest := ih (drop_lexeme hs hne) (by omega)
      rw [scan, if_neg hblank, hl]
      simp only [if_pos hroom]
      rw [hr] at hrest ⊢
      exact hrest
  | case5 position count c cs hblank l hl hroom n ts hts ih =>
      obtain ⟨hfront, hne, hnumeral⟩ := lexemeAt_eq_ok hl
      have hlength : 0 < n := List.length_pos_iff.2 hne
      have hrest := ih (drop_lexeme hs hne) (by omega)
      rw [scan, if_neg hblank, hl]
      simp only [if_pos hroom]
      rw [hts] at hrest ⊢
      exact List.forall_mem_cons.2 ⟨⟨standsAt_of_drop hs hfront hne, hne, hnumeral⟩, hrest⟩
  | case6 position count c cs hblank l hl hroom =>
      have hinside : position < s.length := by
        by_contra hend
        rw [List.drop_eq_nil_of_le (not_lt.1 hend)] at hs
        cases hs
      rw [scan, if_neg hblank, hl]
      simp only [if_neg hroom]
      exact (not_lt.1 hroom).trans_lt (hcount.trans_lt hinside)

theorem scanned_tokens (s : List Char) : Scanned s (tokens s) := by
  rw [tokens]
  split
  · next hblank => exact List.all_eq_true.1 hblank
  · split
    · next hlong => exact ⟨rfl, hlong⟩
    · exact scanned_scan rfl le_rfl

theorem length_le_of_tokens {ts : List Token} (h : tokens s = .ok ts) : s.length ≤ maxLength := by
  rw [tokens] at h
  split at h
  · cases h
  · split at h
    · cases h
    · next hshort => exact not_lt.1 hshort

theorem Of.length_le {t : Token} (h : t.Of s) : t.lexeme.text.length ≤ s.length :=
  h.standsAt.1.length_le.trans (by rw [List.length_drop]; exact Nat.sub_le _ _)

theorem blank_of_numeral {t : List Char} (h : Numeral t) : ∀ c ∈ t, isBlank c = false := by
  have hpoint : isBlank '.' = false := by decide
  cases h with
  | whole hw _ => exact fun c hc => isBlank_of_isDigit (hw c hc)
  | fraction hw hf _ =>
      intro c hc
      rcases List.mem_append.1 hc with hc | hc
      · exact isBlank_of_isDigit (hw c hc)
      · rcases List.mem_cons.1 hc with rfl | hc
        · exact hpoint
        · exact isBlank_of_isDigit (hf c hc)

/-- A number is read, without sign or exponent mark, if each of its digits has a decimal value. -/
theorem read_numeral {t : List Char} (h : Numeral t) (hlength : t.length ≤ maxLength) :
    (∃ d, Decimal.read t = some (.finite d) ∧ d.adjusted ≤ maxLength) ∨
      Decimal.read t = none ∧ ∃ c ∈ t, isDigit c ∧ digitValue? c = none := by
  rw [Decimal.read, strip_eq_self (blank_of_numeral h)]
  have hmax : maxLength ≤ pow10 17 := by decide
  cases h with
  | whole hw hn =>
      rcases asciiForm_of_digits hw with ⟨⟨u, hu, hdigits, hulength⟩, -⟩ | ⟨hnone, c, hc, hvalue⟩
      · rw [hu, Option.bind_some]
        have hne : u ≠ [] := List.length_pos_iff.1 (hulength ▸ List.length_pos_iff.2 hn)
        exact .inl (exists_readAscii hdigits (List.forall_mem_nil _) (.inl ⟨rfl, hne, rfl⟩)
          (hulength ▸ hlength) hmax)
      · exact .inr ⟨by rw [hnone]; rfl, c, hc, hw c hc, hvalue⟩
  | @fraction w f hw hf hn =>
      have hform : asciiForm (w ++ '.' :: f) = (asciiForm w).bind fun u =>
          (asciiForm f).map fun v => u ++ '.' :: v := by
        rw [asciiForm_append, asciiForm, if_neg (by decide), if_pos (by decide)]
        simp [Function.comp_def]
      rw [hform]
      rcases asciiForm_of_digits hw with ⟨⟨u, hu, hudigits, hulength⟩, -⟩ | ⟨hnone, c, hc, hvalue⟩
      · rcases asciiForm_of_digits hf with ⟨⟨v, hv, hvdigits, hvlength⟩, -⟩ | ⟨hnone, c, hc, hvalue⟩
        · rw [hu, hv]
          have hne : v ≠ [] := List.length_pos_iff.1 (hvlength ▸ List.length_pos_iff.2 hn)
          refine .inl (exists_readAscii hudigits hvdigits (.inr ⟨rfl, hne⟩) ?_ hmax)
          simpa [hulength, hvlength] using hlength
        · exact .inr ⟨by rw [hu, hnone]; rfl, c, by simp [hc], hf c hc, hvalue⟩
      · exact .inr ⟨by rw [hnone]; rfl, c, by simp [hc], hw c hc, hvalue⟩

end Token

end Formula

end Payroll
