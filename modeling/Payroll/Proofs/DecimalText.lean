import Mathlib
import Payroll.Decimal.Text

/-!
Writing a decimal and reading it back. The text of a number that text can denote reads back to the
same sign, coefficient and exponent, and whatever is read can be written.
-/

namespace Payroll

namespace Text

variable {p : Char → Bool} {cs ds : List Char}

theorem strip_eq_self (h : ∀ c ∈ cs, isBlank c = false) : strip cs = cs := by
  have hkept (ds : List Char) (hd : ∀ c ∈ ds, isBlank c = false) : ds.dropWhile isBlank = ds := by
    cases ds with
    | nil => rfl
    | cons d ds => exact List.dropWhile_cons_of_neg (by simp [hd d (by simp)])
  rw [strip, hkept cs h, hkept cs.reverse (by simpa using h), List.reverse_reverse]

/-- A run of characters ends where the first one stands that is not of its kind. -/
theorem takeWhile_run (hc : ∀ c ∈ cs, p c) (hd : ∀ c ∈ ds.head?, p c = false) :
    (cs ++ ds).takeWhile p = cs := by
  rw [List.takeWhile_append_of_pos hc]
  cases ds with
  | nil => simp
  | cons d ds => simp [hd d rfl]

theorem dropWhile_run (hc : ∀ c ∈ cs, p c) (hd : ∀ c ∈ ds.head?, p c = false) :
    (cs ++ ds).dropWhile p = ds := by
  rw [List.dropWhile_append_of_pos hc]
  cases ds with
  | nil => simp
  | cons d ds => simp [hd d rfl]

end Text

namespace Decimal

open Text

/-- A run of digits does not go on into such a text. -/
def NoDigitAhead (cs : List Char) : Prop := ∀ c ∈ cs.head?, c.isDigit = false

theorem noDigitAhead_nil : NoDigitAhead [] := by simp [NoDigitAhead]

theorem noDigitAhead_cons {c : Char} {cs : List Char} (h : c.isDigit = false) :
    NoDigitAhead (c :: cs) := by
  simpa [NoDigitAhead] using h

theorem isDigit_of_mem_digitsOf {n : Nat} {c : Char} (h : c ∈ digitsOf n) : c.isDigit :=
  Nat.isDigit_of_mem_toDigits (by decide) (by decide) h

theorem digitsOf_ne_nil (n : Nat) : digitsOf n ≠ [] := Nat.toDigits_ne_nil

theorem length_digitsOf_pos (n : Nat) : 0 < (digitsOf n).length :=
  List.length_pos_iff.2 (digitsOf_ne_nil n)

@[simp] theorem digitsValue_digitsOf (n : Nat) : digitsValue (digitsOf n) = n :=
  Nat.ofDigitChars_ten_toDigits

@[simp] theorem digitsValue_zeros (k : Nat) (cs : List Char) :
    digitsValue (List.replicate k '0' ++ cs) = digitsValue cs := by
  change Nat.ofDigitChars 10 _ 0 = Nat.ofDigitChars 10 _ 0
  rw [Nat.ofDigitChars_append]
  simp

theorem digitsValue_append_zeros (ds : List Char) (k : Nat) :
    digitsValue (ds ++ List.replicate k '0') = 10 ^ k * digitsValue ds := by
  change Nat.ofDigitChars 10 _ 0 = _ * Nat.ofDigitChars 10 _ 0
  rw [Nat.ofDigitChars_append, Nat.ofDigitChars_replicate_zero]

theorem isDigit_of_mem_zeros {k : Nat} {c : Char} (h : c ∈ List.replicate k '0') : c.isDigit := by
  rw [List.eq_of_mem_replicate h]
  decide

theorem toNat_of_isDigit {c : Char} (h : c.isDigit) : 48 ≤ c.toNat ∧ c.toNat ≤ 57 :=
  Char.isDigit_iff_toNat.1 h

theorem digitsValue_lt {ds : List Char} (h : ∀ c ∈ ds, c.isDigit) :
    digitsValue ds < 10 ^ ds.length := by
  induction ds using List.reverseRecOn with
  | nil => decide
  | append_singleton ds c ih =>
      have hc := toNat_of_isDigit (h c (by simp))
      have hds := ih fun x hx => h x (by simp [hx])
      have hv : digitsValue (ds ++ [c]) = 10 * digitsValue ds + (c.toNat - '0'.toNat) := by
        simp [digitsValue]
      have hz : '0'.toNat = 48 := rfl
      rw [hv, List.length_append, List.length_singleton, Nat.pow_succ]
      omega

section Reading

variable {b : Bool} {w f t : List Char} {e : Int}

/-- Digits without a point. -/
theorem readUnsigned_whole (hw : ∀ c ∈ w, c.isDigit) (hn : w ≠ []) (ht : NoDigitAhead t)
    (hp : ∀ c ∈ t.head?, c ≠ '.') (he : readExponent t = some e)
    (hr : Decimal.readable ⟨b, digitsValue w, e⟩) :
    readUnsigned b (w ++ t) = some ⟨b, digitsValue w, e⟩ := by
  rw [readUnsigned]
  rw [takeWhile_run hw ht, dropWhile_run hw ht]
  cases t with
  | nil =>
      cases Option.some.inj he
      simp [hn, readExponent, hr]
  | cons c cs =>
      have hc : c ≠ '.' := hp c rfl
      simp [hn, hc, he, hr]

/-- Digits on both sides of a point, or on one. -/
theorem readUnsigned_fraction (hw : ∀ c ∈ w, c.isDigit) (hn : w ≠ [] ∨ f ≠ [])
    (hf : ∀ c ∈ f, c.isDigit) (ht : NoDigitAhead t) (he : readExponent t = some e)
    (hr : Decimal.readable ⟨b, digitsValue (w ++ f), e - f.length⟩) :
    readUnsigned b (w ++ '.' :: (f ++ t)) =
      some ⟨b, digitsValue (w ++ f), e - f.length⟩ := by
  have hpoint : NoDigitAhead ('.' :: (f ++ t)) := noDigitAhead_cons (by decide)
  rw [readUnsigned]
  rw [takeWhile_run hw hpoint, dropWhile_run hw hpoint]
  simp only [takeWhile_run hf ht, dropWhile_run hf ht]
  simp [not_and_or.2 hn, he, hr]

/-- Digits with a point among or before them, or behind the last, where it is left out. -/
theorem readUnsigned_positional {ds : List Char} {p : Int} (hds : ∀ c ∈ ds, c.isDigit)
    (hn : ds ≠ []) (hpoint : p ≤ ds.length) (ht : NoDigitAhead t)
    (hdot : ∀ c ∈ t.head?, c ≠ '.') (he : readExponent t = some (e + ds.length - p))
    (hr : Decimal.readable ⟨b, digitsValue ds, e⟩) :
    readUnsigned b (positional ds p ++ t) = some ⟨b, digitsValue ds, e⟩ := by
  rw [positional]
  split
  · next hp =>
    -- the point stands before all digits, after a zero
    have hf : ∀ c ∈ List.replicate p.natAbs '0' ++ ds, c.isDigit := by
      intro c hc
      rcases List.mem_append.1 hc with hc | hc
      · exact isDigit_of_mem_zeros hc
      · exact hds c hc
    have hv : digitsValue ('0' :: (List.replicate p.natAbs '0' ++ ds)) = digitsValue ds := by
      rw [← List.cons_append, ← List.replicate_succ, digitsValue_zeros]
    have hx : e + ds.length - p - (List.replicate p.natAbs '0' ++ ds).length = e := by
      simp only [List.length_append, List.length_replicate]
      omega
    have hread := readUnsigned_fraction (b := b) (w := ['0']) (by simp) (.inl (by simp)) hf ht he
    simp only [List.singleton_append, hv, hx] at hread
    exact hread hr
  · split
    · next hp hshort =>
      have hx : e + ds.length - p = e := by omega
      exact readUnsigned_whole hds hn ht hdot (hx ▸ he) hr
    · next hp hlong =>
      have hread := readUnsigned_fraction (b := b) (w := ds.take p.toNat) (f := ds.drop p.toNat)
        (fun c hc => hds c (List.mem_of_mem_take hc))
        (.inl (by
          rw [Ne, List.take_eq_nil_iff, not_or]
          exact ⟨by omega, hn⟩))
        (fun c hc => hds c (List.mem_of_mem_drop hc)) ht he
      have hx : e + ds.length - p - (ds.drop p.toNat).length = e := by
        rw [List.length_drop]
        omega
      simp only [List.take_append_drop, hx] at hread
      simpa using hread hr

end Reading

theorem readExponent_exponentText (e : Int) : readExponent (exponentText e) = some e := by
  have hall : (digitsOf e.natAbs).all Char.isDigit = true :=
    List.all_eq_true.2 fun c hc => isDigit_of_mem_digitsOf hc
  by_cases h : e < 0
  · simp only [exponentText, readExponent, h, if_true, readSign, hall, digitsValue_digitsOf]
    simp only [Int.ofNat_natAbs_of_nonpos h.le]
    simp [digitsOf_ne_nil]
  · simp only [exponentText, readExponent, h, if_false, readSign, hall, digitsValue_digitsOf]
    simp only [Int.natAbs_of_nonneg (not_lt.1 h)]
    simp [digitsOf_ne_nil]

theorem noDigitAhead_exponentText (e : Int) : NoDigitAhead (exponentText e) :=
  noDigitAhead_cons (by decide)

theorem readUnsigned_digitsOf {b : Bool} {t : List Char} {n : Nat} {e p : Int}
    (hpoint : p ≤ (digitsOf n).length) (ht : NoDigitAhead t) (hdot : ∀ c ∈ t.head?, c ≠ '.')
    (he : readExponent t = some (e + (digitsOf n).length - p))
    (hr : Decimal.readable ⟨b, n, e⟩) :
    readUnsigned b (positional (digitsOf n) p ++ t) = some ⟨b, n, e⟩ := by
  have hread := readUnsigned_positional (b := b) (fun c hc => isDigit_of_mem_digitsOf hc)
    (digitsOf_ne_nil n) hpoint ht hdot he
  rw [digitsValue_digitsOf] at hread
  exact hread hr

theorem readUnsigned_magnitudeText (d : Decimal) (h : d.readable) :
    readUnsigned d.negative d.magnitudeText = some d := by
  have hlen := length_digitsOf_pos d.coefficient
  rw [magnitudeText]
  split
  · next hplain =>
    have hread := readUnsigned_digitsOf (t := []) (p := d.exponent + (digitsOf d.coefficient).length)
      (by omega) noDigitAhead_nil (by simp) (by simp [readExponent]) h
    rwa [List.append_nil] at hread
  · exact readUnsigned_digitsOf (by omega) (noDigitAhead_exponentText _) (by simp [exponentText])
      (readExponent_exponentText _) h

/-- The characters of written decimals. -/
def isNumeric (c : Char) : Bool := c.isDigit || c == '.' || c == 'E' || c == '+' || c == '-'

theorem isNumeric_of_isDigit {c : Char} (h : c.isDigit) : isNumeric c := by simp [isNumeric, h]

theorem isNumeric_toNat {c : Char} (h : isNumeric c) :
    43 ≤ c.toNat ∧ c.toNat ≤ 69 ∧ c ≠ '_' := by
  simp only [isNumeric, Bool.or_eq_true, beq_iff_eq] at h
  rcases h with (((h | rfl) | rfl) | rfl) | rfl
  · have hn := toNat_of_isDigit h
    refine ⟨by omega, by omega, ?_⟩
    rintro rfl
    simp at hn
  all_goals decide

theorem strip_of_isNumeric {cs : List Char} (h : ∀ c ∈ cs, isNumeric c) : strip cs = cs := by
  refine strip_eq_self fun c hc => ?_
  have hc := isNumeric_toNat (h c hc)
  rw [← Bool.not_eq_true]
  simp only [isBlank, Bool.or_eq_true, Bool.and_eq_true, decide_eq_true_eq, beq_iff_eq]
  omega

theorem asciiForm_of_isNumeric {cs : List Char} (h : ∀ c ∈ cs, isNumeric c) :
    asciiForm cs = some cs := by
  induction cs with
  | nil => rfl
  | cons c cs ih =>
      have hc := isNumeric_toNat (h c (by simp))
      rw [asciiForm, if_neg hc.2.2, if_pos (by omega), ih fun d hd => h d (by simp [hd])]
      rfl

theorem isNumeric_of_mem_exponentText {e : Int} {c : Char} (h : c ∈ exponentText e) :
    isNumeric c := by
  simp only [exponentText, List.mem_cons] at h
  rcases h with rfl | rfl | h
  · decide
  · split <;> decide
  · exact isNumeric_of_isDigit (isDigit_of_mem_digitsOf h)

theorem positional_digits {ds : List Char} (hd : ∀ c ∈ ds, c.isDigit) (hn : ds ≠ []) (point : Int) :
    (∀ c ∈ positional ds point, isNumeric c) ∧ ∃ c cs, positional ds point = c :: cs ∧ c.isDigit := by
  obtain ⟨a, as, rfl⟩ := List.exists_cons_of_ne_nil hn
  rw [positional]
  split
  · refine ⟨?_, '0', _, rfl, by decide⟩
    intro c hc
    simp only [List.mem_cons, List.mem_append] at hc
    rcases hc with rfl | rfl | hc | hc
    · decide
    · decide
    · exact isNumeric_of_isDigit (isDigit_of_mem_zeros hc)
    · exact isNumeric_of_isDigit (hd c (by simpa using hc))
  · split
    · exact ⟨fun c hc => isNumeric_of_isDigit (hd c hc), a, as, rfl, hd a (by simp)⟩
    · next hp _ =>
      obtain ⟨k, hk⟩ : ∃ k, point.toNat = k + 1 := ⟨point.toNat - 1, by omega⟩
      refine ⟨?_, a, _, by rw [hk]; rfl, hd a (by simp)⟩
      intro c hc
      rcases List.mem_append.1 hc with hc | hc
      · exact isNumeric_of_isDigit (hd c (List.mem_of_mem_take hc))
      · rcases List.mem_cons.1 hc with rfl | hc
        · decide
        · exact isNumeric_of_isDigit (hd c (List.mem_of_mem_drop hc))

theorem magnitudeText_numeric (d : Decimal) :
    (∀ c ∈ d.magnitudeText, isNumeric c) ∧ ∃ c cs, d.magnitudeText = c :: cs ∧ c.isDigit := by
  have hpos := positional_digits (fun c hc => isDigit_of_mem_digitsOf hc)
    (digitsOf_ne_nil d.coefficient)
  unfold magnitudeText
  simp only
  split
  · exact hpos _
  · obtain ⟨hall, c, cs, hc, hd⟩ := hpos 1
    refine ⟨?_, c, cs ++ _, by rw [hc]; rfl, hd⟩
    intro x hx
    rcases List.mem_append.1 hx with hx | hx
    · exact hall x hx
    · exact isNumeric_of_mem_exponentText hx

theorem readSign_of_digit {c : Char} {cs : List Char} (hc : c.isDigit ∨ c = '.') :
    readSign (c :: cs) = (false, c :: cs) := by
  unfold readSign
  split
  · next h => cases h; simp at hc
  · next h => cases h; simp at hc
  · rfl

/-- No word for an infinity or for no number starts with a digit or a point. -/
theorem readAscii_of_digit {cs tail : List Char} {c : Char} {negative : Bool}
    (hs : readSign cs = (negative, c :: tail)) (hc : c.isDigit ∨ c = '.') :
    readAscii cs = (readUnsigned negative (c :: tail)).map .finite := by
  have hn : 46 ≤ c.toNat ∧ c.toNat ≤ 57 := by
    rcases hc with hc | rfl
    · have := toNat_of_isDigit hc
      omega
    · decide
  have hlow : c.toLower = c := by
    apply Char.toLower_eq_of_not_isUpper
    simp only [Char.isUpper, ge_iff_le, decide_eq_true_eq, UInt32.le_iff_toNat_le]
    change ¬(65 ≤ c.toNat ∧ c.toNat ≤ 90)
    omega
  have hword (w : List Char) (d : Char) (hd : ¬(46 ≤ d.toNat ∧ d.toNat ≤ 57)) :
      List.map Char.toLower (c :: tail) ≠ d :: w := by
    rw [List.map_cons, hlow]
    intro h
    exact hd ((List.cons.inj h).1 ▸ hn)
  rw [readAscii]
  simp only [hs]
  rw [if_neg, if_neg]
  · simp only [isNan, List.map_cons, hlow, List.head?_cons, Option.some.injEq]
    rw [if_neg (by rintro rfl; simp at hn)]
    simp only [List.take_succ_cons, Bool.and_eq_true, beq_iff_eq, List.cons.injEq]
    rintro ⟨⟨rfl, _⟩, _⟩
    simp at hn
  · rintro (h | h)
    · exact hword _ 'i' (by decide) h
    · exact hword _ 'i' (by decide) h

/-- Behind a sign, or without one, digits are read as a number. -/
theorem readAscii_signed {ds : List Char} {a : Decimal} (negative : Bool)
    (hd : ∃ c cs, ds = c :: cs ∧ c.isDigit) (ha : readUnsigned negative ds = some a) :
    readAscii (if negative then '-' :: ds else ds) = some (.finite a) := by
  obtain ⟨c, cs, rfl, hc⟩ := hd
  have hsign : readSign (if negative then '-' :: c :: cs else c :: cs) = (negative, c :: cs) := by
    cases negative with
    | true => rfl
    | false => exact readSign_of_digit (.inl hc)
  rw [readAscii_of_digit hsign (.inl hc), ha]
  rfl

theorem read_text {d : Decimal} (h : d.readable) : read d.text.toList = some (.finite d) := by
  obtain ⟨hall, hfirst⟩ := d.magnitudeText_numeric
  have hsigned : ∀ x ∈ d.text.toList, isNumeric x := by
    intro x hx
    rw [text, String.toList_ofList] at hx
    split at hx
    · rcases List.mem_cons.1 hx with rfl | hx
      · decide
      · exact hall x hx
    · exact hall x hx
  rw [read, strip_of_isNumeric hsigned, asciiForm_of_isNumeric hsigned, Option.bind_some, text,
    String.toList_ofList]
  exact readAscii_signed d.negative hfirst (readUnsigned_magnitudeText d h)

theorem readable_of_readUnsigned {negative : Bool} {cs : List Char} {d : Decimal}
    (h : readUnsigned negative cs = some d) : d.readable := by
  unfold readUnsigned at h
  extract_lets whole rest fraction tail at h
  split at h
  · cases h
  · split at h
    · cases h
    · extract_lets r at h
      split at h
      · next hr => exact Option.some.inj h ▸ hr
      · cases h

/-- Every number that is read can be written and read again. -/
theorem readable_of_read {cs : List Char} {d : Decimal} (h : read cs = some (.finite d)) :
    d.readable := by
  obtain ⟨ds, -, h⟩ := Option.bind_eq_some_iff.1 h
  unfold readAscii at h
  simp only at h
  split at h
  · cases h
  · split at h
    · cases h
    · obtain ⟨e, he, hd⟩ := Option.map_eq_some_iff.1 h
      cases hd
      exact readable_of_readUnsigned he

theorem readable_of_ofInteger? {n : Int} {d : Decimal} (h : ofInteger? n = some d) :
    d.readable := by
  unfold ofInteger? at h
  split at h
  · next hr => cases h; exact hr
  · cases h

end Decimal

end Payroll
