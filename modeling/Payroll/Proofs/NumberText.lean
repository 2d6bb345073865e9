import Mathlib
import Payroll.Proofs.CanonicalText
import Payroll.Proofs.ShortestReals

/-!
Numbers in structured data read back: an integer to itself, and a finite real by way of a decimal of
its value.
-/

namespace Payroll

open Decimal Text

namespace Real64

theorem readExponent_exponentText (e : Int) : readExponent (Real64.exponentText e) = some e := by
  have hdigits (n : Nat) : ∃ ds : List Char, (if (digitsOf n).length < 2 then '0' :: digitsOf n
      else digitsOf n) = ds ∧ ds ≠ [] ∧ ds.all Char.isDigit ∧ digitsValue ds = n := by
    have hall : (digitsOf n).all Char.isDigit = true :=
      List.all_eq_true.2 fun c hc => isDigit_of_mem_digitsOf hc
    split
    · exact ⟨_, rfl, by simp, by simpa using hall, by simpa using digitsValue_zeros 1 (digitsOf n)⟩
    · exact ⟨_, rfl, digitsOf_ne_nil n, hall, digitsValue_digitsOf n⟩
  obtain ⟨ds, hds, hne, hall, hvalue⟩ := hdigits e.natAbs
  by_cases h : e < 0
  · simp only [Real64.exponentText, readExponent, hds, h, if_true, readSign, hall, hvalue]
    simp only [Int.ofNat_natAbs_of_nonpos h.le]
    simp [hne]
  · simp only [Real64.exponentText, readExponent, hds, h, if_false, readSign, hall, hvalue]
    simp only [Int.natAbs_of_nonneg (not_lt.1 h)]
    simp [hne]

section Magnitude

variable {b : Bool} {n : Nat} {e : Int}

/-- Zeros up to the point and the one behind it belong to the coefficient that is read. -/
theorem exists_readUnsigned_whole {k : Nat} (hlength : (digitsOf n).length + k ≤ 16)
    (hzeros : n ≠ 0 → e = k) :
    ∃ a : Decimal, readUnsigned b (digitsOf n ++ List.replicate k '0' ++ ['.', '0']) = some a ∧
      a.negative = b ∧ a.value = (⟨b, n, e⟩ : Decimal).value := by
  have hdigits : ∀ c ∈ digitsOf n ++ List.replicate k '0', c.isDigit := by
    intro c hc
    rcases List.mem_append.1 hc with hc | hc
    · exact isDigit_of_mem_digitsOf hc
    · exact isDigit_of_mem_zeros hc
  have hcoefficient : digitsValue (digitsOf n ++ List.replicate k '0' ++ ['0']) =
      n * pow10 (k + 1) := by
    have hrun : digitsOf n ++ List.replicate k '0' ++ ['0'] =
        digitsOf n ++ List.replicate (k + 1) '0' := by
      rw [List.replicate_succ', List.append_assoc]
    rw [hrun, digitsValue_append_zeros, digitsValue_digitsOf, mul_comm]
    rfl
  have hlt : n * pow10 (k + 1) < pow10 17 := by
    have hall : ∀ c ∈ digitsOf n ++ List.replicate k '0' ++ ['0'], c.isDigit := by
      intro c hc
      rcases List.mem_append.1 hc with hc | hc
      · exact hdigits c hc
      · rw [List.mem_singleton.1 hc]
        rfl
    refine hcoefficient ▸ (digitsValue_lt hall).trans_le (Nat.pow_le_pow_right (by decide) ?_)
    simp only [List.length_append, List.length_replicate, List.length_singleton]
    omega
  have hread := readUnsigned_fraction (b := b) (f := ['0']) (t := []) hdigits
    (.inl (by simp [digitsOf_ne_nil])) (by simp) noDigitAhead_nil (e := 0) rfl
  simp only [hcoefficient, List.length_singleton] at hread
  refine ⟨_, hread ?_, rfl, ?_⟩
  · have := digitCount_le hlt (by decide)
    rw [readable_iff]
    simp only [adjusted, digits, maxReadable, minReadable]
    omega
  · rw [value_mk_mul_pow10]
    by_cases hn : n = 0
    · rw [hn, value_zero, value_zero]
    · rw [hzeros hn]
      congr 2
      push_cast
      ring

end Magnitude

/-- The text of a real is that of a decimal with its sign and its value. -/
theorem exists_readUnsigned {d : Decimal} (h : d.readable) :
    ∃ a : Decimal, readUnsigned d.negative (Real64.magnitudeText d) = some a ∧
      a.negative = d.negative ∧ a.value = d.value := by
  obtain ⟨negative, n, e⟩ := d
  have hlen := length_digitsOf_pos n
  rw [Real64.magnitudeText]
  simp only [isZero_iff]
  by_cases hn : n = 0
  · subst hn
    exact exists_readUnsigned_whole (k := 0) (by decide) (by simp)
  · rw [if_neg hn]
    split
    · next hsmall =>
      split
      · next hwhole => exact exists_readUnsigned_whole (by omega) (by omega)
      · next hfraction =>
        have hread := readUnsigned_digitsOf (t := []) (p := e + (digitsOf n).length) (by omega)
          noDigitAhead_nil (by simp) (by simp [readExponent]) h
        rw [List.append_nil] at hread
        exact ⟨_, hread, rfl, rfl⟩
    · have hread := readUnsigned_digitsOf (p := 1) (by omega) (noDigitAhead_cons (by decide))
        (by simp) (Real64.readExponent_exponentText (e + (digitsOf n).length - 1)) h
      exact ⟨_, hread, rfl, rfl⟩

/-- The text of a real is told from that of an integer by its point or its exponent. -/
theorem exists_mark (d : Decimal) : ∃ c ∈ Real64.magnitudeText d, c = '.' ∨ c = 'e' := by
  have hlen := length_digitsOf_pos d.coefficient
  unfold Real64.magnitudeText
  simp only
  generalize (if d.isZero = true then 1
    else d.exponent + ((digitsOf d.coefficient).length : Int)) = point
  split
  · split
    · exact ⟨'.', by simp, .inl rfl⟩
    · next hsmall hfraction =>
      refine ⟨'.', ?_, .inl rfl⟩
      rw [positional]
      split
      · simp
      · rw [if_neg (by omega)]
        simp
  · exact ⟨'e', by simp [Real64.exponentText], .inr rfl⟩

end Real64

namespace Json

variable {r : List Char}

/-- A number does not go on into such a text. -/
def NoNumberAhead (r : List Char) : Prop := ∀ c ∈ r.head?, isNumberChar c = false

theorem readNumber_append {w : List Char} {d : Decimal} (hw : ∀ c ∈ w, isNumberChar c)
    (hr : NoNumberAhead r) (hd : readAscii w = some (.finite d)) :
    readNumber (w ++ r) = some (if w.all fun c => c.isDigit || c == '-' then .int d.signed
      else .real (Real64.ofDecimal d), r) := by
  rw [readNumber]
  simp only [takeWhile_run hw hr, dropWhile_run hw hr, hd]
  split <;> rfl

theorem signed_chars {ds : List Char} (h : ∀ c ∈ ds, isNumberChar c) (hne : ds ≠ []) (b : Bool) :
    (∀ c ∈ if b then '-' :: ds else ds, isNumberChar c) ∧ (if b then '-' :: ds else ds) ≠ [] := by
  cases b with
  | true => exact ⟨List.forall_mem_cons.2 ⟨rfl, h⟩, List.cons_ne_nil _ _⟩
  | false => exact ⟨h, hne⟩

theorem toString_eq_signed (n : Int) : (toString n).toList =
    if decide (n < 0) then '-' :: digitsOf n.natAbs else digitsOf n.natAbs := by
  rw [toList_toString]
  simp

theorem toString_chars (n : Int) :
    (∀ c ∈ (toString n).toList, isNumberChar c) ∧ (toString n).toList ≠ [] := by
  rw [toString_eq_signed]
  exact signed_chars (fun c hc => isNumberChar_of_mem_digitsOf hc) (digitsOf_ne_nil _) _

theorem realText_eq_signed (d : Decimal) : (realText (.finite d)).toList =
    if d.negative then '-' :: Real64.magnitudeText d else Real64.magnitudeText d := by
  rw [realText, Real64.text, String.toList_ofList]
  all_goals simp

theorem realText_chars (d : Decimal) :
    (∀ c ∈ (realText (.finite d)).toList, isNumberChar c) ∧ (realText (.finite d)).toList ≠ [] := by
  obtain ⟨hall, c, ds, hds, -⟩ := magnitudeText_digits d
  rw [realText_eq_signed]
  exact signed_chars hall (by simp [hds]) _

theorem readNumber_int {n : Int} (h : (ofInt n).readable) (hr : NoNumberAhead r) :
    readNumber ((toString n).toList ++ r) = some (.int n, r) := by
  have hread := readUnsigned_whole (b := n < 0) (t := [])
    (fun c hc => isDigit_of_mem_digitsOf hc) (digitsOf_ne_nil n.natAbs) noDigitAhead_nil (by simp)
    (e := 0) rfl
  rw [digitsValue_digitsOf, List.append_nil] at hread
  have hascii := readAscii_signed (n < 0) (digitsOf_cons n.natAbs) (hread h)
  rw [← toString_eq_signed] at hascii
  have hword : (toString n).toList.all fun c => c.isDigit || c == '-' := by
    rw [toString_eq_signed, List.all_eq_true]
    intro c hc
    split at hc
    · rcases List.mem_cons.1 hc with rfl | hc
      · rfl
      · simp [isDigit_of_mem_digitsOf hc]
    · simp [isDigit_of_mem_digitsOf hc]
  rw [readNumber_append (toString_chars n).1 hr hascii, if_pos hword, signed]
  simp only [decide_eq_true_eq]
  congr 3
  omega

theorem readNumber_real {d : Decimal} (h : Real64.ofDecimal d = .finite d)
    (hr : NoNumberAhead r) :
    readNumber ((realText (.finite d)).toList ++ r) = some (.real (.finite d), r) := by
  obtain ⟨-, hexponent, hadjusted⟩ := Real64.ofDecimal_finite h
  have hreadable : d.readable := by
    rw [readable_iff, maxReadable, minReadable]
    omega
  obtain ⟨a, ha, hnegative, hvalue⟩ := Real64.exists_readUnsigned hreadable
  have hascii := readAscii_signed d.negative (magnitudeText_digits d).2 ha
  rw [← realText_eq_signed] at hascii
  have hword : ¬(realText (.finite d)).toList.all fun c => c.isDigit || c == '-' := by
    obtain ⟨c, hc, hmark⟩ := Real64.exists_mark d
    have hmem : c ∈ (realText (.finite d)).toList := by
      rw [realText_eq_signed]
      split
      · exact List.mem_cons_of_mem _ hc
      · exact hc
    intro hints
    have := List.all_eq_true.1 hints c hmem
    rcases hmark with rfl | rfl <;> simp at this
  rw [readNumber_append (realText_chars d).1 hr hascii, if_neg hword,
    Real64.ofDecimal_congr hnegative hvalue, h]

end Json

end Payroll
