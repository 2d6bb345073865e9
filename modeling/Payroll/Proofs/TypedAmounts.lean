import Mathlib
import Payroll.Command.Value
import Payroll.Proofs.AmountBounds
import Payroll.Proofs.NumberText

/-!
Amounts as words of a command line give them. A word that denotes a finite number is an amount of moderate
size, and the amount that any other gives is refused.
-/

namespace Payroll

open Decimal Text

namespace Real64

/-- A finite number is held as the decimal that it is read from. -/
def Held (x : Real64) : Prop := ∀ r, x = .finite r → ofDecimal r = .finite r

/-- What is neither infinite nor no number. -/
def IsFinite (x : Real64) : Prop := ∃ r, x = .finite r

theorem held_of_ofDecimal (d : Decimal) : (ofDecimal d).Held := fun _ h => (ofDecimal_finite h).1

theorem held_zero : Held (.finite 0) := by
  rintro _ ⟨⟩
  rfl

end Real64

section Text

variable {cs : List Char} {r : Decimal}

theorem toNat_of_isNumberChar {c : Char} (h : Json.isNumberChar c) :
    43 ≤ c.toNat ∧ c.toNat ≤ 101 ∧ c ≠ '_' := by
  simp only [Json.isNumberChar, Bool.or_eq_true, beq_iff_eq] at h
  rcases h with ((((h | rfl) | rfl) | rfl) | rfl) | rfl
  · have hn := toNat_of_isDigit h
    refine ⟨by omega, by omega, ?_⟩
    rintro rfl
    simp at hn
  all_goals decide

theorem strip_of_isNumberChar (h : ∀ c ∈ cs, Json.isNumberChar c) : strip cs = cs := by
  refine strip_eq_self fun c hc => ?_
  have hc := toNat_of_isNumberChar (h c hc)
  rw [← Bool.not_eq_true]
  simp only [isBlank, Bool.or_eq_true, Bool.and_eq_true, decide_eq_true_eq, beq_iff_eq]
  omega

theorem asciiForm_of_isNumberChar (h : ∀ c ∈ cs, Json.isNumberChar c) : asciiForm cs = some cs := by
  induction cs with
  | nil => rfl
  | cons c cs ih =>
      have hc := toNat_of_isNumberChar (h c List.mem_cons_self)
      rw [asciiForm, if_neg hc.2.2, if_pos (by omega),
        ih fun d hd => h d (List.mem_cons_of_mem _ hd)]
      rfl

/-- The text of a real denotes a decimal of its sign and value. -/
theorem exists_read_real (h : Real64.ofDecimal r = .finite r) :
    ∃ d, read (Real64.finite r).text.toList = some (.finite d) ∧ d.negative = r.negative ∧
      d.value = r.value := by
  obtain ⟨-, hexponent, hadjusted⟩ := Real64.ofDecimal_finite h
  have hreadable : r.readable := by
    rw [readable_iff, maxReadable, minReadable]
    omega
  obtain ⟨d, hd, hnegative, hvalue⟩ := Real64.exists_readUnsigned hreadable
  have hascii := readAscii_signed r.negative (Json.magnitudeText_digits r).2 hd
  obtain ⟨hchars, -⟩ := Json.signed_chars (Json.magnitudeText_digits r).1
    (by obtain ⟨c, cs, hcs, -⟩ := (Json.magnitudeText_digits r).2; simp [hcs]) r.negative
  refine ⟨d, ?_, hnegative, hvalue⟩
  rw [Real64.text, String.toList_ofList, Decimal.read, strip_of_isNumberChar hchars,
    asciiForm_of_isNumberChar hchars, Option.bind_some, hascii]

end Text

/-- An amount of moderate size: at most a power of ten, and zero or at least a power of ten. -/
structure Decimal.Sized (k : Nat) (d : Decimal) : Prop where
  most : |d.value| ≤ 10 ^ k
  least : d.value = 0 ∨ 1 ≤ |d.value| * 10 ^ k

/-- The power of ten that bounds the finite reals and their reciprocals. -/
def Real64.size : Nat := 420

theorem Real64.sized {r d : Decimal} (h : ofDecimal r = .finite r) (hvalue : d.value = r.value) :
    d.Sized size := by
  obtain ⟨-, hexponent, hadjusted⟩ := ofDecimal_finite h
  constructor
  · rw [hvalue, ← zpow_natCast]
    refine (abs_value_lt r).le.trans (zpow_le_zpow_right₀ (by norm_num) ?_)
    have hsize : ((size : ℕ) : ℤ) = 420 := rfl
    omega
  · rw [hvalue]
    by_cases hzero : r.isZero = true
    · exact .inl (value_eq_zero.2 hzero)
    · have hone : (1 : ℚ) ≤ r.coefficient := by
        rw [isZero_iff] at hzero
        exact_mod_cast Nat.one_le_iff_ne_zero.2 hzero
      have hunit : (1 : ℚ) ≤ 10 ^ r.exponent * 10 ^ size := by
        rw [← zpow_natCast, ← zpow_add₀ (by norm_num)]
        refine one_le_zpow₀ (by norm_num) ?_
        have hsize : ((size : ℕ) : ℤ) = 420 := rfl
        omega
      refine .inr ?_
      rw [abs_value, mul_assoc]
      exact one_le_mul_of_one_le_of_one_le hone hunit

theorem Decimal.Sized.upto {k : Nat} {d : Decimal} (h : d.Sized k) (hd : 0 ≤ d.value) : d.Upto k :=
  ⟨hd, abs_of_nonneg hd ▸ h.most⟩

namespace Command

/-- What a real gives as text: a moderate amount of its sign, or no finite one. -/
theorem read_settles {x : Real64} (h : x.Held) :
    (∃ d, read x.text.toList = some (.finite d) ∧ d.Sized Real64.size ∧
      (x.isNegative = false → 0 ≤ d.value)) ∨
    ¬x.IsFinite ∧ ∃ n : Numeral, read x.text.toList = some n ∧ ∀ d, n ≠ .finite d := by
  cases x with
  | finite r =>
      obtain ⟨d, hd, hnegative, hvalue⟩ := exists_read_real (h r rfl)
      refine .inl ⟨d, hd, Real64.sized (h r rfl) hvalue, fun hsign => ?_⟩
      simp only [Real64.isNegative, Bool.and_eq_false_iff, Bool.not_eq_false'] at hsign
      rcases hsign with hsign | hsign
      · exact value_nonneg (hnegative.trans hsign)
      · rw [hvalue, value_eq_zero.2 hsign]
  | infinity negative =>
      refine .inr ⟨by rintro ⟨r, ⟨⟩⟩, .infinity negative, ?_, nofun⟩
      cases negative <;> decide +kernel
  | nan => exact .inr ⟨by rintro ⟨r, ⟨⟩⟩, .nan, by decide +kernel, nofun⟩

/-- The amount of a real is a moderate number of its sign, or it is refused as not finite. -/
theorem realAmount_settles {x : Real64} (h : x.Held) :
    (∃ d, (realAmount x).toDecimal = .ok d ∧ d.Sized Real64.size ∧
      (x.isNegative = false → 0 ≤ d.value)) ∨
    ¬x.IsFinite ∧ ∃ given, (realAmount x).toDecimal = .error (.notFinite given) := by
  unfold realAmount
  obtain ⟨d, hd, hsized, hsign⟩ | ⟨hx, n, hn, hinfinite⟩ := read_settles h
  · exact .inl ⟨d, by rw [hd]; rfl, hsized, hsign⟩
  · refine .inr ⟨hx, ?_⟩
    rw [hn]
    cases n with
    | finite d => exact absurd rfl (hinfinite d)
    | _ => exact ⟨_, rfl⟩

theorem held_of_asReal {s : String} {x : Real64} (h : asReal s = some x) : x.Held := by
  unfold asReal at h
  extract_lets cs signed word at h
  split at h
  · cases h
  · split at h
    · rw [← Option.some.inj h]
      nofun
    · split at h
      · rw [← Option.some.inj h]
        nofun
      · obtain ⟨d, -, rfl⟩ := Option.map_eq_some_iff.1 h
        exact Real64.held_of_ofDecimal d

end Command

end Payroll
