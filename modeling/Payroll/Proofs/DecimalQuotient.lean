import Mathlib
import Payroll.Proofs.DecimalExact

/-!
Exact quotients and remainders. A quotient that the context holds comes out of the division of the
coefficients without a remainder, and a remainder is that of the quotient cut to an integer.
-/

namespace Payroll

theorem truncated_neg (x : ℚ) : truncated (-x) = -truncated x := by
  rcases lt_trichotomy x 0 with h | rfl | h
  · rw [truncated, truncated, if_pos (by linarith), if_neg (by linarith), Int.floor_neg]
  · simp [truncated]
  · rw [truncated, truncated, if_neg (by linarith), if_pos h.le, Int.ceil_neg]

theorem truncated_div (m n : Nat) : truncated ((m : ℚ) / n) = ((m / n : ℕ) : Int) := by
  rw [truncated, if_pos (by positivity)]
  exact_mod_cast Rat.floor_natCast_div_natCast m n

namespace Decimal

variable {a b d : Decimal} {x y : ℚ}

/-- The value with its sign apart. -/
theorem value_eq_mul (d : Decimal) : d.value = (if d.negative then -1 else 1) * |d.value| := by
  conv_lhs => rw [value_eq]
  split <;> simp

theorem value_mk_eq_mul (s : Bool) (n : Nat) (e : Int) :
    (⟨s, n, e⟩ : Decimal).value = (if s then -1 else 1) * (n * 10 ^ e) := by
  cases s <;> simp [value_mk_neg, value_mk]

theorem quotient_eq_mul (a b : Decimal) : a.value / b.value =
    (if a.negative != b.negative then -1 else 1) * (|a.value| / |b.value|) := by
  conv_lhs => rw [value_eq_mul a, value_eq_mul b]
  cases a.negative <;> cases b.negative <;> simp [neg_div, div_neg]

/-- `y` is not past any multiple of a power of ten that `x` is not past. -/
def Within (e : Int) (x y : ℚ) : Prop :=
  ∀ m : ℤ, (m * 10 ^ e ≤ x → m * 10 ^ e ≤ y) ∧ (x ≤ m * 10 ^ e → y ≤ m * 10 ^ e)

namespace Within

variable {e : Int}

theorem refl (e : Int) (x : ℚ) : Within e x x := fun _ => ⟨id, id⟩

theorem neg (h : Within e x y) : Within e (-x) (-y) := by
  intro m
  have hm : ((-m : ℤ) : ℚ) * 10 ^ e = -(m * 10 ^ e) := by push_cast; ring
  obtain ⟨hlow, hhigh⟩ := h (-m)
  rw [hm] at hlow hhigh
  exact ⟨fun hx => le_neg.1 (hhigh (le_neg.1 hx)), fun hx => neg_le.1 (hlow (neg_le.1 hx))⟩

theorem sign (h : Within e x y) (s : Bool) :
    Within e ((if s then -1 else 1) * x) ((if s then -1 else 1) * y) := by
  cases s with
  | false => simpa using h
  | true => simpa using h.neg

theorem eq_of_int (h : Within e x y) {m : ℤ} (hx : x = m * 10 ^ e) : y = x :=
  le_antisymm (hx ▸ (h m).2 hx.le) (hx ▸ (h m).1 hx.ge)

end Within

theorem pow10_div_pow10 (s : Int) : (pow10 s.toNat : ℚ) / pow10 (-s).toNat = 10 ^ s := by
  rw [cast_pow10, cast_pow10, ← zpow_natCast, ← zpow_natCast, ← zpow_sub₀ (by norm_num)]
  congr 1
  omega

namespace Context

variable {ctx : Context}

theorem value_trimZeros (n : Nat) (e ideal : Int) :
    ((trimZeros n e ideal).1 : ℚ) * 10 ^ (trimZeros n e ideal).2 = n * 10 ^ e := by
  fun_induction trimZeros n e ideal with
  | case1 n e h ih =>
      have hn : (n : ℚ) = (n / 10 : ℕ) * 10 := by
        exact_mod_cast (Nat.div_mul_cancel (Nat.dvd_of_mod_eq_zero h.2.1)).symm
      rw [ih, hn, zpow_add₀ (by norm_num), zpow_one]
      ring
  | case2 => rfl

theorem pow_lt_quotient (ha : a.isZero = false) (hb : b.isZero = false) :
    (10 : ℚ) ^ (a.adjusted - b.adjusted - 1) < |a.value| / |b.value| := by
  have hbpos : 0 < |b.value| := (ten_zpow_pos _).trans_le (pow_adjusted_le hb)
  rw [sub_sub, zpow_sub₀ (by norm_num)]
  exact div_lt_div₀' (pow_adjusted_le ha) (abs_value_lt b)
    ((ten_zpow_pos _).trans_le (pow_adjusted_le ha)) hbpos

/-- A quotient that needs no more digits than the context holds is a whole number of units below the
last digit of the context. -/
theorem exists_quotient (ha : a.isZero = false) (hb : b.isZero = false)
    (h : ctx.Represents (a.value / b.value)) {e : Int}
    (he : e = a.adjusted - b.adjusted - ctx.precision - 1) :
    ∃ k : Nat, |a.value| / |b.value| = k * 10 ^ e := by
  obtain ⟨d, hvalue, hdigits, -, -⟩ := h
  have habs : |d.value| = |a.value| / |b.value| := by rw [hvalue, abs_div]
  have hexponent : e < d.exponent := by
    have hlt := (zpow_lt_zpow_iff_right₀ (by norm_num)).1
      ((pow_lt_quotient ha hb).trans (habs ▸ abs_value_lt d))
    simp only [adjusted] at hlt he
    omega
  exact ⟨_, habs ▸ abs_value_of_le hexponent.le⟩

theorem div_of_isZero {ctx : Context} (ha : a.isZero = true) (hb : b.isZero = false) :
    ctx.div a b = ctx.fit ⟨a.negative != b.negative, 0, a.exponent - b.exponent⟩ := by
  simp only [div, ha, hb, Bool.false_eq_true, ↓reduceIte]

/-- A quotient is fitted from its digits down to one below those of the context, where the last digit
keeps it on the same side of every number with fewer digits. -/
theorem exists_div (ctx : Context) (ha : a.isZero = false) (hb : b.isZero = false) :
    ∃ d, ctx.div a b = ctx.fit d ∧
      Within (a.adjusted - b.adjusted - ctx.precision - 1) (a.value / b.value) d.value := by
  unfold div
  extract_lets negative ideal shift n m e q
  simp only [ha, hb, Bool.false_eq_true, ↓reduceIte]
  have hm : (0 : ℚ) < m := by
    have hne : b.coefficient ≠ 0 := by simpa [isZero] using hb
    exact Nat.cast_pos.2 (Nat.mul_pos (Nat.pos_of_ne_zero hne) (pow10_pos _))
  have he : e = a.adjusted - b.adjusted - ctx.precision - 1 := by
    simp only [e, ideal, shift, adjusted]
    omega
  have hquotient : (n : ℚ) / m * 10 ^ e = |a.value| / |b.value| := by
    have he : e = a.exponent - b.exponent - shift := rfl
    have hshift := (ten_zpow_pos shift).ne'
    rw [abs_value, abs_value, he, zpow_sub₀ (by norm_num), zpow_sub₀ (by norm_num)]
    simp only [n, m, Nat.cast_mul]
    rw [mul_div_mul_comm, pow10_div_pow10]
    field_simp
  have hdigits : (n : ℚ) = m * q + (n % m : ℕ) := by exact_mod_cast (Nat.div_add_mod n m).symm
  rw [← he, quotient_eq_mul, ← hquotient]
  split
  · next hrest =>
    refine ⟨_, rfl, ?_⟩
    rw [hrest, Nat.cast_zero, add_zero] at hdigits
    rw [value_mk_eq_mul, value_trimZeros, hdigits, mul_div_cancel_left₀ _ hm.ne']
    exact Within.refl e _
  · next hrest =>
    refine ⟨_, rfl, ?_⟩
    rw [value_mk_eq_mul]
    refine Within.sign (fun k => ?_) _
    have hpos := ten_zpow_pos e
    have hlow : (q : ℚ) < n / m := by
      rw [lt_div_iff₀ hm, mul_comm]
      have : (0 : ℚ) < (n % m : ℕ) := Nat.cast_pos.2 (Nat.pos_of_ne_zero hrest)
      linarith
    have hhigh : (n : ℚ) / m < q + 1 := by
      rw [div_lt_iff₀ hm, add_mul, one_mul, mul_comm (q : ℚ)]
      have : ((n % m : ℕ) : ℚ) < m := Nat.cast_lt.2 (Nat.mod_lt n (Nat.cast_pos.1 hm))
      linarith
    have hlast : (q : ℚ) ≤ (if q % 5 = 0 then q + 1 else q : ℕ) ∧
        ((if q % 5 = 0 then q + 1 else q : ℕ) : ℚ) ≤ q + 1 := by
      split <;> push_cast <;> constructor <;> linarith
    constructor
    · intro hk
      have hk : (k : ℚ) < q + 1 := (le_of_mul_le_mul_right hk hpos).trans_lt hhigh
      have hk : k ≤ q := Int.lt_add_one_iff.1 (by exact_mod_cast hk)
      have hk : (k : ℚ) ≤ q := by exact_mod_cast hk
      exact mul_le_mul_of_nonneg_right (hk.trans hlast.1) hpos.le
    · intro hk
      have hk : (q : ℚ) < k := hlow.trans_le (le_of_mul_le_mul_right hk hpos)
      have hk : (q : ℤ) + 1 ≤ k := Int.add_one_le_of_lt (by exact_mod_cast hk)
      have hk : (q : ℚ) + 1 ≤ k := by exact_mod_cast hk
      exact mul_le_mul_of_nonneg_right (hlast.2.trans hk) hpos.le

theorem yields_div (hs : ctx.Standard) (hb : b.isZero = false)
    (h : ctx.Represents (a.value / b.value)) :
    ctx.Yields (ctx.div a b) (a.value / b.value) := by
  cases ha : a.isZero with
  | true =>
      rw [div_of_isZero ha hb]
      refine yields_of_value_eq hs ?_ h
      rw [value_zero, value_eq_zero.2 ha, zero_div]
  | false =>
      obtain ⟨d, hd, hwithin⟩ := ctx.exists_div ha hb
      obtain ⟨k, hk⟩ := exists_quotient ha hb h rfl
      rw [hd]
      refine yields_of_value_eq hs ?_ h
      have hint : a.value / b.value =
          (((if a.negative != b.negative then -1 else 1) * k : ℤ) : ℚ) *
            10 ^ (a.adjusted - b.adjusted - ctx.precision - 1) := by
        rw [quotient_eq_mul, hk]
        push_cast
        rw [mul_assoc]
      exact hwithin.eq_of_int hint

section Remainder

variable {n m : Nat} {e : Int}

theorem truncated_quotient (ha : |a.value| = n * 10 ^ e) (hb : |b.value| = m * 10 ^ e) :
    truncated (a.value / b.value) =
      (if a.negative != b.negative then -1 else 1) * ((n / m : ℕ) : Int) := by
  have hdiv : |a.value| / |b.value| = (n : ℚ) / m := by
    rw [ha, hb, mul_div_mul_right _ _ (ten_zpow_pos e).ne']
  rw [quotient_eq_mul, hdiv]
  cases a.negative != b.negative with
  | false => simp only [Bool.false_eq_true, ↓reduceIte, one_mul, truncated_div]
  | true => simp only [↓reduceIte, neg_mul, one_mul, truncated_neg, truncated_div]

theorem value_remainder (ha : |a.value| = n * 10 ^ e) (hb : |b.value| = m * 10 ^ e) :
    (⟨a.negative, n % m, e⟩ : Decimal).value =
      a.value - b.value * truncated (a.value / b.value) := by
  have hmod : ((n % m : ℕ) : ℚ) = n - m * (n / m : ℕ) := by
    rw [eq_sub_iff_add_eq]
    exact_mod_cast Nat.mod_add_div n m
  rw [truncated_quotient ha hb, value_mk_eq_mul, hmod]
  conv_rhs => rw [value_eq_mul a, value_eq_mul b, ha, hb]
  generalize n / m = q
  cases a.negative <;> cases b.negative <;> push_cast <;> simp <;> ring

end Remainder

/-- The remainder has the sign of the dividend, and the quotient is cut to an integer. -/
theorem yields_rem (hs : ctx.Standard) (hb : b.isZero = false)
    (hquotient : |truncated (a.value / b.value)| < 10 ^ ctx.precision)
    (h : ctx.Represents (a.value - b.value * truncated (a.value / b.value))) :
    ctx.Yields (ctx.rem a b) (a.value - b.value * truncated (a.value / b.value)) := by
  unfold rem
  extract_lets e gap n m
  simp only [hb, Bool.false_eq_true, ↓reduceIte]
  cases ha : a.isZero with
  | true =>
      simp only [↓reduceIte]
      refine yields_of_value_eq hs ?_ h
      rw [value_zero, value_eq_zero.2 ha]
      simp [truncated]
  | false =>
      simp only [Bool.false_eq_true, ↓reduceIte]
      have hn : |a.value| = n * 10 ^ e := abs_value_of_le (min_le_left _ _)
      have hm : |b.value| = m * 10 ^ e := abs_value_of_le (min_le_right _ _)
      have hmpos : 0 < m := by
        have hne : b.coefficient ≠ 0 := by simpa [isZero] using hb
        exact Nat.pos_of_ne_zero (Nat.mul_ne_zero hne (pow10_pos _).ne')
      have hresult := value_remainder hn hm
      have hbound : n / m < pow10 ctx.precision := by
        rw [truncated_quotient hn hm, abs_mul] at hquotient
        have hone : |(if a.negative != b.negative then -1 else 1 : Int)| = 1 := by
          split <;> rfl
        rw [hone, one_mul, Nat.abs_cast] at hquotient
        exact_mod_cast hquotient
      split
      · next hgap =>
        have hlt : n < m := by
          have habs : |a.value| < |b.value| :=
            abs_value_lt_of_adjusted_lt hb (sub_neg.1 hgap)
          rw [hn, hm] at habs
          exact_mod_cast lt_of_mul_lt_mul_right habs (ten_zpow_pos e).le
        rw [Nat.mod_eq_of_lt hlt] at hresult
        exact yields_of_value_eq hs hresult h
      · split
        · next hgap =>
          -- the quotient would have too many digits
          have hle : pow10 ctx.precision * m ≤ n := by
            have hlow : (10 : ℚ) ^ ctx.precision * |b.value| ≤ |a.value| := by
              have hprecision : b.adjusted + 1 + ctx.precision ≤ a.adjusted := by omega
              calc (10 : ℚ) ^ ctx.precision * |b.value|
                  ≤ 10 ^ ctx.precision * 10 ^ (b.adjusted + 1) :=
                    mul_le_mul_of_nonneg_left (abs_value_lt b).le (by positivity)
                _ = 10 ^ (b.adjusted + 1 + ctx.precision) := by
                    rw [zpow_add₀ (by norm_num) (b.adjusted + 1), zpow_natCast, mul_comm]
                _ ≤ 10 ^ a.adjusted := zpow_le_zpow_right₀ (by norm_num) hprecision
                _ ≤ |a.value| := pow_adjusted_le ha
            rw [hn, hm, ← mul_assoc, ← cast_pow10] at hlow
            exact_mod_cast le_of_mul_le_mul_right hlow (ten_zpow_pos e)
          exact absurd ((Nat.le_div_iff_mul_le hmpos).2 hle) hbound.not_ge
        · rw [if_neg hbound.not_ge]
          exact yields_of_value_eq hs hresult h

end Context

/-- A decimal without its fraction. -/
theorem truncate_eq (d : Decimal) : d.truncate = truncated d.value := by
  have hsize : ((if d.exponent < 0 then
      if d.digits < d.exponent.natAbs then 0 else d.coefficient / pow10 d.exponent.natAbs
    else d.coefficient * pow10 d.exponent.toNat : ℕ) : ℤ) = truncated |d.value| := by
    rw [abs_value]
    split
    · next he =>
      have hten : (d.coefficient : ℚ) * 10 ^ d.exponent =
          (d.coefficient : ℚ) / pow10 d.exponent.natAbs := by
        have hexponent : d.exponent = -(d.exponent.natAbs : Int) := by omega
        conv_lhs => rw [hexponent, zpow_neg, zpow_natCast, ← cast_pow10]
        rw [div_eq_mul_inv]
      rw [hten, truncated_div]
      split
      · next hlt =>
        have hsmall : d.coefficient < pow10 d.exponent.natAbs :=
          (lt_pow10_digitCount _).trans_le (Nat.pow_le_pow_right (by decide) hlt.le)
        rw [Nat.div_eq_of_lt hsmall]
      · rfl
    · next he =>
      have hten : (d.coefficient : ℚ) * 10 ^ d.exponent =
          ((d.coefficient * pow10 d.exponent.toNat : ℕ) : ℚ) / (1 : ℕ) := by
        have hexponent : d.exponent = (d.exponent.toNat : Int) := by omega
        conv_lhs => rw [hexponent, zpow_natCast, ← cast_pow10]
        push_cast
        ring
      rw [hten, truncated_div, Nat.div_one]
  have hsign (n : ℤ) (hn : n = truncated |d.value|) :
      (if d.negative then -n else n) = truncated d.value := by
    rw [hn, value_eq d]
    split
    · rw [abs_neg, abs_abs, truncated_neg]
    · rw [abs_abs]
  exact hsign _ hsize

end Decimal

end Payroll
