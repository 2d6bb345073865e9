import Mathlib
import Payroll.Proofs.DecimalQuotient
import Payroll.Proofs.RoundingOrder
import Payroll.Real64

/-!
The decimal that a binary real is held as reads back to it. The search for it ends, since among
seventeen digits there is always one near enough.
-/

namespace Payroll

open Decimal

namespace Real64

variable {num den m : Nat} {e k : Int} {x : ℚ}

theorem two_zpow_pos (e : Int) : (0 : ℚ) < 2 ^ e := by positivity

theorem cast_shiftLeft (n k : Nat) : ((n <<< k : ℕ) : ℚ) = n * 2 ^ k := by
  rw [Nat.shiftLeft_eq]
  push_cast
  rfl

/-- Shifts of numerator and denominator divide by a power of two. -/
theorem shift_div (num den : Nat) (e : Int) :
    ((num <<< (-e).toNat : ℕ) : ℚ) / (den <<< e.toNat : ℕ) = num / den / 2 ^ e := by
  have htwo : (2 : ℚ) ^ e = 2 ^ e.toNat / 2 ^ (-e).toNat := by
    rw [← zpow_natCast, ← zpow_natCast, ← zpow_sub₀ (by norm_num)]
    congr 1
    omega
  rw [cast_shiftLeft, cast_shiftLeft, htwo, mul_div_mul_comm, div_div_eq_mul_div, mul_div_assoc]

theorem roundDiv_eq (num : Nat) (hden : 0 < den) :
    (roundDiv num den : ℤ) = Rounding.nearest .halfEven ((num : ℚ) / den) := by
  have hpos : (0 : ℚ) < den := Nat.cast_pos.2 hden
  obtain ⟨hsplit, hone⟩ := div_eq_add_rest num hden
  have hlt : ((num % den : ℕ) : ℚ) / den < 1 / 2 ↔ 2 * (num % den) < den := by
    rw [div_lt_div_iff₀ hpos two_pos, one_mul, mul_comm]
    exact_mod_cast Iff.rfl
  have heq : ((num % den : ℕ) : ℚ) / den = 1 / 2 ↔ 2 * (num % den) = den := by
    rw [div_eq_div_iff hpos.ne' two_ne_zero, one_mul, mul_comm]
    exact_mod_cast Iff.rfl
  rw [hsplit, nearest_halfEven_add (by positivity) hone, roundDiv]
  simp only [hlt, heq, Int.even_coe_nat, Nat.even_iff]
  split_ifs <;> first | rfl | omega

/-! ### The exponent -/

/-- A number that is scaled by the power of two with the exponent `e`: to 53 binary digits, or to
fewer at the least exponent there is. -/
structure Scale (e : Int) (x : ℚ) : Prop where
  least : -1074 ≤ e
  low : e = -1074 ∨ 2 ^ (e + 52) ≤ x
  high : x < 2 ^ (e + 53)

theorem Scale.unique {f : Int} (h : Scale e x) (h' : Scale f x) : e = f := by
  have hle {e f : Int} (h : Scale e x) (h' : Scale f x) : e ≤ f := by
    rcases h.low with rfl | hlow
    · exact h'.least
    · have := (zpow_lt_zpow_iff_right₀ (by norm_num)).1 (hlow.trans_lt h'.high)
      omega
  exact le_antisymm (hle h h') (hle h' h)

theorem fits_iff (num : Nat) (hden : 0 < den) (k : Int) :
    den <<< k.toNat ≤ num <<< (-k).toNat ↔ (2 : ℚ) ^ k ≤ num / den := by
  have hpos : (0 : ℚ) < (den <<< k.toNat : ℕ) := by
    rw [cast_shiftLeft]
    have : (0 : ℚ) < den := Nat.cast_pos.2 hden
    positivity
  rw [← one_le_div₀ (two_zpow_pos k), ← shift_div, one_le_div₀ hpos, Nat.cast_le]

theorem scale_binaryExponent (hnum : 0 < num) (hden : 0 < den) :
    Scale (binaryExponent num den) ((num : ℚ) / den) := by
  have hn : (0 : ℚ) < num := Nat.cast_pos.2 hnum
  have hd : (0 : ℚ) < den := Nat.cast_pos.2 hden
  have hnlow : (2 : ℚ) ^ (Nat.log2 num : Int) ≤ num := by
    rw [zpow_natCast]
    exact_mod_cast Nat.log2_self_le hnum.ne'
  have hnhigh : (num : ℚ) < 2 ^ ((Nat.log2 num : Int) + 1) := by
    have : num < 2 ^ (Nat.log2 num + 1) := Nat.lt_log2_self
    exact_mod_cast this
  have hdlow : (2 : ℚ) ^ (Nat.log2 den : Int) ≤ den := by
    rw [zpow_natCast]
    exact_mod_cast Nat.log2_self_le hden.ne'
  have hdhigh : (den : ℚ) < 2 ^ ((Nat.log2 den : Int) + 1) := by
    have : den < 2 ^ (Nat.log2 den + 1) := Nat.lt_log2_self
    exact_mod_cast this
  have hlow : (2 : ℚ) ^ ((Nat.log2 num : Int) - Nat.log2 den - 1) < num / den := by
    rw [sub_sub, zpow_sub₀ (by norm_num)]
    exact div_lt_div₀' hnlow hdhigh hn hd
  have hhigh : (num : ℚ) / den < 2 ^ ((Nat.log2 num : Int) - Nat.log2 den + 1) := by
    rw [sub_add_eq_add_sub, zpow_sub₀ (by norm_num)]
    exact div_lt_div₀ hnhigh hdlow (by positivity) (two_zpow_pos _)
  have hfits := fits_iff num hden ((Nat.log2 num : Int) - Nat.log2 den - 52 + 52)
  rw [binaryExponent]
  simp only [hfits]
  generalize (Nat.log2 num : Int) - Nat.log2 den = l at hlow hhigh ⊢
  rw [sub_add_cancel]
  split
  · next hle =>
    refine ⟨le_max_left _ _, ?_, hhigh.trans_le (zpow_le_zpow_right₀ (by norm_num) (by omega))⟩
    rcases le_total (l - 52) (-1074) with h | h
    · exact .inl (max_eq_left h)
    · rw [max_eq_right h, sub_add_cancel]
      exact .inr hle
  · next hlt =>
    rw [not_le] at hlt
    refine ⟨le_max_left _ _, ?_, hlt.trans_le (zpow_le_zpow_right₀ (by norm_num) (by omega))⟩
    rcases le_total (l - 52 - 1) (-1074) with h | h
    · exact .inl (max_eq_left h)
    · have hexponent : l - 52 - 1 + 52 = l - 1 := by ring
      rw [max_eq_right h, hexponent]
      exact .inr hlow.le

/-! ### The binary real that a decimal is taken for -/

/-- The number is rounded to `m · 2 ^ e`; one that is rounded up to a power of two has the next
scale. -/
inductive Rounds (x : ℚ) : Nat → Int → Prop
  | same {m : Nat} {e : Int} (scale : Scale e x)
      (rounded : Rounding.nearest .halfEven (x / 2 ^ e) = m) (hm : m ≠ 2 ^ 53) : Rounds x m e
  | carried {e : Int} (scale : Scale e x)
      (rounded : Rounding.nearest .halfEven (x / 2 ^ e) = (2 ^ 53 : ℕ)) : Rounds x (2 ^ 52) (e + 1)

/-- The magnitudes of binary reals other than zero are `m · 2 ^ e` with such `m` and `e`. -/
structure Normal (m : Nat) (e : Int) : Prop where
  pos : 0 < m
  lt : m < 2 ^ 53
  least : -1074 ≤ e
  greatest : e ≤ 971
  full : e = -1074 ∨ 2 ^ 52 ≤ m

theorem ofDecimal_of_isZero {d : Decimal} (h : d.isZero = true) :
    ofDecimal d = .finite ⟨d.negative, 0, 0⟩ := by
  rw [ofDecimal, if_pos (.inl h)]

/-- A number within the range in which the exponent is looked for. -/
theorem ofDecimal_eq {d : Decimal} (hd : d.isZero = false) (hlow : -400 ≤ d.adjusted)
    (hhigh : d.adjusted ≤ 400) :
    ∃ (m : Nat) (e : Int), Scale e |d.value| ∧
      Rounding.nearest .halfEven (|d.value| / 2 ^ e) = m ∧
      ofDecimal d =
        if m = 0 then .finite ⟨d.negative, 0, 0⟩
        else if 971 < e ∨ (e = 971 ∧ m = 2 ^ 53) then .infinity d.negative
        else if m = 2 ^ 53 then ofScaled d.negative (2 ^ 52) (e + 1)
        else ofScaled d.negative m e := by
  have hnum : 0 < d.coefficient * pow10 d.exponent.toNat :=
    Nat.mul_pos (Nat.pos_of_ne_zero fun h => by simp [Decimal.isZero, h] at hd) (pow10_pos _)
  have hden := pow10_pos (-d.exponent).toNat
  have hvalue : ((d.coefficient * pow10 d.exponent.toNat : ℕ) : ℚ) / pow10 (-d.exponent).toNat =
      |d.value| := by
    rw [Nat.cast_mul, mul_div_assoc, pow10_div_pow10, abs_value]
  have hscale := scale_binaryExponent hnum hden
  rw [hvalue] at hscale
  have hunit (e : Int) : 0 < pow10 (-d.exponent).toNat <<< e.toNat := by
    rw [Nat.shiftLeft_eq]
    positivity
  have hrounded (e : Int) := roundDiv_eq
    ((d.coefficient * pow10 d.exponent.toNat) <<< (-e).toNat) (hunit e)
  simp only [shift_div, hvalue] at hrounded
  refine ⟨_, _, hscale, (hrounded _).symm, ?_⟩
  rw [ofDecimal, if_neg (by simp [hd]; omega), if_neg (by omega)]
  rfl

theorem normal_of_scale (hscale : Scale e x)
    (hm : Rounding.nearest .halfEven (x / 2 ^ e) = m) (hpos : m ≠ 0) (hlt : m ≠ 2 ^ 53)
    (he : e ≤ 971) : Normal m e := by
  have htwo := two_zpow_pos e
  have hle : m ≤ 2 ^ 53 := by
    have hx : x / 2 ^ e ≤ ((2 ^ 53 : ℕ) : ℤ) := by
      rw [div_le_iff₀ htwo]
      have hsum : (2 : ℚ) ^ (e + 53) = (2 ^ 53 : ℕ) * 2 ^ e := by
        rw [zpow_add₀ (by norm_num), mul_comm]
        norm_num
      exact_mod_cast (hscale.high.trans_eq hsum).le
    have : Rounding.halfEven.nearest (x / 2 ^ e) ≤ (2 ^ 53 : ℕ) := Rounding.nearest_le hx
    omega
  refine ⟨by omega, by omega, hscale.least, he, hscale.low.imp_right fun hlow => ?_⟩
  have hx : (((2 ^ 52 : ℕ) : ℤ) : ℚ) ≤ x / 2 ^ e := by
    rw [le_div_iff₀ htwo]
    have hsum : (2 : ℚ) ^ (e + 52) = (2 ^ 52 : ℕ) * 2 ^ e := by
      rw [zpow_add₀ (by norm_num), mul_comm]
      norm_num
    exact_mod_cast hsum.symm.trans_le hlow
  have : ((2 ^ 52 : ℕ) : ℤ) ≤ Rounding.halfEven.nearest (x / 2 ^ e) := Rounding.le_nearest hx
  omega

theorem ofDecimal_of_rounds {d : Decimal} (hd : d.isZero = false) (hlow : -400 ≤ d.adjusted)
    (hhigh : d.adjusted ≤ 400) (hm : 0 < m) (he : e ≤ 971) (h : Rounds |d.value| m e) :
    ofDecimal d = ofScaled d.negative m e := by
  obtain ⟨n, f, hscale, hn, heq⟩ := ofDecimal_eq hd hlow hhigh
  rw [heq]
  cases h with
  | same hscale' hrounded hne =>
      obtain rfl := hscale.unique hscale'
      rw [hn, Nat.cast_inj] at hrounded
      subst hrounded
      rw [if_neg hm.ne', if_neg (by omega), if_neg hne]
  | carried hscale' hrounded =>
      obtain rfl := hscale.unique hscale'
      rw [hn, Nat.cast_inj] at hrounded
      subst hrounded
      rw [if_neg (by norm_num), if_neg (by omega), if_pos rfl]

/-- A finite binary real is zero, or it is made from a magnitude. -/
theorem ofDecimal_cases {d r : Decimal} (h : ofDecimal d = .finite r) :
    r = ⟨d.negative, 0, 0⟩ ∨ ∃ m e, Normal m e ∧ ofScaled d.negative m e = .finite r := by
  by_cases hzero : d.isZero ∨ d.adjusted < -400
  · rw [ofDecimal, if_pos hzero] at h
    exact .inl (finite.inj h).symm
  · by_cases hhigh : 400 < d.adjusted
    · rw [ofDecimal, if_neg hzero, if_pos hhigh] at h
      cases h
    · rw [not_or, Bool.not_eq_true, not_lt] at hzero
      obtain ⟨m, e, hscale, hm, heq⟩ := ofDecimal_eq hzero.1 hzero.2 (not_lt.1 hhigh)
      rw [heq] at h
      split at h
      · exact .inl (finite.inj h).symm
      · next hpos =>
        split at h
        · cases h
        · next hfinite =>
          rw [not_or, not_lt] at hfinite
          split at h
          · next hcarry =>
            have := hscale.least
            refine .inr ⟨2 ^ 52, e + 1, ?_, h⟩
            exact ⟨by norm_num, by norm_num, by omega, by omega, .inr le_rfl⟩
          · next hne => exact .inr ⟨m, e, normal_of_scale hscale hm hpos hne hfinite.1, h⟩

/-! ### What reads back -/

/-- Where the numbers begin that round to `m · 2 ^ e`, in units of `2 ^ e`. Below a power of two
the next real is only half a unit away. -/
def lowEdge (m : Nat) (e : Int) : ℚ := if m = 2 ^ 52 ∧ -1074 < e then m - 1 / 4 else m - 1 / 2

/-- The number, in units of `2 ^ e`, lies where all round to `m · 2 ^ e`. -/
def Near (m : Nat) (e : Int) (y : ℚ) : Prop :=
  if Even m then lowEdge m e ≤ y ∧ y ≤ m + 1 / 2 else lowEdge m e < y ∧ y < m + 1 / 2

theorem Near.le {y : ℚ} (h : Near m e y) : lowEdge m e ≤ y ∧ y ≤ m + 1 / 2 := by
  rw [Near] at h
  split at h
  · exact h
  · exact ⟨h.1.le, h.2.le⟩

theorem le_lowEdge (m : Nat) (e : Int) : (m : ℚ) - 1 / 2 ≤ lowEdge m e := by
  rw [lowEdge]
  split <;> linarith

theorem lowEdge_le (m : Nat) (e : Int) : lowEdge m e ≤ (m : ℚ) - 1 / 4 := by
  rw [lowEdge]
  split <;> linarith

theorem readsBack_iff (hm : 0 < m) (hden : 0 < den) (num : Nat) (e : Int) :
    readsBack m e num den = true ↔ Near m e (num / den / 2 ^ e) := by
  have hunit : (0 : ℚ) < (den <<< e.toNat : ℕ) := by
    rw [cast_shiftLeft]
    have : (0 : ℚ) < den := Nat.cast_pos.2 hden
    positivity
  have hquotient : (((4 * num) <<< (-e).toNat : ℕ) : ℚ) =
      4 * (num / den / 2 ^ e) * (den <<< e.toNat : ℕ) := by
    rw [eq_comm, ← eq_div_iff hunit.ne', shift_div]
    push_cast
    ring
  have hle (c : Nat) : c * (den <<< e.toNat) ≤ (4 * num) <<< (-e).toNat ↔
      (c : ℚ) ≤ 4 * (num / den / 2 ^ e) := by
    rw [← Nat.cast_le (α := ℚ), hquotient, Nat.cast_mul, mul_le_mul_iff_left₀ hunit]
  have hge (c : Nat) : (4 * num) <<< (-e).toNat ≤ c * (den <<< e.toNat) ↔
      4 * (num / den / 2 ^ e) ≤ (c : ℚ) := by
    rw [← Nat.cast_le (α := ℚ), hquotient, Nat.cast_mul, mul_le_mul_iff_left₀ hunit]
  generalize (num : ℚ) / den / 2 ^ e = y at hle hge
  have hlow : ((4 * m - 1 : ℕ) : ℚ) = 4 * m - 1 ∧ ((4 * m - 2 : ℕ) : ℚ) = 4 * m - 2 :=
    ⟨by rw [Nat.cast_sub (by omega)]; norm_num, by rw [Nat.cast_sub (by omega)]; norm_num⟩
  rw [Near, lowEdge, readsBack]
  simp only [Nat.even_iff, Nat.one_shiftLeft]
  split <;> split <;>
    simp only [Bool.and_eq_true, decide_eq_true_eq, ← not_le, hle, hge, hlow, Nat.cast_add,
      Nat.cast_mul, Nat.cast_ofNat] <;>
    refine and_congr ?_ ?_ <;> constructor <;> intro <;> linarith

/-- The integer half a unit around which contains a number is the nearest one. -/
theorem nearest_halfEven_eq {n : ℤ} {y : ℚ} (hlow : (n : ℚ) - 1 / 2 ≤ y) (hhigh : y ≤ n + 1 / 2)
    (hodd : ¬Even n → (n : ℚ) - 1 / 2 < y ∧ y < n + 1 / 2) : Rounding.nearest .halfEven y = n := by
  obtain ⟨k, f, h₀, h₁, rfl⟩ := Rounding.exists_split y
  have hle : k ≤ n := by
    have : (k : ℚ) < (n + 1 : ℤ) := by push_cast; linarith
    have := Int.cast_lt.1 this
    omega
  have hge : n - 1 ≤ k := by
    have : ((n - 2 : ℤ) : ℚ) < k := by push_cast; linarith
    have := Int.cast_lt.1 this
    omega
  rw [nearest_halfEven_add h₀ h₁]
  obtain rfl | rfl : k = n ∨ n = k + 1 := by omega
  · refine if_pos ?_
    rcases (show f ≤ 1 / 2 by linarith).lt_or_eq with hf | hf
    · exact .inl hf
    · refine .inr ⟨hf, ?_⟩
      by_contra hk
      linarith [(hodd hk).2]
  · refine if_neg ?_
    push_cast at hlow
    rintro (hf | ⟨hf, hk⟩)
    · linarith
    · have := (hodd (by rwa [Int.even_add_one, not_not])).1
      push_cast at this
      linarith

theorem Near.nearest_eq {y : ℚ} (h : Near m e y) : Rounding.nearest .halfEven y = m := by
  have hedge := le_lowEdge m e
  obtain ⟨hlow, hhigh⟩ := h.le
  refine nearest_halfEven_eq (by push_cast; linarith) (by push_cast; linarith) fun hodd => ?_
  rw [Int.even_coe_nat] at hodd
  rw [Near, if_neg hodd] at h
  push_cast
  exact ⟨by linarith, h.2⟩

/-- All numbers near a binary real are rounded to it. -/
theorem Normal.rounds (h : Normal m e) (hx : Near m e (x / 2 ^ e)) : Rounds x m e := by
  have htwo := two_zpow_pos e
  have hm : (m : ℚ) + 1 ≤ 2 ^ 53 := by exact_mod_cast h.lt
  have hsplit (j : Int) : (2 : ℚ) ^ (e + j) = 2 ^ j * 2 ^ e := by
    rw [zpow_add₀ (by norm_num), mul_comm]
  have hhigh : x < 2 ^ (e + 53) := by
    rw [hsplit, ← div_lt_iff₀ htwo]
    have := hx.le.2
    norm_num at hm ⊢
    linarith
  by_cases hlow : e = -1074 ∨ 2 ^ (e + 52) ≤ x
  · exact .same ⟨h.least, hlow, hhigh⟩ hx.nearest_eq h.lt.ne
  · -- then `m` is the power of two, and the number lies on the scale below
    rw [not_or, not_le] at hlow
    obtain ⟨hleast, hlow⟩ := hlow
    have hfull := h.full.resolve_left hleast
    have hbelow : x / 2 ^ e < 2 ^ 52 := by
      rw [hsplit] at hlow
      exact_mod_cast (div_lt_iff₀ htwo).2 hlow
    have hedge := hx.le.1
    obtain rfl : m = 2 ^ 52 := by
      by_contra hne
      have hnext : (2 : ℚ) ^ 52 + 1 ≤ m := by exact_mod_cast (show 2 ^ 52 + 1 ≤ m by omega)
      linarith [le_lowEdge m e]
    rw [lowEdge, if_pos ⟨rfl, lt_of_le_of_ne h.least (Ne.symm hleast)⟩] at hedge
    push_cast at hedge
    have hdouble : x / 2 ^ (e - 1) = 2 * (x / 2 ^ e) := by
      rw [zpow_sub_one₀ (by norm_num)]
      field_simp
    have hnearest : Rounding.nearest .halfEven (x / 2 ^ (e - 1)) = (2 ^ 53 : ℕ) := by
      rw [hdouble]
      refine nearest_halfEven_eq ?_ ?_ fun hodd => absurd ?_ hodd
      · push_cast
        linarith
      · push_cast
        linarith
      · exact ⟨2 ^ 52, by norm_num⟩
    have hscale : Scale (e - 1) x := by
      have := h.least
      refine ⟨by omega, .inr ?_, ?_⟩
      · rw [show e - 1 + 52 = e + 51 by ring, hsplit, ← le_div_iff₀ htwo]
        norm_num at hedge ⊢
        linarith
      · rwa [show e - 1 + 53 = e + 52 by ring]
    have hcarried := Rounds.carried hscale hnearest
    rwa [sub_add_cancel] at hcarried

/-! ### The search for the shortest decimal -/

theorem Near.of_close {y : ℚ} (h : |y - m| < 1 / 4) : Near m e y := by
  obtain ⟨hlow, hhigh⟩ := abs_lt.1 h
  have hedge := lowEdge_le m e
  rw [Near]
  split
  · exact ⟨by linarith, by linarith⟩
  · exact ⟨by linarith, by linarith⟩

theorem magnitude_eq (m : Nat) (e : Int) :
    ((m <<< e.toNat : ℕ) : ℚ) / (1 <<< (-e).toNat : ℕ) = m * 2 ^ e := by
  have h := shift_div m 1 (-e)
  rwa [neg_neg, Nat.cast_one, div_one, zpow_neg, div_inv_eq_mul] at h

theorem pow_leading_le (hnum : 0 < num) (hden : 0 < den) :
    (10 : ℚ) ^ leading num den ≤ num / den := by
  have hn : (0 : ℚ) < num := Nat.cast_pos.2 hnum
  have hd : (0 : ℚ) < den := Nat.cast_pos.2 hden
  rw [leading]
  split
  · next hle =>
    have hpow := pow10_digitCount_le (Nat.div_pos hle hden).ne'
    have hdigits := digitCount_pos (num / den)
    obtain ⟨k, hk⟩ : ∃ k, digitCount (num / den) = k + 1 :=
      ⟨_, (Nat.succ_pred_eq_of_pos hdigits).symm⟩
    rw [hk, Nat.add_sub_cancel, Nat.le_div_iff_mul_le hden] at hpow
    rw [hk, Nat.cast_succ, add_sub_cancel_right, zpow_natCast, le_div_iff₀ hd, ← cast_pow10]
    exact_mod_cast hpow
  · have hlt := lt_pow10_digitCount ((den - 1) / num)
    rw [Nat.div_lt_iff_lt_mul hnum] at hlt
    have hle : den ≤ pow10 (digitCount ((den - 1) / num)) * num := by omega
    rw [zpow_neg, zpow_natCast, ← cast_pow10,
      inv_le_comm₀ (Nat.cast_pos.2 (pow10_pos _)) (by positivity), inv_div, div_le_iff₀ hn]
    exact_mod_cast hle

theorem le_leading {k : Nat} (hk : 0 < k) (hden : den ≤ pow10 k) :
    -(k : Int) ≤ leading num den := by
  have hpos := pow10_pos k
  rw [leading]
  split
  · have := digitCount_pos (num / den)
    omega
  · have := digitCount_le ((Nat.div_le_self (den - 1) num).trans_lt (by omega)) hk
    omega

theorem near_of_onGrid {n : Nat} (hm : 0 < m) (h : onGrid m e k = some n) :
    Near m e (n * 10 ^ k / 2 ^ e) := by
  have hread := List.find?_some h
  rwa [readsBack_iff hm (pow10_pos _), Nat.cast_mul, mul_div_assoc, pow10_div_pow10] at hread

/-- On a fine enough grid the decimal nearest to the number reads back. -/
theorem onGrid_isSome (hm : 0 < m) (h : 4 * (10 : ℚ) ^ k < 2 ^ e) : (onGrid m e k).isSome := by
  have hten := ten_zpow_pos k
  have htwo := two_zpow_pos e
  have hden : 0 < 1 <<< (-e).toNat * pow10 k.toNat := by
    have := pow10_pos k.toNat
    rw [Nat.one_shiftLeft]
    positivity
  have hnear := roundDiv_eq (m <<< e.toNat * pow10 (-k).toNat) hden
  have hquotient : ((m <<< e.toNat * pow10 (-k).toNat : ℕ) : ℚ) /
      (1 <<< (-e).toNat * pow10 k.toNat : ℕ) = m * 2 ^ e / 10 ^ k := by
    have hpow := pow10_div_pow10 (-k)
    rw [neg_neg] at hpow
    rw [Nat.cast_mul, Nat.cast_mul, mul_div_mul_comm, magnitude_eq, hpow, zpow_neg, div_eq_mul_inv]
  rw [hquotient] at hnear
  have hdistance := Rounding.halfEven.abs_nearest_sub_le (m * 2 ^ e / 10 ^ k : ℚ)
  rw [← hnear, Int.cast_natCast] at hdistance
  rw [onGrid]
  refine List.find?_isSome.2 ⟨_, List.mem_cons_self, ?_⟩
  rw [readsBack_iff hm (pow10_pos _), Nat.cast_mul, mul_div_assoc, pow10_div_pow10]
  generalize ((roundDiv _ _ : ℕ) : ℚ) = n at hdistance ⊢
  refine .of_close ?_
  have hscaled : n * 10 ^ k / 2 ^ e - m = (n - m * 2 ^ e / 10 ^ k) * (10 ^ k / 2 ^ e) := by
    field_simp
  rw [hscaled, abs_mul, abs_of_pos (div_pos hten htwo)]
  calc |n - m * 2 ^ e / 10 ^ k| * (10 ^ k / 2 ^ e) ≤ 1 * (10 ^ k / 2 ^ e) := by gcongr
    _ < 1 / 4 := by rw [one_mul, div_lt_div_iff₀ htwo four_pos]; linarith

theorem shortest_eq {fuel : Nat} (h : ∃ j < fuel, (onGrid m e (k - j)).isSome) :
    ∃ (n : Nat) (l : Int), k - fuel < l ∧ onGrid m e l = some n ∧
      shortest m e fuel k = dropZeros n l := by
  induction fuel generalizing k with
  | zero =>
      obtain ⟨j, hj, -⟩ := h
      cases hj
  | succ fuel ih =>
      rw [shortest]
      cases hgrid : onGrid m e k with
      | some n => exact ⟨n, k, by push_cast; omega, hgrid, rfl⟩
      | none =>
          obtain ⟨j, hj, hsome⟩ := h
          cases j with
          | zero => simp [hgrid] at hsome
          | succ j =>
              have hnext : k - (j + 1 : ℕ) = k - 1 - j := by push_cast; ring
              rw [hnext] at hsome
              obtain ⟨n, l, hl, hn, heq⟩ := ih ⟨j, by omega, hsome⟩
              exact ⟨n, l, by push_cast; omega, hn, heq⟩

theorem dropZeros_spec (n : Nat) (e : Int) :
    ((dropZeros n e).1 : ℚ) * 10 ^ (dropZeros n e).2 = n * 10 ^ e ∧ e ≤ (dropZeros n e).2 := by
  fun_induction dropZeros n e with
  | case1 n e h ih =>
      refine ⟨?_, by omega⟩
      have hn : ((n / 10 : ℕ) : ℚ) * 10 = n := by
        exact_mod_cast Nat.div_mul_cancel (Nat.dvd_of_mod_eq_zero h.1)
      rw [ih.1, zpow_add_one₀ (by norm_num), ← mul_assoc, mul_right_comm, hn]
  | case2 n e h => exact ⟨rfl, le_rfl⟩

/-- Seventeen digits of a number are fine enough. -/
theorem Normal.onGrid_isSome (h : Normal m e) :
    (onGrid m e (leading (m <<< e.toNat) (1 <<< (-e).toNat) - 17)).isSome := by
  have htwo := two_zpow_pos e
  have hnum : 0 < m <<< e.toNat := by
    have := h.pos
    rw [Nat.shiftLeft_eq]
    positivity
  have hden : 0 < 1 <<< (-e).toNat := by
    rw [Nat.one_shiftLeft]
    positivity
  have hpow := pow_leading_le hnum hden
  rw [magnitude_eq] at hpow
  have hm : 4 * (m : ℚ) < 10 ^ (17 : Int) := by
    have : (4 * m : ℚ) < 4 * 2 ^ 53 := by exact_mod_cast Nat.mul_lt_mul_of_pos_left h.lt four_pos
    norm_num at this ⊢
    linarith
  refine Real64.onGrid_isSome h.pos ?_
  rw [zpow_sub₀ (by norm_num), mul_div_assoc', div_lt_iff₀ (by positivity)]
  calc 4 * (10 : ℚ) ^ leading (m <<< e.toNat) (1 <<< (-e).toNat) ≤ 4 * (m * 2 ^ e) :=
        mul_le_mul_of_nonneg_left hpow four_pos.le
    _ = 4 * m * 2 ^ e := (mul_assoc _ _ _).symm
    _ < 10 ^ (17 : Int) * 2 ^ e := mul_lt_mul_of_pos_right hm htwo
    _ = 2 ^ e * 10 ^ (17 : Int) := mul_comm _ _

theorem two_pow_le_pow10 {j n : Nat} (h : j ≤ 11 * n) : 2 ^ j ≤ pow10 (4 * n) := by
  refine (Nat.pow_le_pow_right two_pos h).trans ?_
  change 2 ^ (11 * n) ≤ 10 ^ (4 * n)
  rw [pow_mul, pow_mul]
  exact Nat.pow_le_pow_left (by norm_num) n

theorem two_zpow_lt_ten_zpow (n : Nat) (h : k < 11 * n) : (2 : ℚ) ^ k < 10 ^ (4 * n : Int) := by
  refine (zpow_lt_zpow_right₀ (by norm_num) h).trans_le ?_
  rw [zpow_mul, zpow_mul, zpow_natCast, zpow_natCast]
  exact pow_le_pow_left₀ (by norm_num) (by norm_num) n

/-- The decimal of a binary real reads back to it. -/
theorem exists_ofScaled (h : Normal m e) (negative : Bool) :
    ∃ r : Decimal, ofScaled negative m e = .finite r ∧ r.negative = negative ∧
      Near m e (|r.value| / 2 ^ e) ∧ -420 ≤ r.exponent := by
  obtain ⟨n, k, hk, hn, heq⟩ := shortest_eq ⟨17, show 17 < 18 by decide, h.onGrid_isSome⟩
  obtain ⟨hvalue, hexponent⟩ := dropZeros_spec n k
  refine ⟨⟨negative, _, _⟩, by rw [ofScaled], rfl, ?_, ?_⟩
  · rw [abs_value, heq, hvalue]
    exact near_of_onGrid h.pos hn
  · have hden : 1 <<< (-e).toNat ≤ pow10 (4 * 100) := by
      have := h.least
      rw [Nat.one_shiftLeft]
      exact two_pow_le_pow10 (by omega)
    have hlow : -(4 * 100 : ℕ) ≤ leading (m <<< e.toNat) (1 <<< (-e).toNat) :=
      le_leading (by decide) hden
    simp only [heq]
    omega

theorem Near.bounds (h : Normal m e) (hx : Near m e (x / 2 ^ e)) :
    (10 : ℚ) ^ (-400 : Int) < x ∧ x < 10 ^ (400 : Int) := by
  have htwo := two_zpow_pos e
  obtain ⟨hlow, hhigh⟩ := hx.le
  have hone : (1 : ℚ) ≤ m := by exact_mod_cast h.pos
  have hm : (m : ℚ) + 1 ≤ 2 ^ 53 := by exact_mod_cast h.lt
  have hedge := le_lowEdge m e
  have hleast : (2 : ℚ) ^ (-1074 : Int) ≤ 2 ^ e := zpow_le_zpow_right₀ (by norm_num) h.least
  have hgreatest : (2 : ℚ) ^ e ≤ 2 ^ (971 : Int) := zpow_le_zpow_right₀ (by norm_num) h.greatest
  have hsmall : (10 : ℚ) ^ (-400 : Int) < 1 / 2 * 2 ^ (-1074 : Int) := by
    have hone : (1 : ℚ) / 2 * 2 ^ (-1074 : Int) = 2 ^ (-1075 : Int) := by
      rw [one_div, ← zpow_neg_one, ← zpow_add₀ (by norm_num)]
      rfl
    rw [hone, zpow_neg, inv_lt_comm₀ (ten_zpow_pos _) (two_zpow_pos _), ← zpow_neg]
    exact two_zpow_lt_ten_zpow 100 (by norm_num)
  have hlarge : (2 : ℚ) ^ 53 * 2 ^ (971 : Int) < 10 ^ (400 : Int) := by
    rw [← zpow_natCast, ← zpow_add₀ (by norm_num)]
    exact two_zpow_lt_ten_zpow 100 (by norm_num)
  constructor
  · refine hsmall.trans_le ?_
    have : 1 / 2 * 2 ^ e ≤ x := by rw [← le_div_iff₀ htwo]; linarith
    linarith
  · refine lt_of_le_of_lt ?_ hlarge
    have : x ≤ 2 ^ 53 * 2 ^ e := by rw [← div_le_iff₀ htwo]; linarith
    have : (2 : ℚ) ^ 53 * 2 ^ e ≤ 2 ^ 53 * 2 ^ (971 : Int) := by gcongr
    linarith

/-! ### Reading a real again -/

/-- A real depends on the sign and the size of the decimal only. -/
theorem ofDecimal_congr {a b : Decimal} (hnegative : a.negative = b.negative)
    (hvalue : a.value = b.value) : ofDecimal a = ofDecimal b := by
  have hzero := isZero_congr hvalue
  cases ha : a.isZero with
  | true => rw [ofDecimal_of_isZero ha, ofDecimal_of_isZero (hzero ▸ ha), hnegative]
  | false =>
      have hb : b.isZero = false := hzero ▸ ha
      have hadjusted := adjusted_eq_of_abs_value_eq ha hb (congrArg abs hvalue)
      by_cases hlow : a.adjusted < -400
      · rw [ofDecimal, ofDecimal, if_pos (.inr hlow), if_pos (.inr (hadjusted ▸ hlow)), hnegative]
      · by_cases hhigh : 400 < a.adjusted
        · rw [ofDecimal, ofDecimal, if_neg (by simp [ha, hlow]), if_pos hhigh,
            if_neg (by simp [hb, ← hadjusted, hlow]), if_pos (hadjusted ▸ hhigh), hnegative]
        · rw [not_lt] at hlow hhigh
          obtain ⟨m, e, hscale, hm, heq⟩ := ofDecimal_eq ha hlow hhigh
          obtain ⟨n, f, hscale', hn, heq'⟩ := ofDecimal_eq hb (hadjusted ▸ hlow) (hadjusted ▸ hhigh)
          rw [hvalue] at hscale hm
          obtain rfl := hscale.unique hscale'
          rw [hm, Nat.cast_inj] at hn
          rw [heq, heq', hn, hnegative]

/-- The decimal that a finite real is held as is taken for the same real, and its exponents are
small. -/
theorem ofDecimal_finite {d r : Decimal} (h : ofDecimal d = .finite r) :
    ofDecimal r = .finite r ∧ -420 ≤ r.exponent ∧ r.adjusted ≤ 400 := by
  rcases ofDecimal_cases h with rfl | ⟨m, e, hm, hr⟩
  · refine ⟨ofDecimal_of_isZero rfl, by norm_num, ?_⟩
    rw [Decimal.adjusted, Decimal.digits, digitCount_zero]
    norm_num
  · obtain ⟨r', hr', hnegative, hnear, hexponent⟩ := exists_ofScaled hm d.negative
    obtain rfl := finite.inj (hr.symm.trans hr')
    obtain ⟨hsmall, hlarge⟩ := hnear.bounds hm
    have hzero : r.isZero = false := by
      rw [← Bool.not_eq_true, ← value_eq_zero, ← abs_eq_zero]
      exact ((ten_zpow_pos _).trans hsmall).ne'
    have hlow : -400 ≤ r.adjusted := by
      have := (zpow_lt_zpow_iff_right₀ (by norm_num)).1 (hsmall.trans (abs_value_lt r))
      omega
    have hhigh : r.adjusted ≤ 400 := (adjusted_le_iff hzero 400).2
      (hlarge.trans_le (zpow_le_zpow_right₀ (by norm_num) (by norm_num)))
    refine ⟨?_, hexponent, hhigh⟩
    rw [ofDecimal_of_rounds hzero hlow hhigh hm.pos hm.greatest (hm.rounds hnear), hnegative, hr]

end Real64

end Payroll
