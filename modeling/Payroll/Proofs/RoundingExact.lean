import Mathlib
import Payroll.Formula.Reference
import Payroll.Proofs.DecimalExact

/-!
Exact rounding. Where the rounded value is one that the context holds, rounding a decimal gives what
rounding the number that it denotes gives.
-/

namespace Payroll

open Result

namespace Decimal

variable {d : Decimal}

section Split

variable {m : ℤ} {f : ℚ}

theorem floor_add (h₀ : 0 ≤ f) (h₁ : f < 1) : ⌊(m : ℚ) + f⌋ = m := by
  rw [Int.floor_eq_iff]
  constructor <;> linarith

theorem ceil_add (h₀ : 0 ≤ f) (h₁ : f < 1) : ⌈(m : ℚ) + f⌉ = if f = 0 then m else m + 1 := by
  rw [Int.ceil_eq_iff]
  split
  · constructor <;> linarith
  · next h =>
    have := lt_of_le_of_ne h₀ (Ne.symm h)
    push_cast
    constructor <;> linarith

theorem floor_add_half (h₀ : 0 ≤ f) (h₁ : f < 1) :
    ⌊(m : ℚ) + f + 1 / 2⌋ = if f < 1 / 2 then m else m + 1 := by
  rw [Int.floor_eq_iff]
  split <;> push_cast <;> constructor <;> linarith

theorem ceil_sub_half (h₀ : 0 ≤ f) (h₁ : f < 1) :
    ⌈(m : ℚ) + f - 1 / 2⌉ = if f ≤ 1 / 2 then m else m + 1 := by
  rw [Int.ceil_eq_iff]
  split <;> push_cast <;> constructor <;> linarith

theorem nearest_halfEven_add (h₀ : 0 ≤ f) (h₁ : f < 1) : Rounding.nearest .halfEven (m + f) =
    if f < 1 / 2 ∨ f = 1 / 2 ∧ Even m then m else m + 1 := by
  have hfract : Int.fract ((m : ℚ) + f) = f := by
    rw [Int.fract_intCast_add]
    exact Int.fract_eq_self.2 ⟨h₀, h₁⟩
  rw [Rounding.nearest, hfract, floor_add h₀ h₁, floor_add_half h₀ h₁]
  rcases lt_trichotomy f (1 / 2) with h | h | h
  · simp only [h, h.ne, false_and, ↓reduceIte, true_or]
  · simp only [h, lt_irrefl, true_and, ↓reduceIte, false_or]
  · simp only [h.not_gt, h.ne', false_and, ↓reduceIte, false_or]

end Split

namespace Rounding

/-- The mode for the numbers of the other sign. -/
def flip : Rounding → Rounding
  | .floor => .ceiling
  | .ceiling => .floor
  | mode => mode

theorem raises_true (mode : Rounding) (odd exact : Bool) (half : Ordering) :
    mode.raises true odd exact half = mode.flip.raises false odd exact half := by
  cases mode <;> rfl

theorem nearest_halfEven_neg (x : ℚ) : nearest .halfEven (-x) = -nearest .halfEven x := by
  obtain ⟨m, f, h₀, h₁, rfl⟩ : ∃ (m : ℤ) (f : ℚ), 0 ≤ f ∧ f < 1 ∧ x = m + f :=
    ⟨⌊x⌋, Int.fract x, Int.fract_nonneg x, Int.fract_lt_one x, (Int.floor_add_fract x).symm⟩
  rw [nearest_halfEven_add h₀ h₁]
  rcases eq_or_ne f 0 with rfl | hf
  · have hneg : -((m : ℚ) + 0) = ((-m : ℤ) : ℚ) + 0 := by push_cast; ring
    rw [hneg, nearest_halfEven_add le_rfl (by norm_num)]
    simp
  · have hpos := lt_of_le_of_ne h₀ (Ne.symm hf)
    have hneg : -((m : ℚ) + f) = ((-m - 1 : ℤ) : ℚ) + (1 - f) := by push_cast; ring
    rw [hneg, nearest_halfEven_add (by linarith) (by linarith)]
    have heven : Even (-m - 1) ↔ ¬Even m := by
      rw [Int.even_sub, even_neg]
      simp
    have hlt : 1 - f < 1 / 2 ↔ 1 / 2 < f := by constructor <;> intro h <;> linarith
    have heq : 1 - f = 1 / 2 ↔ f = 1 / 2 := by constructor <;> intro h <;> linarith
    simp only [hlt, heq, heven]
    rcases lt_trichotomy f (1 / 2) with h | h | h
    · simp only [h, h.not_gt, h.ne, false_and, or_false, ↓reduceIte]
      ring
    · by_cases hm : Even m
      · simp [h, hm]
      · simp only [h, hm, lt_irrefl, not_false_eq_true, and_true, false_or, and_false, ↓reduceIte]
        ring
    · simp only [h, h.not_gt, h.ne', false_and, or_false, ↓reduceIte]
      ring

theorem nearest_neg (mode : Rounding) (x : ℚ) : mode.nearest (-x) = -mode.flip.nearest x := by
  have hfloor : ⌊-x + 1 / 2⌋ = -⌈x - 1 / 2⌉ := by
    rw [← Int.floor_neg]
    congr 1
    ring
  have hceil : ⌈-x - 1 / 2⌉ = -⌊x + 1 / 2⌋ := by
    rw [← Int.ceil_neg]
    congr 1
    ring
  cases mode with
  | floor => exact Int.floor_neg
  | ceiling => exact Int.ceil_neg
  | halfEven => exact nearest_halfEven_neg x
  | halfUp =>
      simp only [nearest, flip, Left.nonneg_neg_iff, hfloor, hceil]
      rcases lt_trichotomy x 0 with h | rfl | h
      · rw [if_pos h.le, if_neg h.not_ge]
      · norm_num
      · rw [if_neg h.not_ge, if_pos h.le]
  | halfDown =>
      simp only [nearest, flip, Left.nonneg_neg_iff, hfloor, hceil]
      rcases lt_trichotomy x 0 with h | rfl | h
      · rw [if_pos h.le, if_neg h.not_ge]
      · norm_num
      · rw [if_neg h.not_ge, if_pos h.le]

theorem nearest_intCast (mode : Rounding) (m : ℤ) : mode.nearest m = m := by
  have hm : (m : ℚ) = m + 0 := (add_zero _).symm
  cases mode with
  | floor => exact Int.floor_intCast m
  | ceiling => exact Int.ceil_intCast m
  | halfEven =>
      rw [hm, nearest_halfEven_add le_rfl (by norm_num)]
      simp
  | halfUp | halfDown =>
      rw [hm, nearest, floor_add_half le_rfl (by norm_num), ceil_sub_half le_rfl (by norm_num)]
      simp

variable {n : ℤ} {f : ℚ}

/-- A number that is a fraction above `n` is taken down to it. -/
def Lowers : Rounding → ℤ → ℚ → Prop
  | .floor, _, _ => True
  | .ceiling, _, f => f = 0
  | .halfUp, _, f => f < 1 / 2
  | .halfDown, _, f => f ≤ 1 / 2
  | .halfEven, n, f => f < 1 / 2 ∨ f = 1 / 2 ∧ Even n

instance (mode : Rounding) : Decidable (mode.Lowers n f) :=
  match mode with
  | .floor => .isTrue trivial
  | .ceiling => inferInstanceAs (Decidable (f = 0))
  | .halfUp => inferInstanceAs (Decidable (f < 1 / 2))
  | .halfDown => inferInstanceAs (Decidable (f ≤ 1 / 2))
  | .halfEven => inferInstanceAs (Decidable (f < 1 / 2 ∨ f = 1 / 2 ∧ Even n))

theorem nearest_add (mode : Rounding) (hn : 0 ≤ n) (h₀ : 0 ≤ f) (h₁ : f < 1) :
    mode.nearest (n + f) = if mode.Lowers n f then n else n + 1 := by
  have hnonneg : 0 ≤ (n : ℚ) + f := add_nonneg (by exact_mod_cast hn) h₀
  cases mode with
  | floor => exact (floor_add h₀ h₁).trans (if_pos trivial).symm
  | ceiling => exact ceil_add h₀ h₁
  | halfUp => exact (if_pos hnonneg).trans (floor_add_half h₀ h₁)
  | halfDown => exact (if_pos hnonneg).trans (ceil_sub_half h₀ h₁)
  | halfEven => exact nearest_halfEven_add h₀ h₁

/-- Cut digits raise the kept ones where the fraction that they stand for is not lowered. -/
theorem raises_iff (mode : Rounding) (q : ℕ) (f : ℚ) :
    mode.raises false (q % 2 == 1) (decide (f = 0)) (compare f (1 / 2)) = true ↔
      ¬mode.Lowers q f := by
  have hodd : (q % 2 == 1) = !decide (Even q) := by
    rw [Bool.eq_iff_iff, beq_iff_eq, Bool.not_eq_true', decide_eq_false_iff_not, Nat.not_even_iff]
  rw [hodd]
  rcases lt_trichotomy f (1 / 2) with h | h | h
  · rw [compare_lt_iff_lt.2 h]
    cases mode <;> simp [-one_div, raises, Lowers, h, h.le]
  · rw [compare_eq_iff_eq.2 h]
    cases mode <;> simp [-one_div, raises, Lowers, h]
  · rw [compare_gt_iff_gt.2 h]
    cases mode <;> simp [-one_div, raises, Lowers, h, h.not_gt, h.ne']
end Rounding

theorem compare_half {r p : Nat} (hp : 0 < p) :
    compare (2 * r) p = compare ((r : ℚ) / p) (1 / 2) := by
  have hp' : (0 : ℚ) < p := Nat.cast_pos.2 hp
  have hlt : (r : ℚ) / p < 1 / 2 ↔ 2 * r < p := by
    rw [div_lt_div_iff₀ hp' two_pos, one_mul, mul_comm]
    exact_mod_cast Iff.rfl
  have hgt : 1 / 2 < (r : ℚ) / p ↔ p < 2 * r := by
    rw [div_lt_div_iff₀ two_pos hp', one_mul, mul_comm (r : ℚ)]
    exact_mod_cast Iff.rfl
  rcases lt_trichotomy (2 * r) p with h | h | h
  · rw [compare_lt_iff_lt.2 h, compare_lt_iff_lt.2 (hlt.2 h)]
  · have heq : (r : ℚ) / p = 1 / 2 :=
      le_antisymm (not_lt.1 fun h' => (hgt.1 h').ne h.symm) (not_lt.1 fun h' => (hlt.1 h').ne h)
    rw [compare_eq_iff_eq.2 h, compare_eq_iff_eq.2 heq]
  · rw [compare_gt_iff_gt.2 h, compare_gt_iff_gt.2 (hgt.2 h)]

/-- A quotient is its integer part and a fraction. -/
theorem div_eq_add_rest (n : Nat) {p : Nat} (hp : 0 < p) :
    (n : ℚ) / p = ((n / p : ℕ) : ℤ) + ((n % p : ℕ) : ℚ) / p ∧ ((n % p : ℕ) : ℚ) / p < 1 := by
  have hpos : (0 : ℚ) < p := Nat.cast_pos.2 hp
  constructor
  · rw [Int.cast_natCast, eq_comm, ← mul_left_inj' hpos.ne', add_mul, div_mul_cancel₀ _ hpos.ne',
      div_mul_cancel₀ _ hpos.ne']
    exact_mod_cast Nat.div_add_mod' n p
  · rw [div_lt_one hpos]
    exact_mod_cast Nat.mod_lt n hp

theorem cutDigits_nearest (mode : Rounding) (n k : Nat) :
    (cutDigits mode false n k : ℤ) = mode.nearest ((n : ℚ) / pow10 k) := by
  have hp : (0 : ℚ) < pow10 k := Nat.cast_pos.2 (pow10_pos k)
  obtain ⟨hsplit, h₁⟩ := div_eq_add_rest n (pow10_pos k)
  obtain ⟨f, hf⟩ : ∃ f : ℚ, f = (n % pow10 k : ℕ) / pow10 k := ⟨_, rfl⟩
  rw [← hf] at hsplit h₁
  have h₀ : 0 ≤ f := hf ▸ by positivity
  have hzero : (n % pow10 k == 0) = decide (f = 0) := by
    rw [Bool.eq_iff_iff, beq_iff_eq, decide_eq_true_iff, hf, div_eq_zero_iff]
    simp [hp.ne']
  rw [cutDigits_eq, hsplit, hzero, compare_half (pow10_pos k), ← hf,
    Rounding.nearest_add mode (Int.natCast_nonneg _) h₀ h₁]
  by_cases h : mode.Lowers (n / pow10 k : ℕ) f
  · rw [if_pos h, if_neg fun hraises => (Rounding.raises_iff mode _ f).1 hraises h]
  · rw [if_neg h, if_pos ((Rounding.raises_iff mode _ f).2 h)]
    rfl

namespace Context

variable {ctx outer : Context} {x : ℚ}

theorem Represents.neg (h : ctx.Represents x) : ctx.Represents (-x) := by
  obtain ⟨d, rfl, hd⟩ := h
  exact ⟨{ d with negative := !d.negative }, value_flip d, hd⟩

theorem Represents.widen (h : ctx.Represents x) (hp : ctx.precision ≤ outer.precision)
    (hmax : outer.maxExponent = ctx.maxExponent) (hmin : outer.minExponent = ctx.minExponent) :
    outer.Represents x := by
  obtain ⟨d, hx, hdigits, htiny, hd⟩ := h
  refine ⟨d, hx, hdigits.trans hp, ?_, hmax ▸ hd⟩
  rw [tiny] at htiny ⊢
  omega

/-- The coefficient of a rounded number. -/
theorem value_quantized (mode : Rounding) (e : Int) (d : Decimal) :
    (⟨d.negative, if e ≤ d.exponent then d.coefficient * pow10 (d.exponent - e).toNat
      else cutDigits mode d.negative d.coefficient (e - d.exponent).toNat, e⟩ : Decimal).value =
      mode.nearest (d.value / 10 ^ e) * 10 ^ e := by
  split
  · next he =>
    obtain ⟨m, hm⟩ := exists_int_of_le he
    have hvalue : (⟨d.negative, d.coefficient * pow10 (d.exponent - e).toNat, e⟩ : Decimal).value =
        d.value := by
      have hexponent : e + (d.exponent - e).toNat = d.exponent := by omega
      rw [value_mk_mul_pow10, hexponent]
    rw [hvalue, hm, mul_div_cancel_right₀ _ (ten_zpow_pos e).ne', Rounding.nearest_intCast]
  · next he =>
    have hcut : |d.value| / 10 ^ e = (d.coefficient : ℚ) / pow10 (e - d.exponent).toNat := by
      have hexponent : e = d.exponent + (e - d.exponent).toNat := by omega
      conv_lhs => rw [abs_value, hexponent, zpow_add₀ (by norm_num), zpow_natCast]
      rw [cast_pow10, mul_comm, mul_div_mul_left _ _ (ten_zpow_pos _).ne']
    cases hn : d.negative with
    | false =>
        rw [value_mk, ← Int.cast_natCast, cutDigits_nearest, ← hcut,
          abs_of_nonneg (value_nonneg hn)]
    | true =>
        have hflip : cutDigits mode true d.coefficient (e - d.exponent).toNat =
            cutDigits mode.flip false d.coefficient (e - d.exponent).toNat := by
          rw [cutDigits_eq, cutDigits_eq, Rounding.raises_true]
        have hneg : d.value / 10 ^ e = -(|d.value| / 10 ^ e) := by
          rw [abs_of_nonpos (value_nonpos hn), neg_div, neg_neg]
        rw [value_mk_neg, value_mk, ← Int.cast_natCast, hflip, cutDigits_nearest, ← hcut, hneg,
          Rounding.nearest_neg]
        push_cast
        ring

theorem yields_quantize (hs : ctx.Standard) {mode : Rounding} {e : Int} (hlow : ctx.tiny ≤ e)
    (hhigh : e ≤ ctx.maxExponent) (hmax : d.isZero = false → d.adjusted ≤ ctx.maxExponent)
    (hdigits : d.digits + (d.exponent - e) ≤ ctx.precision)
    (h : ctx.Represents (mode.nearest (d.value / 10 ^ e) * 10 ^ e)) :
    ctx.Yields (ctx.quantize mode e d) (mode.nearest (d.value / 10 ^ e) * 10 ^ e) := by
  unfold quantize
  rw [if_neg (by omega)]
  cases hz : d.isZero with
  | true =>
      rw [if_pos rfl]
      refine yields_of_value_eq hs ?_ h
      have hzero : mode.nearest 0 = 0 := by exact_mod_cast mode.nearest_intCast 0
      rw [value_zero, value_eq_zero.2 hz, zero_div, hzero, Int.cast_zero, zero_mul]
  | false =>
      have hadjusted := hmax hz
      simp only [Bool.false_eq_true, ↓reduceIte]
      rw [if_neg (by omega)]
      have hr := value_quantized mode e d
      generalize hdef : (⟨d.negative, if e ≤ d.exponent then _ else _, e⟩ : Decimal) = r at hr ⊢
      have hexponent : r.exponent = e := by rw [← hdef]
      have hpos : 0 < r.digits := digitCount_pos _
      have hleast : e ≤ r.adjusted := by
        simp only [adjusted, hexponent]
        omega
      have hmost : r.adjusted ≤ ctx.maxExponent := by
        cases hrz : r.isZero with
        | true =>
            rw [adjusted_of_isZero hrz, hexponent]
            omega
        | false => exact Represents.adjusted_le (hr ▸ h) hrz
      rw [if_neg (by omega)]
      exact yields_of_value_eq hs hr h

end Context

theorem value_roundToInteger (d : Decimal) :
    d.roundToInteger.value = Rounding.nearest .halfEven d.value := by
  have h := Context.value_quantized .halfEven 0 d
  simp only [zpow_zero, div_one, mul_one] at h
  rw [← h, roundToInteger]
  split
  · next he =>
    have hexponent : (0 : Int) + (d.exponent - 0).toNat = d.exponent := by omega
    rw [value_mk_mul_pow10, hexponent]
  · next he =>
    have hexponent : (0 - d.exponent).toNat = d.exponent.natAbs := by omega
    rw [hexponent]

end Decimal

open Decimal (Context Rounding)

theorem Decimal.value_zero' : (0 : Decimal).value = 0 := Decimal.value_zero _ _

theorem Decimal.lt_zero_iff {d : Decimal} : d.lt 0 = true ↔ d.value < 0 := by
  rw [Decimal.lt_iff, Decimal.value_zero']

namespace RoundingMethod

variable {method : RoundingMethod} {x : ℚ}

/-- The mode by which a method rounds the numbers that it does not negate. -/
def mode : RoundingMethod → Rounding
  | .round | .halfUp => .halfUp
  | .floor => .floor
  | .ceil => .ceiling
  | .halfEven => .halfEven

theorem nearest_direct (h : ¬(method = .halfUp ∧ x < 0)) :
    method.nearest x = method.mode.nearest x := by
  cases method with
  | halfUp =>
      have hnonneg : 0 ≤ x := not_lt.1 fun hneg => h ⟨rfl, hneg⟩
      exact (if_pos hnonneg).symm
  | _ => rfl

theorem exact_direct (h : ¬(method = .halfUp ∧ x < 0)) (places : Nat) :
    method.exact places x = (method.mode.nearest (x * 10 ^ places) : ℚ) / 10 ^ places := by
  have hpos : (0 : ℚ) < 10 ^ places := by positivity
  rw [exact, nearest_direct fun h' => h ⟨h'.1, neg_of_mul_neg_left h'.2 hpos.le⟩]

/-- Halves go down on the other side of zero where they go up on this one. -/
theorem exact_negated (h : x ≤ 0) (places : Nat) :
    (Rounding.nearest .halfDown (-x * 10 ^ places) : ℚ) / 10 ^ places =
      -exact .halfUp places x := by
  have hpos : 0 ≤ -x * 10 ^ places := mul_nonneg (by linarith) (by positivity)
  have hceil : ⌈-x * 10 ^ places - 1 / 2⌉ = -⌊x * 10 ^ places + 1 / 2⌋ := by
    rw [← Int.ceil_neg]
    congr 1
    ring
  rw [Rounding.nearest, if_pos hpos, hceil, exact, nearest]
  push_cast
  ring

end RoundingMethod

section

variable {outer ctx : Context} {places : Nat} {method : RoundingMethod} {d r : Decimal} {x : ℚ}

/-- Every method but one rounds the number itself, and that one does so unless it is negative. -/
theorem roundTo_direct (hctx : roundingContext outer places d = .ok ctx)
    (h : ¬(method = .halfUp ∧ d.value < 0)) :
    roundTo outer places method d = liftM (ctx.quantize method.mode (-places) d) := by
  rw [roundTo, hctx]
  cases method with
  | halfUp =>
      have hlt : ¬d.lt 0 = true := fun hlt => h ⟨rfl, Decimal.lt_zero_iff.1 hlt⟩
      exact if_neg hlt
  | _ => rfl

theorem roundTo_negated (hctx : roundingContext outer places d = .ok ctx) (hneg : d.value < 0) :
    roundTo outer places .halfUp d = (do
      let m ← ctx.neg d
      let q ← ctx.quantize .halfDown (-places) m
      ctx.neg q) := by
  rw [roundTo, hctx]
  exact if_pos (Decimal.lt_zero_iff.2 hneg)

theorem roundTo_negated_eq_ok (hctx : roundingContext outer places d = .ok ctx)
    (hneg : d.value < 0) : roundTo outer places .halfUp d = .ok r ↔
      ∃ m q, ctx.neg d = .ok m ∧ ctx.quantize .halfDown (-places) m = .ok q ∧
        ctx.neg q = .ok r := by
  simp only [roundTo_negated hctx hneg, bind_eq_ok, signal_eq_ok, exists_and_left]

theorem roundingContext_eq_ok (hs : outer.Standard) (hplaces : places ≤ maxPlaces)
    (hd : d.adjusted ≤ outer.maxExponent) : ∃ ctx, roundingContext outer places d = .ok ctx ∧
      outer.precision ≤ ctx.precision ∧ d.adjusted + places + 2 ≤ ctx.precision ∧
      ctx.maxExponent = outer.maxExponent ∧ ctx.minExponent = outer.minExponent := by
  have hprecision := hs.precision
  have hmax := hs.maxExponent
  unfold roundingContext
  extract_lets precision
  have hsmall : ¬maxPrecision < precision := by
    simp only [maxPlaces, maxPrecision] at *
    omega
  rw [if_neg hsmall]
  exact ⟨_, rfl, by simp only; omega, by simp only; omega, rfl, rfl⟩

theorem yields_places (hs : ctx.Standard) (mode : Rounding) (hplaces : places ≤ maxPlaces)
    (hmax : d.adjusted ≤ ctx.maxExponent)
    (hdigits : d.adjusted + places + 2 ≤ ctx.precision) (hx : d.value = x)
    (h : ctx.Represents ((mode.nearest (x * 10 ^ places) : ℚ) / 10 ^ places)) :
    ctx.Yields (ctx.quantize mode (-places) d)
      ((mode.nearest (x * 10 ^ places) : ℚ) / 10 ^ places) := by
  have hten : (10 : ℚ) ^ (-(places : Int)) = (10 ^ places)⁻¹ := by rw [zpow_neg, zpow_natCast]
  have hvalue : (mode.nearest (x * 10 ^ places) : ℚ) / 10 ^ places =
      mode.nearest (d.value / 10 ^ (-(places : Int))) * 10 ^ (-(places : Int)) := by
    rw [hten, hx, div_inv_eq_mul, div_eq_mul_inv]
  rw [hvalue] at h ⊢
  have hmin := hs.minExponent
  have hmax' := hs.maxExponent
  simp only [maxPlaces] at hplaces
  refine Context.yields_quantize hs ?_ ?_ (fun _ => hmax) ?_ h
  · rw [Context.tiny]
    omega
  · omega
  · simp only [Decimal.adjusted] at hdigits
    omega

/-- The steps that round a negative number, in a context that holds it and its rounded value. -/
theorem yields_negated (hs : ctx.Standard) (hplaces : places ≤ maxPlaces)
    (hmax : d.adjusted ≤ ctx.maxExponent) (hdigits : d.adjusted + places + 2 ≤ ctx.precision)
    (hneg : d.value < 0) (hd : ctx.Represents d.value)
    (h : ctx.Represents (RoundingMethod.halfUp.exact places d.value)) :
    ∃ m q r, ctx.neg d = .ok m ∧ ctx.quantize .halfDown (-places) m = .ok q ∧ ctx.neg q = .ok r ∧
      r.value = RoundingMethod.halfUp.exact places d.value ∧ r.exponent ≤ ctx.maxExponent := by
  obtain ⟨m, hm, hmvalue, -⟩ := Context.yields_neg hs hd.neg
  have hmne : m.value ≠ 0 := hmvalue.trans_ne (neg_pos.2 hneg).ne'
  have hmd : m.adjusted = d.adjusted := by
    refine Decimal.adjusted_eq_of_abs_value_eq (Decimal.isZero_of_value_ne hmne)
      (Decimal.isZero_of_value_ne hneg.ne) ?_
    rw [hmvalue, abs_neg]
  have hdown := RoundingMethod.exact_negated hneg.le places
  obtain ⟨q, hq, hqvalue, -⟩ := yields_places hs .halfDown hplaces (hmd ▸ hmax) (hmd ▸ hdigits)
    hmvalue (hdown ▸ h.neg)
  have hqx : -q.value = RoundingMethod.halfUp.exact places d.value := by
    rw [hqvalue, hdown, neg_neg]
  obtain ⟨r, hr, hrvalue, hrexponent⟩ := Context.yields_neg hs (hqx ▸ h)
  exact ⟨m, q, r, hm, hq, hr, hrvalue.trans hqx, hrexponent⟩

/-- Rounding in a context that holds the number and its rounded value. -/
theorem roundTo_exact (hs : outer.Standard) (hplaces : places ≤ maxPlaces)
    (method : RoundingMethod) (hd : outer.Represents d.value)
    (hexponent : d.exponent ≤ outer.maxExponent)
    (h : outer.Represents (method.exact places d.value)) :
    ∃ r, roundTo outer places method d = .ok r ∧ r.value = method.exact places d.value ∧
      r.exponent ≤ outer.maxExponent := by
  have hadjusted : d.adjusted ≤ outer.maxExponent := by
    cases hz : d.isZero with
    | false => exact hd.adjusted_le hz
    | true => exact (Decimal.adjusted_of_isZero hz).trans_le hexponent
  obtain ⟨ctx, hctx, hwider, hdigits, hmax, hmin⟩ := roundingContext_eq_ok hs hplaces hadjusted
  have hs' := standard_roundingContext hs hctx
  have hwiden {y : ℚ} (hy : outer.Represents y) : ctx.Represents y := hy.widen hwider hmax hmin
  rw [← hmax] at hadjusted ⊢
  by_cases hm : method = .halfUp ∧ d.value < 0
  · obtain ⟨rfl, hneg⟩ := hm
    obtain ⟨m, q, r, hm, hq, hr, hvalue, hrest⟩ :=
      yields_negated hs' hplaces hadjusted hdigits hneg (hwiden hd) (hwiden h)
    exact ⟨r, (roundTo_negated_eq_ok hctx hneg).2 ⟨m, q, hm, hq, hr⟩, hvalue, hrest⟩
  · have hexact := RoundingMethod.exact_direct hm places
    rw [hexact] at h ⊢
    obtain ⟨r, hr, hvalue, hrest⟩ :=
      yields_places hs' method.mode hplaces hadjusted hdigits rfl (hwiden h)
    exact ⟨r, (roundTo_direct hctx hm).trans (signal_eq_ok.2 hr), hvalue, hrest⟩

end

end Payroll
