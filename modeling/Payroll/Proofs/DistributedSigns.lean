import Mathlib
import Payroll.Proofs.DistributedTotals
import Payroll.Proofs.RoundingOutcomes

/-!
The signs of the parts of a total. The equal shares have the sign of the total. The last one takes what
they leave, which has the other sign where rounding has made them more than the total.
-/

namespace Payroll

open Decimal (Context Rounding ordinary)
open Result

namespace Decimal.Context

variable {ctx : Context} {a b q : Decimal} {w x y : ℚ} {e : Int} {m : ℤ}

theorem keepsSign_of_fit (hprecision : 0 < ctx.precision) (h : ctx.fit a = .ok q) :
    KeepsSign a.value q.value := by
  rw [value_of_fit hprecision h]
  exact keepsSign_rounded hprecision _

theorem keepsSign_div (hprecision : 0 < ctx.precision) (h : ctx.div a b = .ok q) :
    KeepsSign (a.value / b.value) q.value := by
  cases hb : b.isZero with
  | true =>
      rw [div, if_pos hb] at h
      cases h
  | false =>
      cases ha : a.isZero with
      | true =>
          have hzero := keepsSign_of_fit hprecision (div_of_isZero ha hb ▸ h)
          rwa [value_zero, ← zero_div b.value, ← value_eq_zero.2 ha] at hzero
      | false =>
          obtain ⟨d, hdiv, hwithin⟩ := ctx.exists_div ha hb
          have hside := hwithin 0
          rw [Int.cast_zero, zero_mul] at hside
          exact KeepsSign.trans hside (keepsSign_of_fit hprecision (hdiv ▸ h))

/-- A multiple of a power within the exponents is not rounded away. -/
theorem rounded_nonneg_iff (hprecision : 0 < ctx.precision) (he : ctx.tiny ≤ e)
    (hx : x = m * 10 ^ e) : 0 ≤ ctx.rounded x ↔ 0 ≤ x := by
  refine ⟨fun h => not_lt.1 fun hneg => h.not_gt ?_, rounded_nonneg⟩
  have hsize : (10 : ℚ) ^ e ≤ -x := abs_of_neg hneg ▸ le_abs_of_int hx hneg.ne
  have hrounded := rounded_mono hprecision hsize
  rw [rounded_pow hprecision he, rounded_neg] at hrounded
  have hpos := ten_zpow_pos e
  linarith

/-- What is left of a number has its sign if no more than the number is taken. -/
theorem keepsSign_rest (hprecision : 0 < ctx.precision) (he : ctx.tiny ≤ e) (hw : KeepsSign w x)
    (hy : KeepsSign x y) (hm : x - y = m * 10 ^ e) :
    KeepsSign w (ctx.rounded (x - y)) ↔ |y| ≤ |x| := by
  have hkeep {w x y : ℚ} {m : ℤ} (hnonneg : 0 ≤ w) (hw : KeepsSign w x) (hy : KeepsSign x y)
      (hm : x - y = m * 10 ^ e) : KeepsSign w (ctx.rounded (x - y)) ↔ |y| ≤ |x| := by
    have hx := hw.1 hnonneg
    rw [abs_of_nonneg hx, abs_of_nonneg (hy.1 hx)]
    constructor
    · intro h
      exact sub_nonneg.1 ((rounded_nonneg_iff hprecision he hm).1 (h.1 hnonneg))
    · intro h
      refine ⟨fun _ => rounded_nonneg (sub_nonneg.2 h), fun hw' => ?_⟩
      have hx' := hw.2 hw'
      have hle : x - y ≤ 0 := by linarith [hy.1 hx]
      exact (keepsSign_rounded hprecision _).2 hle
  rcases le_total 0 w with hnonneg | hnonpos
  · exact hkeep hnonneg hw hy hm
  · have hflip : -x - -y = ((-m : ℤ) : ℚ) * 10 ^ e := by
      push_cast
      linarith
    have hrest := hkeep (neg_nonneg.2 hnonpos) hw.neg hy.neg hflip
    rw [abs_neg, abs_neg, ← neg_sub', rounded_neg, KeepsSign.neg_iff] at hrest
    exact hrest

end Decimal.Context

section

variable {total : Json} {parts places : Nat} {method : RoundingMethod} {d T : Decimal}
  {shares : List Decimal}

/-- What has been computed on the way to the shares. -/
theorem steps_of_distribute (hd : total.toDecimal = .ok d) (hplaces : places ≤ maxPlaces)
    (h : distribute total (.int parts) (.int places) (.text method.name) = .ok shares) :
    1 ≤ parts ∧ ∃ T q share taken last, roundTo ordinary places method d = .ok T ∧
      ordinary.div T (.ofInt parts) = .ok q ∧ roundTo ordinary places method q = .ok share ∧
      ordinary.mul share (.ofInt (parts - 1 : ℕ)) = .ok taken ∧ ordinary.sub T taken = .ok last ∧
      shares = List.replicate (parts - 1) share ++ [last] := by
  obtain ⟨n, hn, h⟩ := bind_eq_ok.1 h
  obtain ⟨T, hT, h⟩ := bind_eq_ok.1 h
  obtain ⟨p, hp, h⟩ := bind_eq_ok.1 h
  obtain rfl : places = p := Except.ok.inj ((placesOf_int hplaces).symm.trans hp)
  obtain ⟨m, hm, h⟩ := bind_eq_ok.1 h
  obtain rfl : method = m := Except.ok.inj (method.ofJson_name.symm.trans hm)
  obtain ⟨q, hq, h⟩ := bind_eq_ok.1 h
  obtain ⟨share, hshare, h⟩ := bind_eq_ok.1 h
  obtain ⟨taken, htaken, h⟩ := bind_eq_ok.1 h
  obtain ⟨last, hlast, h⟩ := bind_eq_ok.1 h
  simp only [partsOf] at hn
  split at hn
  · next hparts =>
    rw [Int.toNat_natCast] at hn
    obtain rfl : parts = n := Except.ok.inj hn
    exact ⟨by exact_mod_cast hparts, T, q, share, taken, last, (roundValue_eq hd hplaces).symm.trans hT,
      signal_eq_ok.1 hq, hshare, signal_eq_ok.1 htaken, signal_eq_ok.1 hlast, (pure_eq_ok.1 h).symm⟩
  · cases hn

/-- In whole units, more than the total is taken if the shares were rounded up, and the units that are
left over by a division are too few. -/
theorem overdrawn_iff {j k n : ℕ} (hn : 1 ≤ n) (hlow : k / n ≤ j)
    (hhigh : ∀ m : ℕ, k ≤ m * n → j ≤ m) :
    j * (n - 1) ≤ k ↔ j * n ≤ k ∨ n ≤ k / n + k % n + 1 := by
  obtain ⟨n, rfl⟩ : ∃ n', n = n' + 1 := ⟨n - 1, by omega⟩
  have hsplit := Nat.div_add_mod k (n + 1)
  have hrest := Nat.mod_lt k (Nat.succ_pos n)
  generalize k / (n + 1) = f at hlow hsplit ⊢
  generalize k % (n + 1) = r at hsplit hrest ⊢
  have hnext : j ≤ f + 1 := hhigh (f + 1) (by nlinarith)
  rw [Nat.add_sub_cancel]
  rcases hlow.eq_or_lt with rfl | hlt
  · exact iff_of_true (by nlinarith) (.inl (by nlinarith))
  · obtain rfl : j = f + 1 := by omega
    have hover : 0 < r := by
      by_contra hr
      have := hhigh f (by nlinarith)
      omega
    constructor
    · intro h
      right
      nlinarith
    · rintro (h | h) <;> nlinarith

theorem abs_units (z : ℤ) (places : Nat) : |(z : ℚ) / 10 ^ places| = z.natAbs / 10 ^ places := by
  have hpos : (0 : ℚ) < 10 ^ places := by positivity
  rw [abs_div, abs_of_pos hpos, ← Int.cast_abs, Int.abs_eq_natAbs, Int.cast_natCast]

theorem units_of_within {j k : ℤ} {n : ℕ} (hn : 1 ≤ n)
    (h : Decimal.Within (-places) (k / 10 ^ places / n) (j / 10 ^ places)) :
    k.natAbs / n ≤ j.natAbs ∧ ∀ m : ℕ, k.natAbs ≤ m * n → j.natAbs ≤ m := by
  have hpos : (0 : ℚ) < 10 ^ places := by positivity
  have hn' : (0 : ℚ) < n := by exact_mod_cast hn
  have hside := h.abs
  rw [abs_div, abs_units, abs_units, abs_of_pos hn', div_right_comm] at hside
  constructor
  · have hfloor : ((k.natAbs / n : ℕ) : ℚ) ≤ k.natAbs / n := Nat.cast_div_le
    have hle := (hside (k.natAbs / n : ℕ)).1
    rw [Int.cast_natCast, mul_zpow_places, div_le_div_iff_of_pos_right hpos,
      div_le_div_iff_of_pos_right hpos] at hle
    exact_mod_cast hle hfloor
  · intro m hm
    have hle := (hside m).2
    rw [Int.cast_natCast, mul_zpow_places, div_le_div_iff_of_pos_right hpos,
      div_le_div_iff_of_pos_right hpos, div_le_iff₀ hn'] at hle
    exact_mod_cast hle (by exact_mod_cast hm)

/-- The shares of a total of few enough digits are taken without rounding. -/
theorem taken_le_iff {q share : Decimal} {k : ℤ} (hplaces : places ≤ maxPlaces) (hparts : 1 ≤ parts)
    (hk : T.value = k / 10 ^ places) (hsize : |(k : ℚ)| + parts < 10 ^ 28)
    (hq : ordinary.div T (.ofInt parts) = .ok q)
    (hshare : roundTo ordinary places method q = .ok share) :
    |ordinary.rounded (share.value * (parts - 1 : ℕ))| ≤ |T.value| ↔
      |share.value| * parts ≤ |T.value| ∨ parts ≤ k.natAbs / parts + k.natAbs % parts + 1 := by
  have hpos : (0 : ℚ) < 10 ^ places := by positivity
  have hone : (1 : ℚ) ≤ parts := by exact_mod_cast hparts
  have hcount : ((parts - 1 : ℕ) : ℚ) = parts - 1 := by
    rw [Nat.cast_sub hparts, Nat.cast_one]
  have hksize : |k| < 10 ^ 28 := by
    have : |(k : ℚ)| < 10 ^ 28 := by linarith
    exact_mod_cast this
  obtain ⟨q', share', hq', hshare', hwithin, j, hj⟩ := exists_share hplaces method hparts hk hksize
  obtain rfl : q = q' := Except.ok.inj (hq.symm.trans hq')
  obtain rfl : share = share' := Except.ok.inj (hshare.symm.trans hshare')
  obtain ⟨hproduct, -, -⟩ := shares_bounds hone (mul_div_cancel₀ (k : ℚ) (by linarith))
    (abs_units_sub_le hk hj hwithin)
  have hexact : ordinary.rounded (share.value * (parts - 1 : ℕ)) = share.value * (parts - 1 : ℕ) := by
    have hmul : share.value * (parts - 1 : ℕ) = ((j * (parts - 1 : ℕ) : ℤ) : ℚ) / 10 ^ places := by
      rw [hj, Int.cast_mul, Int.cast_natCast]
      ring
    rw [hmul]
    refine Context.rounded_of_represents (represents_places hplaces ?_)
    rw [Int.cast_mul, Int.cast_natCast, hcount]
    linarith
  rw [hk, hj] at hwithin
  obtain ⟨hlow, hhigh⟩ := units_of_within hparts hwithin
  have hunits (n : ℕ) : |share.value| * n ≤ |T.value| ↔ j.natAbs * n ≤ k.natAbs := by
    rw [hj, hk, abs_units, abs_units, div_mul_eq_mul_div, div_le_div_iff_of_pos_right hpos]
    norm_cast
  rw [hexact, abs_mul, Nat.abs_cast, hunits, hunits]
  exact overdrawn_iff hparts hlow hhigh

theorem keepsSign_share {q share : Decimal} (hplaces : places ≤ maxPlaces)
    (hq : ordinary.div T (.ofInt parts) = .ok q)
    (hshare : roundTo ordinary places method q = .ok share) : KeepsSign T.value share.value := by
  have hprecision : 0 < ordinary.precision := by decide
  have hexact := KeepsSign.mul_of_nonneg (inv_nonneg.2 (Nat.cast_nonneg parts)) T.value
  have hquotient := Context.keepsSign_div hprecision hq
  rw [Decimal.value_ofInt, Int.cast_natCast, div_eq_mul_inv] at hquotient
  exact (hexact.trans hquotient).trans
    (keepsSign_roundTo Context.standard_ordinary hprecision hplaces hshare)

/-- What is taken is in whole units, also where it has been rounded. -/
theorem exists_units_of_mul {q share taken : Decimal} {n : ℕ}
    (hshare : roundTo ordinary places method q = .ok share)
    (htaken : ordinary.mul share (.ofInt n) = .ok taken) :
    ∃ m : ℤ, taken.value = m * 10 ^ (-places : Int) := by
  have hexponent := le_exponent_of_roundTo Context.standard_ordinary hshare
  have hfit := Context.le_exponent_of_fit htaken
  have hmax : ordinary.maxExponent = 999999 := rfl
  have hint : (Decimal.ofInt n).exponent = 0 := rfl
  simp only [hint] at hfit
  exact Decimal.exists_int_of_le (by omega)

/-- Every share but the last has the sign of the total. The last one has it if the others, taken together
in the context of ordinary arithmetic, are not more than the rounded total. Where the total in units and
the count of parts have no more digits than the context, they are more only if the shares were rounded up
and the units that a division leaves over are too few. -/
theorem distribute_keepsSign (hd : total.toDecimal = .ok d) (hplaces : places ≤ maxPlaces)
    (h : distribute total (.int parts) (.int places) (.text method.name) = .ok shares) :
    ∃ T share last, roundValue total (.int places) (.text method.name) = .ok T ∧
      shares = List.replicate (parts - 1) share ++ [last] ∧
      KeepsSign d.value share.value ∧
      (KeepsSign d.value last.value ↔
        |ordinary.rounded (share.value * (parts - 1 : ℕ))| ≤ |T.value|) ∧
      (|T.value| * 10 ^ places + parts < 10 ^ 28 →
        ∃ k : ℕ, |T.value| = k / 10 ^ places ∧
          (KeepsSign d.value last.value ↔
            |share.value| * parts ≤ |T.value| ∨ parts ≤ k / parts + k % parts + 1)) := by
  have hs := Context.standard_ordinary
  have hprecision : 0 < ordinary.precision := by decide
  obtain ⟨hparts, T, q, share, taken, last, hT, hq, hshare, htaken, hlast, hshares⟩ :=
    steps_of_distribute hd hplaces h
  have hpos : (0 : ℚ) < 10 ^ places := by positivity
  have hkeepT : KeepsSign d.value T.value := keepsSign_roundTo hs hprecision hplaces hT
  have hkeep := keepsSign_share hplaces hq hshare
  have htvalue : taken.value = ordinary.rounded (share.value * (parts - 1 : ℕ)) := by
    rw [Context.value_of_mul hprecision htaken, Decimal.value_ofInt, Int.cast_natCast]
  have hkeept : KeepsSign T.value taken.value := by
    rw [htvalue]
    exact hkeep.trans ((KeepsSign.mul_of_nonneg (Nat.cast_nonneg _) _).trans
      (Context.keepsSign_rounded hprecision _))
  obtain ⟨k, hk⟩ := Decimal.exists_int_of_le (le_exponent_of_roundTo hs hT)
  obtain ⟨n, hn⟩ := exists_units_of_mul hshare htaken
  have hiff : KeepsSign d.value last.value ↔
      |ordinary.rounded (share.value * (parts - 1 : ℕ))| ≤ |T.value| := by
    rw [Context.value_of_sub hprecision hlast, ← htvalue]
    refine Context.keepsSign_rest (m := k - n) hprecision (e := -places) ?_ hkeepT hkeept ?_
    · change (-1000026 : Int) ≤ _
      simp only [maxPlaces] at hplaces
      omega
    · rw [hk, hn]
      push_cast
      ring
  refine ⟨T, share, last, (roundValue_eq hd hplaces).trans hT, hshares, hkeepT.trans hkeep, hiff,
    fun hsize => ⟨k.natAbs, ?_, ?_⟩⟩ <;> rw [mul_zpow_places] at hk
  · rw [hk, abs_units]
  · rw [hk, abs_div, abs_of_pos hpos, div_mul_cancel₀ _ hpos.ne'] at hsize
    exact hiff.trans (taken_le_iff hplaces hparts hk hsize hq hshare)

/-- Seven cents in four parts: two of them three times, and one is left. -/
theorem sevenCents_distributed :
    distribute (.text "0.07") (.int 4) (.int 2) (.text "ROUND") = .ok [0.02, 0.02, 0.02, 0.01] ∧
      7 / 100 < |(0.02 : Decimal).value| * 4 ∧
      KeepsSign (7 / 100) (0.02 : Decimal).value ∧ KeepsSign (7 / 100) (0.01 : Decimal).value := by
  have hcents (n : Nat) : (⟨false, n, -2⟩ : Decimal).value = n / 100 := by
    rw [Decimal.value_mk]
    exact mul_zpow_places _ 2 |>.trans (by norm_num)
  have hd : (Json.text "0.07").toDecimal = .ok ⟨false, 7, -2⟩ := ok_of_toOption (by decide +kernel)
  have hshares : distribute (.text "0.07") (.int (4 : ℕ)) (.int (2 : ℕ))
      (.text RoundingMethod.round.name) = .ok [0.02, 0.02, 0.02, 0.01] :=
    ok_of_toOption (by decide +kernel)
  have hT : roundValue (.text "0.07") (.int (2 : ℕ)) (.text RoundingMethod.round.name) =
      .ok ⟨false, 7, -2⟩ := ok_of_toOption (by decide +kernel)
  obtain ⟨T, share, last, hT', hlist, hshare, -, hunits⟩ := distribute_keepsSign hd (by decide) hshares
  obtain rfl : ⟨false, 7, -2⟩ = T := Except.ok.inj (hT.symm.trans hT')
  simp only [Nat.add_one_sub_one, List.replicate_succ, List.replicate_zero, List.cons_append,
    List.nil_append, List.cons.injEq, and_true] at hlist
  obtain ⟨rfl, -, -, rfl⟩ := hlist
  rw [hcents, Nat.cast_ofNat] at hshare hunits
  obtain ⟨k, hk, hlast⟩ := hunits (by norm_num)
  have hseven : k = 7 := by
    norm_num at hk
    exact_mod_cast hk.symm
  subst hseven
  refine ⟨hshares, ?_, hshare, hlast.2 (.inr (by decide))⟩
  have hvalue : (0.02 : Decimal).value = 2 / 100 := hcents 2
  rw [hvalue]
  norm_num

/-- Three cents in six parts: one of them five times, and two are owed. -/
theorem threeCents_overdrawn : ∃ d shares s, (Json.text "0.03").toDecimal = .ok d ∧ 0 ≤ d.value ∧
    distribute (.text "0.03") (.int 6) (.int 2) (.text "ROUND") = .ok shares ∧ s ∈ shares ∧
    s.value < 0 := by
  refine ⟨0.03, [0.01, 0.01, 0.01, 0.01, 0.01, ⟨true, 2, -2⟩], ⟨true, 2, -2⟩, ?_, ?_, ?_, ?_, ?_⟩
  · exact ok_of_toOption (by decide +kernel)
  · exact Decimal.value_nonneg rfl
  · exact ok_of_toOption (by decide +kernel)
  · simp
  · exact Decimal.value_neg_iff.2 rfl

end

end Payroll
