import Mathlib
import Payroll.Proofs.DecimalText
import Payroll.Proofs.Results
import Payroll.Rounding

/-!
The range of decimal arithmetic. Whatever a context gives lies within its exponents, so that it can
be written and read again.
-/

namespace Payroll

open Result

theorem digitCount_zero : digitCount 0 = 1 := by
  rw [digitCount, if_pos (by decide)]

theorem digitCount_le {n k : Nat} (h : n < pow10 k) (hk : 0 < k) : digitCount n ≤ k := by
  by_cases hn : n = 0
  · subst hn
    rwa [digitCount_zero]
  · have hle : 10 ^ (digitCount n - 1) < 10 ^ k := (pow10_digitCount_le hn).trans_lt h
    have := (Nat.pow_lt_pow_iff_right (by decide : 1 < 10)).1 hle
    omega

namespace Decimal

variable {a b d r : Decimal} {ctx : Context}

theorem compareSize_self (d : Decimal) : compareSize d d = .eq := by
  rw [compareSize]
  split
  · exact Nat.compare_eq_eq.2 rfl
  · simp

@[simp] theorem same_self (d : Decimal) : d.same d = true := by
  have h : cmp d d = .eq := by
    rw [cmp]
    cases d.negative && !d.isZero <;> exact compareSize_self d
  simp [same, h]

theorem readable_iff : d.readable = true ↔ d.adjusted ≤ maxReadable ∧ minReadable ≤ d.exponent := by
  rw [readable]
  rw [Bool.and_eq_true, decide_eq_true_iff, decide_eq_true_iff]

theorem readable_ofInt {n : Int} (h : n.natAbs < pow10 18) : (ofInt n).readable := by
  have hd := digitCount_le h (by decide)
  rw [readable_iff]
  simp only [adjusted, digits, ofInt, maxReadable, minReadable]
  omega

theorem readable_zero : (0 : Decimal).readable := readable_ofInt (n := 0) (by decide)

theorem max2_eq_or (a b : Decimal) : max2 a b = a ∨ max2 a b = b := by
  by_cases h : a.lt b = true
  · exact .inr (if_pos h)
  · exact .inl (if_neg h)

theorem min2_eq_or (a b : Decimal) : min2 a b = a ∨ min2 a b = b := by
  by_cases h : b.lt a = true
  · exact .inr (if_pos h)
  · exact .inl (if_neg h)

theorem readable_max2 (ha : a.readable) (hb : b.readable) : (max2 a b).readable := by
  rcases max2_eq_or a b with h | h <;> rwa [h]

theorem readable_min2 (ha : a.readable) (hb : b.readable) : (min2 a b).readable := by
  rcases min2_eq_or a b with h | h <;> rwa [h]

namespace Context

/-- The exponents that all contexts share, and no more digits than any of them can hold. -/
structure Standard (ctx : Context) : Prop where
  maxExponent : ctx.maxExponent = 999999
  minExponent : ctx.minExponent = -999999
  precision : (ctx.precision : Int) ≤ maxPrecision

theorem standard_ordinary : ordinary.Standard := ⟨rfl, rfl, by decide⟩

theorem readable_of_fit (h : ctx.Standard) (hr : ctx.fit d = .ok r) : r.readable := by
  obtain ⟨hmax, hmin, hprecision⟩ := h
  have htiny : minReadable ≤ ctx.tiny := by
    simp only [tiny, minReadable, maxPrecision] at *
    omega
  have hrange {x : Decimal} (hlow : ctx.tiny ≤ x.exponent) (hhigh : x.adjusted ≤ 999999) :
      x.readable := by
    rw [readable_iff]
    refine ⟨hhigh.trans (by decide), htiny.trans hlow⟩
  unfold fit at hr
  split at hr
  · cases hr
    apply hrange (le_max_left _ _)
    simp only [adjusted, digits, digitCount_zero, tiny]
    omega
  · split at hr
    · cases hr
    · extract_lets e c x at hr
      split at hr
      · cases hr
      · next hover =>
        rw [← Except.ok.inj hr]
        refine hrange ?_ (hmax ▸ not_lt.1 hover)
        have he : ctx.tiny ≤ e := le_max_of_le_right (le_max_right _ _)
        unfold x
        split
        · exact he.trans (by simp)
        · exact he

theorem add_eq_fit (ctx : Context) (a b : Decimal) : ∃ d, ctx.add a b = ctx.fit d := by
  unfold add
  extract_lets big small
  split
  · exact ⟨_, rfl⟩
  · exact ⟨_, rfl⟩

theorem readable_of_add (h : ctx.Standard) (hr : ctx.add a b = .ok r) : r.readable := by
  obtain ⟨d, hd⟩ := add_eq_fit ctx a b
  exact readable_of_fit h (hd ▸ hr)

theorem readable_of_sub (h : ctx.Standard) (hr : ctx.sub a b = .ok r) : r.readable :=
  readable_of_add h hr

theorem readable_of_mul (h : ctx.Standard) (hr : ctx.mul a b = .ok r) : r.readable :=
  readable_of_fit h hr

theorem readable_of_neg (h : ctx.Standard) (hr : ctx.neg d = .ok r) : r.readable :=
  readable_of_fit h hr

theorem readable_of_quantize {mode : Rounding} {e : Int} (h : ctx.Standard)
    (hr : ctx.quantize mode e d = .ok r) : r.readable := by
  unfold quantize at hr
  split at hr
  · cases hr
  · split at hr
    · exact readable_of_fit h hr
    · split at hr
      · cases hr
      · extract_lets c x at hr
        split at hr
        · cases hr
        · exact readable_of_fit h hr

theorem readable_of_sum {ds : List Decimal} (h : ctx.Standard) (hr : ctx.sum ds = .ok r) :
    r.readable := by
  unfold sum at hr
  revert hr
  generalize h0 : (0 : Decimal) = a
  have ha : a.readable := h0 ▸ readable_zero
  clear h0
  induction ds generalizing a with
  | nil =>
      intro hr
      cases hr
      exact ha
  | cons d ds ih =>
      intro hr
      obtain ⟨s, hs, hr⟩ := bind_eq_ok.1 hr
      exact ih s (readable_of_add h hs) hr

end Context

end Decimal

open Decimal (Context ordinary)

variable {d r : Decimal}

theorem standard_roundingContext {outer ctx : Context} {places : Nat} (h : outer.Standard)
    (hc : roundingContext outer places d = .ok ctx) : ctx.Standard := by
  unfold roundingContext at hc
  extract_lets precision at hc
  split at hc
  · cases hc
  · next hp =>
    cases hc
    refine ⟨h.maxExponent, h.minExponent, ?_⟩
    simp only
    omega

/-- A rounded number comes out of one step in the context for it, or out of three. -/
theorem roundTo_eq_ok {outer : Context} {places : Nat} {method : RoundingMethod}
    (h : roundTo outer places method d = .ok r) : ∃ ctx, roundingContext outer places d = .ok ctx ∧
      ((∃ mode, ctx.quantize mode (-places) d = .ok r) ∨
        ∃ m q, ctx.neg d = .ok m ∧ ctx.quantize .halfDown (-places) m = .ok q ∧
          ctx.neg q = .ok r) := by
  obtain ⟨ctx, hctx, h⟩ := bind_eq_ok.1 h
  refine ⟨ctx, hctx, ?_⟩
  cases method with
  | halfUp =>
      simp only at h
      split at h
      · obtain ⟨m, hm, h⟩ := bind_eq_ok.1 h
        obtain ⟨q, hq, h⟩ := bind_eq_ok.1 h
        exact .inr ⟨m, q, signal_eq_ok.1 hm, signal_eq_ok.1 hq, signal_eq_ok.1 h⟩
      · exact .inl ⟨.halfUp, signal_eq_ok.1 h⟩
  | _ => exact .inl ⟨_, signal_eq_ok.1 h⟩

theorem readable_of_roundTo {outer : Context} {places : Nat} {method : RoundingMethod}
    (h : outer.Standard) (hr : roundTo outer places method d = .ok r) : r.readable := by
  obtain ⟨ctx, hctx, ⟨mode, hr⟩ | ⟨m, q, -, -, hr⟩⟩ := roundTo_eq_ok hr
  · exact Context.readable_of_quantize (standard_roundingContext h hctx) hr
  · exact Context.readable_of_neg (standard_roundingContext h hctx) hr

theorem RoundingPolicy.readable_of_apply {p : RoundingPolicy} (hr : p.apply d = .ok r) :
    r.readable :=
  readable_of_roundTo Context.standard_ordinary hr

theorem readable_of_roundHalfAway {places : Nat} (hr : roundHalfAway places d = .ok r) :
    r.readable :=
  readable_of_roundTo Context.standard_ordinary hr

end Payroll
