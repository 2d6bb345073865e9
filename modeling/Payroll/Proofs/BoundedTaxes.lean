import Mathlib
import Payroll.Proofs.PublishedYears
import Payroll.Proofs.SettlementParts

/-!
Taxes and contributions of bounded amounts by complete tables: every step succeeds, and what is left to
withhold, the quotas and their totals are there.
-/

namespace Payroll

open Decimal (Context ordinary)
open Result

variable {policy : RoundingPolicy} {a b d : Decimal} {i j k : Nat}

namespace Decimal

/-- What one bounded number exceeds another by is bounded. -/
theorem excess_fitted (hmax : k ≤ 999999) (ha : a.Upto k) (hb : b.Upto k) :
    Succeeds (fun d => (max2 0 d).FittedUpto k) (liftM (ordinary.sub a b) : Except Fault _) := by
  obtain ⟨d, hd, hsize, hadjusted⟩ := sub_within hmax ha hb
  rw [zpow_natCast] at hsize
  refine ⟨d, signal_eq_ok.2 hd, ⟨⟨?_, ?_⟩, ?_⟩⟩
  · rw [value_max2, value_zero']
    exact le_max_left _ _
  · rw [value_max2, value_zero']
    exact max_le (by positivity) ((le_abs_self _).trans hsize)
  · rcases max2_eq_or 0 d with h | h
    · rw [h]
      decide +kernel
    · rw [h]
      exact hadjusted

theorem sum_upto {ds : List Decimal} (h : ∀ d ∈ ds, d.Upto k) (hmax : k + ds.length ≤ 999999) :
    Succeeds (Upto (k + ds.length)) (liftM (ordinary.sum ds) : Except Fault _) := by
  have hfold (ds : List Decimal) : ∀ n a, (∀ d ∈ ds, d.Upto k) → a.Upto (k + n) →
      k + n + ds.length ≤ 999999 → ∃ r, ds.foldlM ordinary.add a = .ok r ∧ r.Upto (k + n + ds.length) := by
    induction ds with
    | nil => exact fun n a _ ha _ => ⟨a, rfl, ha⟩
    | cons d ds ih =>
        intro n a hds ha hmax
        rw [List.length_cons] at hmax ⊢
        obtain ⟨s, hs, hsum⟩ := add_upto (k := k + n + 1) (by omega) ha
          ((hds d List.mem_cons_self).mono (by omega)) le_rfl
        obtain ⟨r, hr, hupto⟩ := ih (n + 1) s (fun d hd => hds d (List.mem_cons_of_mem _ hd))
          hsum.toUpto (by omega)
        refine ⟨r, bind_of_eq_ok (signal_eq_ok.1 hs) hr, hupto.mono (by omega)⟩
  obtain ⟨r, hr, hupto⟩ := hfold ds 0 0 h (.zero _) (by omega)
  exact .signal ⟨r, hr, hupto⟩

end Decimal

namespace Isr

variable {table : BracketTable IsrTerms} {subsidies : Option (BracketTable SubsidyTerms)} {base : Amount}

theorem rate_upto (hrows : ∀ row ∈ table.rows, ∃ j, Bracket.load j = .ok row) {r : IsrResult}
    (h : calculate policy table base = .ok r) : r.rate.Upto 0 := by
  obtain ⟨m, hm, h⟩ := bind_eq_ok.1 h
  obtain ⟨_, -, h⟩ := bind_eq_ok.1 h
  obtain ⟨_, -, h⟩ := bind_eq_ok.1 h
  obtain ⟨_, -, h⟩ := bind_eq_ok.1 h
  obtain ⟨_, -, h⟩ := bind_eq_ok.1 h
  obtain ⟨_, -, h⟩ := bind_eq_ok.1 h
  cases h
  obtain ⟨b, -, -, rfl⟩ := BracketTable.exists_base_of_find hm
  obtain ⟨j, hj⟩ := hrows _ (List.mem_of_getElem? (table.getElem?_position b))
  obtain ⟨-, hrate, hrate'⟩ := terms_range_of_load hj
  exact ⟨hrate, by rwa [pow_zero]⟩

/-- A base counts by the number that it denotes. -/
theorem find_congr {α : Type} (t : BracketTable α) (h : base.toDecimal = .ok b) :
    t.find base = t.find b := by
  unfold BracketTable.find
  rw [h]
  rfl

/-- A base that is refused as a number is refused as one of the tax. -/
theorem withSubsidy_of_error {f : Fault} (h : base.toDecimal = .error f) :
    withSubsidy policy table subsidies base = .error f := by
  unfold withSubsidy calculate BracketTable.find
  rw [h]
  rfl

/-- Tax and subsidy on a bounded base, and what is left to withhold. -/
theorem withSubsidy_upto (hrows : ∀ row ∈ table.rows, ∃ j, Bracket.load j = .ok row)
    (hfees : ∀ row ∈ table.rows, row.terms.fixedFee.value ≤ 10 ^ k)
    (hamounts : ∀ t ∈ subsidies, ∀ row ∈ t.rows, row.terms.amount.FittedUpto k)
    (hbase : base.toDecimal = .ok b) (hb : b.Upto k) (hk : k + 1 < 999999) :
    Succeeds (fun r => r.isr.rate.Upto 0) (withSubsidy policy table subsidies base) := by
  have htax : Succeeds (fun r : IsrResult => r.rate.Upto 0 ∧ policy.Paid (k + 1) r.isr)
      (calculate policy table base) := by
    obtain ⟨r, hr, -, hpaid⟩ := calculate_upto hrows hfees hb hk
    have hr' : calculate policy table base = .ok r := by
      unfold calculate
      rw [find_congr table hbase]
      exact hr
    exact ⟨r, hr', rate_upto hrows hr', hpaid⟩
  have hcredit : Succeeds (fun s : Option SubsidyResult => policy.Paid (k + 1) (granted s))
      (subsidies.mapM fun t => subsidy policy t base) := by
    cases subsidies with
    | none => exact .ok (.zero policy _)
    | some t =>
        have hmem := List.mem_of_getElem? (t.getElem?_position b)
        have hfound : t.find base = .ok _ :=
          (find_congr t hbase).trans ((BracketTable.find_eq_ok_iff (a := b) rfl).2 ⟨hb.nonneg, rfl⟩)
        obtain ⟨d, hd, hpaid, -⟩ := policy.apply_upto (hamounts t rfl _ hmem) (by omega)
        refine ⟨some _, bind_eq_ok.2 ⟨_, bind_eq_ok.2 ⟨_, hfound, bind_eq_ok.2 ⟨d, hd, rfl⟩⟩, rfl⟩, ?_⟩
        exact hpaid.mono (by omega)
  refine htax.bind fun isr _ hisr => hcredit.bind fun credit _ hcredit => ?_
  have hleast : policy.Paid (k + 1) (Decimal.min2 isr.isr (granted credit)) := by
    rcases Decimal.min2_eq_or isr.isr (granted credit) with h | h
    · rw [h]
      exact hisr.2
    · rw [h]
      exact hcredit
  have hnet : Succeeds (fun _ => True) (net policy isr.isr (granted credit)) := by
    change Succeeds _ ((liftM (ordinary.sub isr.isr (granted credit)) : Except Fault _) >>= fun left =>
      policy.apply (Decimal.max2 0 left))
    refine (Decimal.excess_fitted (by omega) hisr.2.toUpto hcredit.toUpto).bind fun left _ hleft => ?_
    exact (policy.apply_upto hleft (by omega)).mono fun _ _ => trivial
  have hleft : Succeeds (fun r : NetIsrResult => r.isr.rate.Upto 0)
      (policy.apply (Decimal.min2 isr.isr (granted credit)) >>= fun applied =>
        net policy isr.isr (granted credit) >>= fun left => pure ⟨isr, credit, applied, left⟩) :=
    (policy.apply_upto hleast.toFittedUpto (by omega)).bind fun applied _ _ =>
      hnet.bind fun left _ _ => .ok hisr.1
  cases credit <;> exact hleft

end Isr

namespace Imss

variable {t : FiscalTables} {capped : Decimal} {days n : Nat} {sbc : Amount} {rate : ImssRate}

/-- A quota of which both have to pay bounded amounts. -/
def Bounded (k : Nat) (q : ImssQuota) : Prop := q.employerAmount.Upto k ∧ q.employeeAmount.Upto k

theorem exists_of_lookUpRate {key : String} {rates : List (String × Amount)} {x : Amount}
    (h : lookUpRate key rates = some x) : ∃ r ∈ rates, r.2 = x := by
  induction rates with
  | nil => cases h
  | cons r rates ih =>
      unfold lookUpRate at h
      split at h
      · exact ⟨r, List.mem_cons_self, Option.some.inj h⟩
      · obtain ⟨r', hr', he⟩ := ih h
        exact ⟨r', List.mem_cons_of_mem _ hr', he⟩

theorem dailyBase_upto {values : FiscalValues} (hcapped : capped.Upto k)
    (huma : values.umaDaily.Upto j) (hj : j + 1 ≤ k) (hk : k ≤ 999999) (base : ImssBase) :
    Succeeds (Decimal.Upto k) (dailyBase values capped base) := by
  cases base with
  | sbc => exact .ok hcapped
  | uma => exact .ok (huma.mono (by omega))
  | excess =>
      have hthree : excessThreshold.Upto 1 := .literal (by decide)
      refine (Decimal.mul_upto hk huma hthree hj).bind fun threshold _ hthreshold => ?_
      exact (Decimal.excess_fitted hk hcapped hthreshold.toUpto).bind
        fun _ _ hexcess => .ok hexcess.toUpto

theorem amount_upto (hd : d.Upto k) (hdays : days ≤ 10 ^ n) (ha : a.Upto 0) (hk : k + n < 999999) :
    Succeeds (Decimal.Upto (k + n)) (amount policy d days a) := by
  refine (Decimal.mul_upto hk.le hd (.ofNat hdays) le_rfl).bind fun total _ htotal => ?_
  refine (Decimal.mul_upto hk.le htotal.toUpto ha le_rfl).bind fun product _ hproduct => ?_
  exact (policy.apply_upto hproduct hk).mono fun _ h => h.1.toUpto

variable (h : t.Complete)

include h

theorem quota_upto (hcapped : capped.Upto k) (huma : t.values.umaDaily.Upto Published.size)
    (hsize : Published.size < k) (hdays : days ≤ 10 ^ n) (hk : k + n < 999999)
    (hrate : rate ∈ t.published.imss) :
    Succeeds (Bounded (k + n)) (quota policy t.values capped days rate) := by
  obtain ⟨⟨hemployer, hemployer'⟩, hemployee, hemployee'⟩ := h.rates rate hrate
  have hemployer : rate.employer.Upto 0 := ⟨hemployer, by rwa [pow_zero]⟩
  have hemployee : rate.employee.Upto 0 := ⟨hemployee, by rwa [pow_zero]⟩
  refine (dailyBase_upto hcapped huma hsize (by omega) rate.base).bind fun daily _ hdaily => ?_
  refine (amount_upto hdaily hdays hemployer hk).bind fun employer _ hpaid => ?_
  exact (amount_upto hdaily hdays hemployee hk).bind fun employee _ hpaid' => .ok ⟨hpaid, hpaid'⟩

/-- Only a class whose rate is not published is a fault. -/
theorem riskQuota_ends (hcapped : capped.Upto k) (hdays : days ≤ 10 ^ n) (hk : k + n < 999999)
    (risk : Option RiskClass) :
    EndsIn (fun qs => (∀ q ∈ qs, Bounded (k + n) q) ∧ qs.length ≤ 1) (fun f => f.kind = .imssRate)
      (riskQuota policy capped days t.riskRates (.optional (.text ·.name) risk)) := by
  unfold riskQuota
  split
  · have hrate : EndsIn (Decimal.Upto 0) (fun f => f.kind = .imssRate)
        (riskRate t.riskRates (.optional (.text ·.name) risk)) := by
      cases risk with
      | none => exact rfl
      | some class' =>
          simp only [Json.optional, riskRate]
          split
          · next x hx =>
            obtain ⟨_, hr, rfl⟩ := exists_of_lookUpRate hx
            obtain ⟨r, hr, he⟩ := List.mem_map.1 hr
            obtain ⟨hlow, hhigh⟩ := h.riskRates r hr
            rw [← he]
            exact ⟨hlow, by rwa [pow_zero]⟩
          · exact rfl
    refine hrate.bind fun rate hrate => ?_
    refine (amount_upto hcapped hdays hrate hk).endsIn fun employer _ hpaid => ?_
    obtain ⟨d, hd, hzero, -⟩ := (RoundingPolicy.Paid.zero policy (k + n)).apply hk
    refine Succeeds.endsIn ⟨d, hd, hzero⟩ fun employee _ hpaid' => ?_
    exact ⟨fun q hq => List.mem_singleton.1 hq ▸ ⟨hpaid, hpaid'.toUpto⟩, le_rfl⟩
  · exact ⟨List.forall_mem_nil _, Nat.zero_le 1⟩

omit h in
theorem calculate_of_error {policy : RoundingPolicy} {rates : List ImssRate} {values : FiscalValues}
    {riskRates : List (String × Amount)} {days : Int} {risk : Json} {f : Fault}
    (h : sbc.toDecimal = .error f) :
    calculate policy rates values riskRates sbc days risk = .error f := by
  unfold calculate
  rw [h]
  rfl

/-- The quotas on a bounded base: bounded amounts of a bounded number of branches, unless the rate of the
class is not published. -/
theorem calculate_ends (hback : t.ReadsBack) (hsbc : sbc.toDecimal = .ok b) (hb : b.Upto k)
    (hsize : Published.size < k) (hdays : days ≤ 10 ^ n) (hk : k + n < 999999)
    (risk : Option RiskClass) :
    EndsIn (fun r => (∀ q ∈ r.quotas, Bounded (k + n) q) ∧ r.quotas.length ≤ 101)
      (fun f => f.kind = .imssRate)
      (calculate policy t.published.imss t.values t.riskRates sbc days
        (.optional (.text ·.name) risk)) := by
  have hlawful := FiscalValues.lawful_of_load hback.published.values
  have huma : t.values.umaDaily.Upto Published.size := ⟨hlawful.umaDaily.le, h.values.1⟩
  have hcap : (Decimal.ofInt t.values.sbcCap).Upto Published.size := by
    have hnonneg : (0 : ℚ) ≤ t.values.sbcCap := by exact_mod_cast hlawful.sbcCap.le
    constructor <;> rw [Decimal.value_ofInt]
    · exact hnonneg
    · exact h.values.2.2.2
  have hnegative : b.lt 0 = false := by
    rw [← Bool.not_eq_true, Decimal.lt_zero_iff, not_lt]
    exact hb.nonneg
  unfold calculate
  rw [hsbc]
  change EndsIn _ _ (if b.lt 0 = true then _ else _)
  rw [hnegative, if_neg (by simp), if_neg (by omega)]
  refine (Decimal.mul_upto (k := 12) (by decide) huma hcap (by decide)).endsIn fun cap _ hcap => ?_
  have hcapped : (Decimal.min2 b cap).Upto k := hb.min hcap.nonneg
  dsimp only
  have hquotas : Succeeds (fun qs => (∀ q ∈ qs, Bounded (k + n) q) ∧ qs.length ≤ 100)
      ((t.published.imss.filter fun r => r.concept != riskConcept).mapM
        (quota policy t.values (Decimal.min2 b cap) days)) := by
    have hquota : ∀ r ∈ t.published.imss.filter fun r => r.concept != riskConcept,
        Succeeds (Bounded (k + n)) (quota policy t.values (Decimal.min2 b cap) days r) :=
      fun r hr => quota_upto h hcapped huma hsize hdays hk (List.mem_of_mem_filter hr)
    obtain ⟨qs, hqs⟩ := exists_mapM_eq_ok.2 fun r hr => (hquota r hr).imp fun _ hq => hq.1
    refine ⟨qs, hqs, fun q hq => ?_, ?_⟩
    · obtain ⟨r, hr, he⟩ := exists_of_mem_mapM hqs hq
      obtain ⟨q', he', hbounded⟩ := hquota r hr
      rw [he] at he'
      exact Except.ok.inj he' ▸ hbounded
    · rw [← (forall₂_of_mapM hqs).length_eq]
      exact (List.length_filter_le _ _).trans h.branches
  refine hquotas.endsIn fun qs _ hqs => ?_
  refine (riskQuota_ends h hcapped hdays hk risk).bind fun risks hrisks => ?_
  refine ⟨fun q hq => (List.mem_append.1 hq).elim (hqs.1 q) (hrisks.1 q), ?_⟩
  rw [List.length_append]
  omega

end Imss

end Payroll
