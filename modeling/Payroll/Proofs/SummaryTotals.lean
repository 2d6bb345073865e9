import Mathlib
import Payroll.Audit.Trail
import Payroll.Proofs.DecimalExact
import Payroll.Proofs.Results

/-!
The summary of entries by kind: it has every kind once, with the number of its entries and the sums of
their amounts.
-/

namespace Payroll

open Decimal (Context ordinary)
open Result

theorem List.nodup_eraseDups {α : Type} [DecidableEq α] : ∀ l : List α, l.eraseDups.Nodup
  | [] => .nil
  | a :: l => by
      rw [List.eraseDups_cons]
      refine List.nodup_cons.2 ⟨fun ha => ?_, List.nodup_eraseDups _⟩
      simp at ha
termination_by l => l.length
decreasing_by exact Nat.lt_succ_of_le (List.length_filter_le _ _)

theorem List.length_eraseDups {α : Type} [DecidableEq α] (l : List α) :
    l.eraseDups.length = l.toFinset.card := by
  rw [← List.toFinset_card_of_nodup (List.nodup_eraseDups l)]
  congr 1
  ext a
  simp

namespace Decimal

variable {ds : List Decimal} {e : Int} {ctx : Context}

theorem exists_units_sum (h : ∀ d ∈ ds, e ≤ d.exponent) :
    ∃ m : ℤ, (ds.map value).sum = m * 10 ^ e ∧ m.natAbs ≤ (ds.map (units e)).sum := by
  induction ds with
  | nil => exact ⟨0, by simp, le_rfl⟩
  | cons d ds ih =>
      obtain ⟨hd, hds⟩ := List.forall_mem_cons.1 h
      obtain ⟨k, hk, hk'⟩ := exists_units hd
      obtain ⟨m, hm, hm'⟩ := ih hds
      refine ⟨k + m, ?_, ?_⟩
      · rw [List.map_cons, List.sum_cons, hk, hm, Int.cast_add, add_mul]
      · rw [List.map_cons, List.sum_cons, ← hk']
        exact (Int.natAbs_add_le k m).trans (Nat.add_le_add_left hm' _)

theorem Context.represents_of_lt {m : ℤ} (hm : m.natAbs < pow10 ctx.precision)
    (hp : 0 < ctx.precision) (hlow : ctx.tiny ≤ e) (hhigh : e + ctx.precision ≤ ctx.maxExponent) :
    ctx.Represents (m * 10 ^ e) := by
  have hdigits := digitCount_le hm hp
  refine ⟨⟨if m = 0 then false else decide (m < 0), m.natAbs, e⟩, value_signed false m e, hdigits,
    hlow, ?_⟩
  change e + (digitCount m.natAbs : Int) - 1 ≤ ctx.maxExponent
  omega

/-- Numbers are summed without rounding if they do not have too many digits altogether. -/
theorem Context.sums_of_lt (h : ∀ d ∈ ds, e ≤ d.exponent)
    (hds : (ds.map (units e)).sum < pow10 ctx.precision) (hp : 0 < ctx.precision)
    (hlow : ctx.tiny ≤ e) (hhigh : e + ctx.precision ≤ ctx.maxExponent) :
    ctx.Sums (ds.map value) := by
  rintro ys ⟨l, hperm, hsub⟩
  obtain ⟨cs, hcs, rfl⟩ := List.sublist_map_iff.1 hsub
  obtain ⟨m, hm, hm'⟩ := exists_units_sum fun d hd => h d (hcs.subset hd)
  rw [← hperm.sum_eq, hm]
  have hle : (cs.map (units e)).sum ≤ (ds.map (units e)).sum := (hcs.map _).sum_le_sum (by simp)
  exact represents_of_lt ((hm'.trans hle).trans_lt hds) hp hlow hhigh

end Decimal

namespace AuditTrail

/-- A summary counts entries and sums their amounts. -/
structure KindSummary.Totals (k : KindSummary) (es : List AuditEntry) : Prop where
  entries : k.entries = es.length
  base : k.totalBase.value = (es.map fun e => e.base.value).sum
  result : k.totalResult.value = (es.map fun e => e.result.value).sum

def ofKind (kind : AuditKind) (es : List AuditEntry) : List AuditEntry :=
  es.filter fun e => e.kind == kind

/-- The amounts of every kind can be summed without rounding. -/
structure Summable (es : List AuditEntry) : Prop where
  base : ∀ kind, ordinary.Sums ((ofKind kind es).map fun e => e.base.value)
  result : ∀ kind, ordinary.Sums ((ofKind kind es).map fun e => e.result.value)

/-- Summaries of the kinds that occur among entries. -/
structure Tallied (ks : List KindSummary) (es : List AuditEntry) : Prop where
  distinct : (ks.map (·.kind)).Nodup
  present : ∀ kind, kind ∈ ks.map (·.kind) ↔ kind ∈ es.map (·.kind)
  totals : ∀ k ∈ ks, k.Totals (ofKind k.kind es)

/-- A summary counts entries, their payroll details, and the entries and the amounts of every kind. -/
structure PeriodSummary.Counts (s : PeriodSummary) (es : List AuditEntry) : Prop where
  entries : s.entries = es.length
  details : s.details = (es.map (·.detail)).toFinset.card
  kinds : Tallied s.kinds es

variable {k k' : KindSummary} {ks : List KindSummary} {e : AuditEntry} {es es' done : List AuditEntry}
  {kind : AuditKind}

theorem ofKind_perm (kind : AuditKind) (h : es.Perm es') : (ofKind kind es).Perm (ofKind kind es') :=
  h.filter _

theorem KindSummary.Totals.perm (h : k.Totals es) (hes : es.Perm es') : k.Totals es' :=
  ⟨h.entries.trans hes.length_eq, h.base.trans (hes.map _).sum_eq, h.result.trans (hes.map _).sum_eq⟩

theorem Tallied.perm (h : Tallied ks es) (hes : es.Perm es') : Tallied ks es' :=
  ⟨h.distinct, fun kind => (h.present kind).trans (hes.map _).mem_iff,
    fun k hk => (h.totals k hk).perm (ofKind_perm _ hes)⟩

theorem PeriodSummary.Counts.perm {s : PeriodSummary} (h : s.Counts es) (hes : es.Perm es') :
    s.Counts es' :=
  ⟨h.entries.trans hes.length_eq,
    h.details.trans (congrArg _ (List.toFinset_eq_of_perm _ _ (hes.map _))), h.kinds.perm hes⟩

/-- The total of a kind is the sum of its amounts, of one that does not occur it is zero. -/
theorem PeriodSummary.Counts.total {s : PeriodSummary} (h : s.Counts es) (kind : AuditKind) :
    (s.total kind).value = ((ofKind kind es).map fun e => e.result.value).sum := by
  unfold PeriodSummary.total
  cases hfound : s.kinds.find? fun k => k.kind == kind with
  | some k =>
      obtain rfl : k.kind = kind := by simpa using List.find?_some hfound
      exact (h.kinds.totals k (List.mem_of_find?_eq_some hfound)).result
  | none =>
      have habsent : kind ∉ es.map (·.kind) := by
        rw [← h.kinds.present, List.mem_map]
        rintro ⟨k, hk, rfl⟩
        exact absurd (List.find?_eq_none.1 hfound k hk) (by simp)
      have hnone : ofKind kind es = [] :=
        List.filter_eq_nil_iff.2 fun e he hkind =>
          habsent (List.mem_map.2 ⟨e, he, beq_iff_eq.1 hkind⟩)
      rw [hnone]
      exact Decimal.value_zero _ _

theorem Summable.of_subperm (h : Summable es) (hes : es'.Subperm es) :
    Summable es' := by
  have hamounts (kind : AuditKind) (amount : AuditEntry → ℚ) :
      ((ofKind kind es').map amount).Subperm ((ofKind kind es).map amount) := by
    obtain ⟨l, hperm, hsub⟩ := hes.filter fun e => e.kind == kind
    exact ⟨l.map amount, hperm.map amount, hsub.map amount⟩
  exact ⟨fun kind ys hys => h.base kind ys (hys.trans (hamounts kind _)),
    fun kind ys hys => h.result kind ys (hys.trans (hamounts kind _))⟩

/-- Amounts that have no more digits altogether than a sum has. -/
theorem summable_of_lt {k : Int} (h : ∀ e ∈ es, k ≤ e.base.exponent ∧ k ≤ e.result.exponent)
    (hbase : (es.map fun e => e.base.units k).sum < pow10 ordinary.precision)
    (hresult : (es.map fun e => e.result.units k).sum < pow10 ordinary.precision)
    (hlow : ordinary.tiny ≤ k) (hhigh : k ≤ 0) : Summable es := by
  have hsums (amount : AuditEntry → Decimal) (hexp : ∀ e ∈ es, k ≤ (amount e).exponent)
      (hlt : (es.map fun e => (amount e).units k).sum < pow10 ordinary.precision)
      (kind : AuditKind) : ordinary.Sums ((ofKind kind es).map fun e => (amount e).value) := by
    have hall : ordinary.Sums ((es.map amount).map Decimal.value) := by
      refine Context.sums_of_lt (List.forall_mem_map.2 hexp) ?_ (by decide) hlow ?_
      · rw [List.map_map]
        exact hlt
      · change k + 28 ≤ 999999
        omega
    rw [List.map_map] at hall
    exact fun ys hys => hall ys (hys.trans (List.filter_sublist.map _).subperm)
  exact ⟨hsums (·.base) (fun e he => (h e he).1) hbase,
    hsums (·.result) (fun e he => (h e he).2) hresult⟩

theorem KindSummary.Totals.add (h : k.Totals es)
    (hbase : ordinary.Represents ((es ++ [e]).map fun e => e.base.value).sum)
    (hresult : ordinary.Represents ((es ++ [e]).map fun e => e.result.value).sum) :
    ∃ k', k.add e = .ok k' ∧ k'.kind = k.kind ∧ k'.Totals (es ++ [e]) := by
  simp only [List.map_append, List.map_cons, List.map_nil, List.sum_append, List.sum_singleton] at *
  rw [← h.base] at hbase
  rw [← h.result] at hresult
  obtain ⟨base, hbase, hbase', -⟩ := Context.yields_add Context.standard_ordinary hbase
  obtain ⟨result, hresult, hresult', -⟩ := Context.yields_add Context.standard_ordinary hresult
  refine ⟨_, bind_eq_ok.2 ⟨base, signal_eq_ok.2 hbase, bind_eq_ok.2 ⟨result,
    signal_eq_ok.2 hresult, rfl⟩⟩, rfl, ?_, ?_, ?_⟩
  · simp [h.entries]
  · simpa [h.base] using hbase'
  · simpa [h.result] using hresult'

theorem tally_of_mem (hd : (ks.map (·.kind)).Nodup) (hk : k ∈ ks) (hkind : k.kind = e.kind)
    (hadd : k.add e = .ok k') :
    tally e ks = .ok (ks.map fun s => if s.kind = e.kind then k' else s) := by
  induction ks with
  | nil => cases hk
  | cons s ss ih =>
      obtain ⟨hs, hd⟩ := List.nodup_cons.1 hd
      rw [tally]
      by_cases hhead : s.kind = e.kind
      · have hother : ∀ t ∈ ss, t.kind ≠ e.kind := by
          intro t ht hsame
          exact hs (List.mem_map.2 ⟨t, ht, hsame.trans hhead.symm⟩)
        obtain rfl : k = s := (List.mem_cons.1 hk).resolve_right fun h => hother k h hkind
        have htail : (ss.map fun s => if s.kind = e.kind then k' else s) = ss :=
          (List.map_congr_left fun t ht => if_neg (hother t ht)).trans ss.map_id
        rw [if_pos hhead, hadd, List.map_cons, if_pos hhead, htail]
        rfl
      · have hk := (List.mem_cons.1 hk).resolve_left fun h => hhead (h ▸ hkind)
        rw [if_neg hhead, ih hd hk, List.map_cons, if_neg hhead]
        rfl

theorem tally_of_absent (h : ∀ s ∈ ks, s.kind ≠ e.kind)
    (hadd : ({ kind := e.kind } : KindSummary).add e = .ok k') : tally e ks = .ok (ks ++ [k']) := by
  induction ks with
  | nil =>
      rw [tally, hadd]
      rfl
  | cons s ss ih =>
      obtain ⟨hs, hss⟩ := List.forall_mem_cons.1 h
      rw [tally, if_neg hs, ih hss]
      rfl

theorem ofKind_append (kind : AuditKind) (es es' : List AuditEntry) :
    ofKind kind (es ++ es') = ofKind kind es ++ ofKind kind es' := List.filter_append _ _

theorem ofKind_singleton_self (e : AuditEntry) : ofKind e.kind [e] = [e] := by simp [ofKind]

theorem ofKind_singleton_of_ne (h : kind ≠ e.kind) : ofKind kind [e] = [] := by
  simp [ofKind, h.symm]

theorem Tallied.nil : Tallied [] [] := ⟨.nil, fun _ => Iff.rfl, fun _ => (nomatch ·)⟩

theorem exists_add_totals (hsums : Summable (es ++ [e])) {k : KindSummary}
    (hk : k.Totals (ofKind e.kind es)) :
    ∃ k', k.add e = .ok k' ∧ k'.kind = k.kind ∧ k'.Totals (ofKind e.kind (es ++ [e])) := by
  have hbase := hsums.base e.kind _ (.refl _)
  have hresult := hsums.result e.kind _ (.refl _)
  rw [ofKind_append, ofKind_singleton_self] at hbase hresult ⊢
  exact hk.add hbase hresult

theorem Tallied.totals_of_ne (h : Tallied ks es) {s : KindSummary} (hs : s ∈ ks)
    (hne : s.kind ≠ e.kind) : s.Totals (ofKind s.kind (es ++ [e])) := by
  rw [ofKind_append, ofKind_singleton_of_ne hne, List.append_nil]
  exact h.totals s hs

theorem Tallied.put (h : Tallied ks es) {k : KindSummary} (hk : k ∈ ks) (hkind : k.kind = e.kind)
    (hkind' : k'.kind = e.kind) (htotals : k'.Totals (ofKind e.kind (es ++ [e]))) :
    Tallied (ks.map fun s => if s.kind = e.kind then k' else s) (es ++ [e]) := by
  have hkinds : (ks.map fun s => if s.kind = e.kind then k' else s).map (·.kind) =
      ks.map (·.kind) := by
    rw [List.map_map]
    refine List.map_congr_left fun s _ => ?_
    simp only [Function.comp_apply]
    split
    · next hs => exact hkind'.trans hs.symm
    · rfl
  refine ⟨hkinds ▸ h.distinct, fun kind => ?_, ?_⟩
  · rw [hkinds, h.present, List.map_append, List.mem_append, iff_self_or]
    intro hlast
    obtain rfl : kind = e.kind := List.mem_singleton.1 hlast
    rw [← h.present, ← hkind]
    exact List.mem_map_of_mem hk
  · intro s' hs'
    obtain ⟨s, hs, rfl⟩ := List.mem_map.1 hs'
    split
    · rw [hkind']
      exact htotals
    · next hne => exact h.totals_of_ne hs hne

theorem Tallied.append (h : Tallied ks es) (habsent : ∀ s ∈ ks, s.kind ≠ e.kind)
    (hkind' : k'.kind = e.kind) (htotals : k'.Totals (ofKind e.kind (es ++ [e]))) :
    Tallied (ks ++ [k']) (es ++ [e]) := by
  refine ⟨?_, fun kind => ?_, ?_⟩
  · rw [List.map_append, List.map_singleton, hkind']
    refine List.nodup_append.2 ⟨h.distinct, List.nodup_singleton _, ?_⟩
    intro kind hmem other hother hsame
    obtain ⟨s, hs, rfl⟩ := List.mem_map.1 hmem
    exact habsent s hs (hsame.trans (List.mem_singleton.1 hother))
  · simp only [List.map_append, List.map_singleton, List.mem_append, hkind', h.present]
  · refine List.forall_mem_append.2 ⟨fun s hs => h.totals_of_ne hs (habsent s hs), ?_⟩
    rw [List.forall_mem_singleton, hkind']
    exact htotals

/-- One more entry either goes to the summary of its kind or begins one. -/
theorem Tallied.step (h : Tallied ks es) (hsums : Summable (es ++ [e])) :
    ∃ ks', tally e ks = .ok ks' ∧ Tallied ks' (es ++ [e]) := by
  by_cases hk : ∃ k ∈ ks, k.kind = e.kind
  · obtain ⟨k, hk, hkind⟩ := hk
    obtain ⟨k', hadd, hkind', htotals⟩ := exists_add_totals hsums (hkind ▸ h.totals k hk)
    exact ⟨_, tally_of_mem h.distinct hk hkind hadd, h.put hk hkind (hkind'.trans hkind) htotals⟩
  · have habsent : ∀ s ∈ ks, s.kind ≠ e.kind := fun s hs hkind => hk ⟨s, hs, hkind⟩
    have hfirst : ofKind e.kind es = [] := by
      refine List.filter_eq_nil_iff.2 fun e' he' hkind => ?_
      have hmem : e.kind ∈ es.map (·.kind) :=
        List.mem_map.2 ⟨e', he', beq_iff_eq.1 hkind⟩
      obtain ⟨s, hs, hsame⟩ := List.mem_map.1 ((h.present _).2 hmem)
      exact habsent s hs hsame
    have hzero : (0 : Decimal).value = 0 := Decimal.value_zero _ _
    obtain ⟨k', hadd, hkind', htotals⟩ := exists_add_totals hsums (k := { kind := e.kind })
      (hfirst.symm ▸ ⟨rfl, hzero, hzero⟩)
    exact ⟨_, tally_of_absent habsent hadd, h.append habsent hkind' htotals⟩

/-- Entries are tallied one after the other. -/
theorem Tallied.run (h : Tallied ks done) (hsums : Summable (done ++ es)) :
    ∃ ks', es.foldlM (fun ss e => tally e ss) ks = .ok ks' ∧ Tallied ks' (done ++ es) := by
  induction es generalizing ks done with
  | nil => exact ⟨ks, rfl, (List.append_nil done).symm ▸ h⟩
  | cons e es ih =>
      have hsplit : done ++ e :: es = done ++ [e] ++ es := by simp
      rw [hsplit] at hsums ⊢
      obtain ⟨ks₁, hstep, h₁⟩ :=
        h.step (hsums.of_subperm (List.sublist_append_left _ _).subperm)
      obtain ⟨ks₂, hrun, h₂⟩ := ih h₁ hsums
      refine ⟨ks₂, ?_, h₂⟩
      rw [List.foldlM_cons]
      exact bind_eq_ok.2 ⟨ks₁, hstep, hrun⟩

/-- Entries whose amounts can be summed are summarized as they are. -/
theorem exists_counts (hsums : Summable es) (period : String) (superseded : Nat) :
    ∃ kinds, es.foldlM (fun ss e => tally e ss) [] = .ok kinds ∧ PeriodSummary.Counts {
      period
      entries := es.length
      details := (es.map (·.detail)).eraseDups.length
      kinds
      superseded } es := by
  obtain ⟨kinds, hrun, h⟩ := Tallied.nil.run hsums
  exact ⟨kinds, hrun, rfl, List.length_eraseDups _, h⟩

end AuditTrail

end Payroll
