import Mathlib
import Payroll.Proofs.CurrentEntries
import Payroll.Proofs.DatedCalls
import Payroll.Proofs.SummaryTotals

/-!
The summary of a period counts of every payroll detail the entries of the last call that left any, and
reports the others as superseded.
-/

namespace Payroll

open Result
open Recording (document)

theorem List.eq_or_rel_getLast {α : Type} {R : α → α → Prop} {l : List α} {a b : α}
    (h : l.Pairwise R) (hb : l.getLast? = some b) (ha : a ∈ l) : a = b ∨ R a b := by
  obtain ⟨front, rfl⟩ := List.getLast?_eq_some_iff.1 hb
  rcases List.mem_append.1 ha with ha | ha
  · exact .inr ((List.pairwise_append.1 h).2.2 a ha b (List.mem_singleton_self b))
  · exact .inl (List.mem_singleton.1 ha)

namespace AuditTrail

variable {t : AuditTrail} {a b c e : AuditEntry} {es all : List AuditEntry} {P detail : String}

theorem older_iff : older a b = true ↔ a.calculatedAt.micros < b.calculatedAt.micros ∨
    a.calculatedAt.micros = b.calculatedAt.micros ∧ a.id ≤ b.id := by
  unfold older
  split
  · next h => simp [h]
  · next h => simp [h]

theorem older_trans (h : older a b = true) (h' : older b c = true) : older a c = true := by
  rw [older_iff] at *
  rcases h with h | ⟨h, hid⟩
  · rcases h' with h' | ⟨h', -⟩
    · exact .inl (h.trans h')
    · exact .inl (h.trans_eq h')
  · rcases h' with h' | ⟨h', hid'⟩
    · exact .inl (h.trans_lt h')
    · exact .inr ⟨h.trans h', hid.trans hid'⟩

theorem older_total (a b : AuditEntry) : (older a b || older b a) = true := by
  rw [Bool.or_eq_true, older_iff, older_iff]
  rcases lt_trichotomy a.calculatedAt.micros b.calculatedAt.micros with h | h | h
  · exact .inl (.inl h)
  · exact (le_total a.id b.id).imp (fun hid => .inr ⟨h, hid⟩) fun hid => .inr ⟨h.symm, hid⟩
  · exact .inr (.inl h)

theorem micros_le_of_older (h : older a b = true) : a.calculatedAt.micros ≤ b.calculatedAt.micros := by
  rcases older_iff.1 h with h | ⟨h, -⟩
  · exact h.le
  · exact h.le

/-- The entries of a period. -/
def inPeriod (P : String) (es : List AuditEntry) : List AuditEntry :=
  es.filter fun e => e.period == some P

theorem inPeriod_append (P : String) (es es' : List AuditEntry) :
    inPeriod P (es ++ es') = inPeriod P es ++ inPeriod P es' := List.filter_append _ _

theorem admits_period (hP : P ≠ "") (e : AuditEntry) :
    ({ period := .text P } : Filter).admits e = (e.period == some P) := by
  have htruthy : (Json.text P).truthy = true := bne_iff_ne.2 hP
  have htext : (Json.text P).text? = some P := rfl
  have hnull : Json.null.truthy = false := rfl
  rw [Filter.admits]
  simp only [htruthy, htext, hnull]
  cases e.period with
  | none => rfl
  | some Q =>
      rw [Bool.eq_iff_iff]
      simpa using eq_comm

theorem mapM_load {ds : List AuditDocument}
    (h : ∀ d ∈ ds, ∃ e, d = document e ∧ AuditEntry.load e.toJson = .ok e) :
    ∃ es, ds.mapM (fun d => AuditEntry.load d.content) = .ok es ∧ es.map document = ds ∧
      ∀ e ∈ es, AuditEntry.load e.toJson = .ok e := by
  induction ds with
  | nil => exact ⟨[], rfl, rfl, fun _ => (nomatch ·)⟩
  | cons d ds ih =>
      obtain ⟨⟨e, rfl, he⟩, hds⟩ := List.forall_mem_cons.1 h
      obtain ⟨es, hes, rfl, hload⟩ := ih hds
      exact ⟨e :: es, mapM_cons_eq_ok.2 ⟨e, es, he, hes, rfl⟩, rfl,
        List.forall_mem_cons.2 ⟨he, hload⟩⟩

/-- Documents from which all entries read back tell their entries. -/
theorem perm_of_documents (hes : ∀ e ∈ es, AuditEntry.load e.toJson = .ok e)
    (hall : ∀ e ∈ all, AuditEntry.load e.toJson = .ok e)
    (h : (es.map document).Perm (all.map document)) : es.Perm all := by
  rw [← filterMap_load hes, ← filterMap_load hall]
  exact h.filterMap _

theorem inOrder_eq_ok (h : ∀ e ∈ es, ∀ e' ∈ es,
    e.calculatedAt.offset.isNone = e'.calculatedAt.offset.isNone) :
    inOrder es = .ok (es.mergeSort older) := by
  rw [inOrder]
  refine if_neg fun hmixed => ?_
  obtain ⟨hlocal, hother⟩ := Bool.and_eq_true_iff.1 hmixed
  obtain ⟨e, he, hnone⟩ := List.any_eq_true.1 hlocal
  obtain ⟨e', he', hsome⟩ := List.any_eq_true.1 hother
  rw [h e he e' he'] at hnone
  simp [hnone] at hsome

/-- The entries of a period are listed by their times. -/
theorem list_period
    (hP : ∀ e ∈ all, ({ period := .text P } : Filter).admits e = (e.period == some P)) (hdocs : t.documents = all.map document)
    (hload : ∀ e ∈ all, AuditEntry.load e.toJson = .ok e)
    (hcomparable : ∀ e ∈ all, ∀ e' ∈ all,
      e.calculatedAt.offset.isNone = e'.calculatedAt.offset.isNone) :
    ∃ es, t.list { period := .text P } = .ok es ∧ es.Perm (inPeriod P all) ∧
      es.Pairwise fun a b => older a b = true := by
  have hfiles : t.inFileOrder.Perm (all.map document) := hdocs ▸ List.mergeSort_perm _ _
  have hfound : ∀ d ∈ t.inFileOrder,
      ∃ e, d = document e ∧ AuditEntry.load e.toJson = .ok e := by
    intro d hd
    obtain ⟨e, he, rfl⟩ := List.mem_map.1 (hfiles.mem_iff.1 hd)
    exact ⟨e, rfl, hload e he⟩
  obtain ⟨read, hread, hdocs', hload'⟩ := mapM_load hfound
  have hperm : read.Perm all := perm_of_documents hload' hload (hdocs' ▸ hfiles)
  have hfilter : read.filter ({ period := .text P } : Filter).admits = inPeriod P read :=
    List.filter_congr fun e he => hP e (hperm.mem_iff.1 he)
  have horder : inOrder (inPeriod P read) = .ok ((inPeriod P read).mergeSort older) := by
    have hall {e : AuditEntry} (he : e ∈ inPeriod P read) : e ∈ all :=
      hperm.mem_iff.1 (List.mem_filter.1 he).1
    exact inOrder_eq_ok fun e he e' he' => hcomparable e (hall he) e' (hall he')
  have hlist : t.list { period := .text P } =
      t.inFileOrder.mapM (fun d => AuditEntry.load d.content) >>= fun es =>
        inOrder (es.filter ({ period := .text P } : Filter).admits) := by
    rw [list]
    rfl
  refine ⟨(inPeriod P read).mergeSort older, ?_, ?_, ?_⟩
  · rw [hlist]
    refine bind_eq_ok.2 ⟨read, hread, ?_⟩
    rw [hfilter]
    exact horder
  · exact (List.mergeSort_perm _ _).trans (hperm.filter _)
  · exact @List.pairwise_mergeSort _ older (fun _ _ _ => older_trans) older_total _

end AuditTrail

namespace FinishedCall

open AuditTrail (inPeriod latestOf stampOf)

variable {t : AuditTrail} {calls : List FinishedCall} {x y : FinishedCall} {P detail : String}
  {e : AuditEntry}

/-- A call that left entries in a period for a detail. -/
def Enters (P detail : String) (x : FinishedCall) : Bool :=
  x.leavesEntries && x.period == P && x.detail == detail

/-- The calculation of the last such call. -/
def lastFor (P detail : String) (calls : List FinishedCall) : Option String :=
  (calls.filter (Enters P detail)).getLast?.map fun x => x.call.id

theorem leavesEntries_iff : x.leavesEntries = true ↔ x.entries ≠ [] := by
  simp [leavesEntries]

theorem lastFor_append (P detail : String) (calls : List FinishedCall) (x : FinishedCall) :
    lastFor P detail (calls ++ [x]) =
      if Enters P detail x then some x.call.id else lastFor P detail calls := by
  rw [lastFor, List.filter_append]
  by_cases hx : Enters P detail x = true
  · simp [hx]
  · simp [hx, lastFor]

theorem latest_append (counts : FinishedCall → Bool) (P : String) (calls : List FinishedCall)
    (x : FinishedCall) : latest counts P (calls ++ [x]) =
      if counts x && x.period == P then
        (latest counts P calls).filter (fun e => e.detail != x.detail) ++ x.entries
      else latest counts P calls := by
  rw [latest, List.foldl_append]
  rfl

theorem mem_inPeriod (hmade : ∀ x ∈ calls, ∀ e ∈ x.entries, x.call.Made e)
    (he : e ∈ inPeriod P (calls.flatMap (·.entries))) : ∃ x ∈ calls, e ∈ x.entries ∧
      Enters P e.detail x = true ∧ e.calculation = some x.call.id := by
  obtain ⟨hmem, hperiod⟩ := List.mem_filter.1 he
  obtain ⟨x, hx, he⟩ := List.mem_flatMap.1 hmem
  have hm := hmade x hx e he
  refine ⟨x, hx, he, ?_, hm.calculation⟩
  have hleaves := leavesEntries_iff.2 (List.ne_nil_of_mem he)
  have hP : x.period = P := Option.some.inj (hm.period.symm.trans (beq_iff_eq.1 hperiod))
  simp [Enters, hleaves, hP, hm.detail, detail]

/-- The entries that count are those of the last call for their detail. -/
theorem latest_eq (hmade : ∀ x ∈ calls, ∀ e ∈ x.entries, x.call.Made e)
    (hordered : calls.Pairwise Precedes) : latest leavesEntries P calls =
      (inPeriod P (calls.flatMap (·.entries))).filter
        fun e => lastFor P e.detail calls == e.calculation := by
  induction calls using List.reverseRecOn with
  | nil => rfl
  | append_singleton calls x ih =>
      obtain ⟨hcalls, hx⟩ := List.forall_mem_append.1 hmade
      obtain ⟨hpairs, -, hlast⟩ := List.pairwise_append.1 hordered
      have hx := hx x (List.mem_singleton_self x)
      rw [latest_append, ih hcalls hpairs, List.flatMap_append, List.flatMap_singleton,
        AuditTrail.inPeriod_append, List.filter_append]
      by_cases henters : (x.leavesEntries && x.period == P) = true
      · have hx' (d : String) : Enters P d x = (x.detail == d) := by
          rw [Enters, henters, Bool.true_and]
        rw [if_pos henters]
        congr 1
        · -- earlier entries of the detail lose their place, and the others keep theirs
          rw [List.filter_filter]
          refine List.filter_congr fun e he => ?_
          obtain ⟨y, hy, hey, -, hcalculation⟩ := mem_inPeriod hcalls he
          have hne := (hlast y hy x (List.mem_singleton_self x)).2 (List.ne_nil_of_mem hey)
          rw [lastFor_append, hx', hcalculation]
          by_cases hd : e.detail = x.detail
          · simp [hd, Ne.symm hne]
          · simp [hd, Ne.symm hd]
        · obtain ⟨-, hperiod⟩ := Bool.and_eq_true_iff.1 henters
          have hself : inPeriod P x.entries = x.entries := by
            refine List.filter_eq_self.2 fun e he => ?_
            rw [(hx e he).period]
            exact beq_iff_eq.2 (congrArg some (beq_iff_eq.1 hperiod))
          rw [hself]
          refine (List.filter_eq_self.2 fun e he => ?_).symm
          rw [lastFor_append, hx', (hx e he).calculation, (hx e he).detail]
          simp [detail]
      · have hx' (d : String) : Enters P d x = false := by
          rw [Enters, Bool.eq_false_iff.2 henters, Bool.false_and]
        have hnone : inPeriod P x.entries = [] := by
          refine List.filter_eq_nil_iff.2 fun e he hperiod => henters ?_
          rw [(hx e he).period] at hperiod
          have hleaves := leavesEntries_iff.2 (List.ne_nil_of_mem he)
          rw [hleaves, Bool.true_and]
          exact beq_iff_eq.2 (Option.some.inj (beq_iff_eq.1 hperiod))
        rw [if_neg henters, hnone, List.filter_nil, List.append_nil]
        refine List.filter_congr fun e _ => ?_
        rw [lastFor_append, hx']
        rfl

theorem Enters.entry (hmade : ∀ x ∈ calls, ∀ e ∈ x.entries, x.call.Made e) (hx : x ∈ calls)
    (h : Enters P detail x = true) : ∃ e ∈ x.entries, e.detail = detail ∧
      e ∈ inPeriod P (calls.flatMap (·.entries)) := by
  obtain ⟨h, hdetail⟩ := Bool.and_eq_true_iff.1 h
  obtain ⟨hleaves, hperiod⟩ := Bool.and_eq_true_iff.1 h
  obtain ⟨e, he⟩ := List.exists_mem_of_ne_nil _ (leavesEntries_iff.1 hleaves)
  have hm := hmade x hx e he
  refine ⟨e, he, hm.detail.trans (beq_iff_eq.1 hdetail), List.mem_filter.2 ⟨?_, ?_⟩⟩
  · exact List.mem_flatMap.2 ⟨x, hx, he⟩
  · rw [hm.period]
    exact beq_iff_eq.2 (congrArg some (beq_iff_eq.1 hperiod))

/-- In the order of time, the last entry of a detail is one of the last call for it. -/
theorem latestOf_eq_lastFor (hmade : ∀ x ∈ calls, ∀ e ∈ x.entries, x.call.Made e)
    (hordered : calls.Pairwise Precedes) {es : List AuditEntry}
    (hperm : es.Perm (inPeriod P (calls.flatMap (·.entries))))
    (hsorted : es.Pairwise fun a b => AuditTrail.older a b = true) (he : e ∈ es) :
    latestOf e.detail (es.map stampOf) = some (lastFor P e.detail calls) := by
  rw [AuditTrail.latestOf_stamps, AuditTrail.lastCalculation]
  cases hlast : (AuditTrail.ofDetail e.detail es).getLast? with
  | none =>
      have hmem : e ∈ AuditTrail.ofDetail e.detail es := AuditTrail.mem_ofDetail.2 ⟨he, rfl⟩
      exact absurd (List.getLast?_eq_none_iff.1 hlast) (List.ne_nil_of_mem hmem)
  | some m =>
      obtain ⟨hm, hdetail⟩ := AuditTrail.mem_ofDetail.1 (List.mem_of_getLast? hlast)
      obtain ⟨y, hy, hmy, henters, hcalculation⟩ := mem_inPeriod hmade (hperm.mem_iff.1 hm)
      rw [hdetail] at henters
      cases hz : (calls.filter (Enters P e.detail)).getLast? with
      | none =>
          have hnone := List.getLast?_eq_none_iff.1 hz
          exact absurd henters (List.filter_eq_nil_iff.1 hnone y hy)
      | some z =>
          rw [lastFor, hz]
          obtain ⟨hzmem, hzenters⟩ := List.mem_filter.1 (List.mem_of_getLast? hz)
          rcases List.eq_or_rel_getLast (hordered.filter _) hz (List.mem_filter.2 ⟨hy, henters⟩)
            with rfl | ⟨hbefore, -⟩
          · exact congrArg some hcalculation
          · -- an entry of a later call would come after the last one
            obtain ⟨e', he', hdetail', hperiod⟩ := Enters.entry hmade hzmem hzenters
            have hmem : e' ∈ AuditTrail.ofDetail e.detail es :=
              AuditTrail.mem_ofDetail.2 ⟨hperm.mem_iff.2 hperiod, hdetail'⟩
            obtain ⟨n, hn⟩ := (hmade y hy m hmy).dated
            obtain ⟨n', hn'⟩ := (hmade z hzmem e' he').dated
            have hlt := (hbefore n n').2
            rw [← hn, ← hn'] at hlt
            rcases List.eq_or_rel_getLast (hsorted.filter _) hlast hmem with rfl | holder
            · exact absurd hlt (lt_irrefl _)
            · exact absurd (hlt.trans_le (AuditTrail.micros_le_of_older holder)) (lt_irrefl _)

/-- Of the entries of a period in the order of time, those count that the last calls for their details
left. -/
theorem currentEntries_perm (hmade : ∀ x ∈ calls, ∀ e ∈ x.entries, x.call.Made e)
    (hordered : calls.Pairwise Precedes) {es : List AuditEntry}
    (hperm : es.Perm (inPeriod P (calls.flatMap (·.entries))))
    (hsorted : es.Pairwise fun a b => AuditTrail.older a b = true) :
    (AuditTrail.currentEntries es).Perm (latest leavesEntries P calls) := by
  have hcurrent : AuditTrail.currentEntries es =
      es.filter fun e => lastFor P e.detail calls == e.calculation := by
    refine List.filter_congr fun e he => ?_
    rw [latestOf_eq_lastFor hmade hordered hperm hsorted he, Option.some_beq_some]
  rw [hcurrent, latest_eq hmade hordered]
  exact hperm.filter _

/-- If only calls that succeed leave entries in a period, the last to leave any there are the last to
succeed. -/
theorem latest_succeeded
    (hrecorded : ∀ x ∈ calls, ∀ r, x.outcome = .ok r →
      x.entries.map (·.id) = r.entries ∧ x.entries ≠ [])
    (h : ∀ x ∈ calls, x.period = P → x.leavesEntries → x.succeeded) :
    latest succeeded P calls = latest leavesEntries P calls := by
  have hleaves : ∀ x ∈ calls, x.succeeded → x.leavesEntries := by
    intro x hx hsucceeded
    rw [succeeded] at hsucceeded
    cases hx' : x.outcome with
    | error f =>
        rw [hx'] at hsucceeded
        cases hsucceeded
    | ok r => exact leavesEntries_iff.2 (hrecorded x hx r hx').2
  have hsame : ∀ x ∈ calls,
      (x.succeeded && x.period == P) = (x.leavesEntries && x.period == P) := by
    intro x hx
    by_cases hP : x.period = P
    · rw [Bool.eq_iff_iff.2 ⟨hleaves x hx, h x hx hP⟩]
    · rw [beq_eq_false_iff_ne.2 hP, Bool.and_false, Bool.and_false]
  refine List.foldl_ext _ _ _ fun kept x hx => ?_
  rw [hsame x hx]

/-- Calls whose times have a common order. -/
def Comparable (x y : FinishedCall) : Prop :=
  ∀ m n, (x.call.clock m).offset.isNone = (y.call.clock n).offset.isNone

instance : Std.Symm Comparable := ⟨fun _ _ h m n => (h n m).symm⟩

theorem Logged.comparable_entries (h : Logged t calls) :
    ∀ e ∈ calls.flatMap (·.entries), ∀ e' ∈ calls.flatMap (·.entries),
      e.calculatedAt.offset.isNone = e'.calculatedAt.offset.isNone := by
  have hclocks : ∀ ⦃x⦄, x ∈ calls → ∀ ⦃y⦄, y ∈ calls → Comparable x y :=
    (h.ordered.imp fun hxy m n => (hxy.1 m n).1 : calls.Pairwise Comparable).forall_of_forall
      h.comparable
  intro e he e' he'
  obtain ⟨x, hx, he⟩ := List.mem_flatMap.1 he
  obtain ⟨y, hy, he'⟩ := List.mem_flatMap.1 he'
  obtain ⟨m, hm⟩ := (h.made x hx e he).dated
  obtain ⟨n, hn⟩ := (h.made y hy e' he').dated
  rw [hm, hn]
  exact hclocks hx hy m n

theorem Logged.load (h : Logged t calls) :
    ∀ e ∈ calls.flatMap (·.entries), AuditEntry.load e.toJson = .ok e := by
  intro e he
  obtain ⟨x, hx, he⟩ := List.mem_flatMap.1 he
  exact (h.made x hx e he).load

/-- The summary of a period counts what the last calls left, and reports the rest. -/
theorem Logged.summarize_of_admits (h : Logged t calls)
    (hP : ∀ e ∈ calls.flatMap (·.entries),
      ({ period := .text P } : AuditTrail.Filter).admits e = (e.period == some P))
    (hsums : AuditTrail.Summable (latest leavesEntries P calls)) :
    ∃ s, t.summarize (.text P) = .ok s ∧ s.period = P ∧ s.Counts (latest leavesEntries P calls) ∧
      s.entries + s.superseded = (inPeriod P (calls.flatMap (·.entries))).length := by
  obtain ⟨es, hlist, hperm, hsorted⟩ :=
    AuditTrail.list_period hP h.documents h.load h.comparable_entries
  have hcurrent := currentEntries_perm h.made h.ordered hperm hsorted
  obtain ⟨kinds, hkinds, hcounts⟩ := AuditTrail.exists_counts
    (hsums.of_subperm hcurrent.subperm) P (es.length - (AuditTrail.currentEntries es).length)
  refine ⟨_, ?_, rfl, hcounts.perm hcurrent, ?_⟩
  · rw [AuditTrail.summarize]
    refine bind_eq_ok.2 ⟨es, hlist, bind_eq_ok.2 ⟨kinds, hkinds, rfl⟩⟩
  · rw [← hperm.length_eq]
    exact Nat.add_sub_cancel' (List.length_filter_le _ _)

theorem Logged.summarize (h : Logged t calls) (hP : P ≠ "")
    (hsums : AuditTrail.Summable (latest leavesEntries P calls)) :
    ∃ s, t.summarize (.text P) = .ok s ∧ s.period = P ∧ s.Counts (latest leavesEntries P calls) ∧
      s.entries + s.superseded = (inPeriod P (calls.flatMap (·.entries))).length :=
  h.summarize_of_admits (fun e _ => AuditTrail.admits_period hP e) hsums

end FinishedCall

namespace Installation

open FinishedCall (latest leavesEntries succeeded)
open AuditTrail (inPeriod)

variable {i : Installation} {calls : List FinishedCall} {P : String}

/-- The audit trail has the entries that calls left, those that succeeded all theirs. The summary of a
period counts of every payroll detail the entries of the last call that left any there, and reports the
others. Where only calls that succeed leave any, it counts those of the last call that did. -/
theorem summarize_latest (h : Calls i calls) (hP : P ≠ "")
    (hsums : AuditTrail.Summable (latest leavesEntries P calls)) :
    i.engine.trail.documents = (calls.flatMap (·.entries)).map document ∧
    (∀ x ∈ calls, ∀ r, x.outcome = .ok r → x.entries.map (·.id) = r.entries ∧ x.entries ≠ []) ∧
    ∃ s, i.engine.trail.summarize (.text P) = .ok s ∧ s.period = P ∧
      s.Counts (latest leavesEntries P calls) ∧
      s.entries + s.superseded = (inPeriod P (calls.flatMap (·.entries))).length ∧
      ((∀ x ∈ calls, x.period = P → x.leavesEntries → x.succeeded) →
        s.Counts (latest succeeded P calls)) := by
  obtain ⟨-, hlogged⟩ := logged_of_calls h
  obtain ⟨s, hs, hperiod, hcounts, htotal⟩ := hlogged.summarize hP hsums
  refine ⟨hlogged.documents, hlogged.recorded, s, hs, hperiod, hcounts, htotal, fun hall => ?_⟩
  rw [FinishedCall.latest_succeeded hlogged.recorded hall]
  exact hcounts

/-- A payroll detail that is paid at noon, and an hour later once more for fewer days. -/
def paidAtNoon : Engine.Call where
  id := "c1"
  now := FormulaStore.noon
  clock := fun _ => FormulaStore.noon
  request := { Engine.longPeriod with overrides := .null }

def later : Instant := { FormulaStore.noon with hour := 13, valid := by decide }

def paidAgain : Engine.Call where
  id := "c2"
  now := later
  clock := fun _ => later
  request := { Engine.longPeriod with overrides := .object [("workedDays", .text "10")] }

def paidOnce : Installation := paidAtNoon.after (below "srv" none)

def payments : List FinishedCall := [paidAtNoon.finish (below "srv" none), paidAgain.finish paidOnce]

theorem calls_payments : Calls (paidAgain.after paidOnce) payments := by
  obtain ⟨hemployee, hperiod⟩ := longPeriod_loaded
  have hids : paidOnce.engine.trail.documents.map (·.id) =
      ["c1-001", "c1-002", "c1-003", "c1-004", "c1-005"] := by
    decide +kernel
  have hunused : Recording.Unused paidOnce.engine.trail "c2" 1 := by
    intro d hd k _ hk
    have hmem : d.id ∈ paidOnce.engine.trail.documents.map (·.id) := List.mem_map_of_mem hd
    have hstart : ∀ id ∈ paidOnce.engine.trail.documents.map (·.id), id.toList[1]? = some '1' := by
      rw [hids]
      decide
    have hsecond := hstart d.id hmem
    rw [hk, Recording.toList_entryId] at hsecond
    cases hsecond
  have hlater : FormulaStore.noon.Before later := ⟨rfl, by decide +kernel⟩
  refine .call paidAgain (.call paidAtNoon (.start "srv" none)
    ⟨fun _ hd => (nomatch hd), hemployee, hperiod, fun _ _ => rfl, fun _ => (nomatch ·)⟩)
    ⟨hunused, hemployee, hperiod, fun _ _ => rfl, fun y hy _ _ => ?_⟩
  cases List.mem_singleton.1 hy
  exact hlater

/-- The five amounts of the second payment are in ten-thousandths, and there are five earlier ones. -/
theorem entries_payments :
    ((∀ e ∈ latest leavesEntries "2025-01-B1" payments,
        -4 ≤ e.base.exponent ∧ -4 ≤ e.result.exponent) ∧
      ((latest leavesEntries "2025-01-B1" payments).map fun e => e.base.units (-4)).sum <
        pow10 28 ∧
      ((latest leavesEntries "2025-01-B1" payments).map fun e => e.result.units (-4)).sum <
        pow10 28) ∧
    (latest leavesEntries "2025-01-B1" payments).length = 5 ∧
    (inPeriod "2025-01-B1" (payments.flatMap (·.entries))).length = 10 ∧
    ∀ x ∈ payments, x.leavesEntries → x.succeeded := by
  decide +kernel

theorem payments_summarized : Calls (paidAgain.after paidOnce) payments ∧ "2025-01-B1" ≠ "" ∧
    AuditTrail.Summable (latest leavesEntries "2025-01-B1" payments) ∧
    (∀ x ∈ payments, x.leavesEntries → x.succeeded) ∧
    ∃ s, (paidAgain.after paidOnce).engine.trail.summarize (.text "2025-01-B1") = .ok s ∧
      s.Counts (latest succeeded "2025-01-B1" payments) ∧ s.entries = 5 ∧ s.superseded = 5 := by
  obtain ⟨⟨hexp, hbase, hresult⟩, hlatest, hall, hsucceeded⟩ := entries_payments
  have hsums : AuditTrail.Summable (latest leavesEntries "2025-01-B1" payments) :=
    AuditTrail.summable_of_lt hexp hbase hresult (by decide) (by decide)
  obtain ⟨-, -, s, hs, -, hcounts, htotal, hwhole⟩ :=
    summarize_latest calls_payments (by decide) hsums
  have hfive : s.entries = 5 := hcounts.entries.trans hlatest
  have hcounts : s.Counts (latest succeeded "2025-01-B1" payments) :=
    hwhole fun x hx _ => hsucceeded x hx
  exact ⟨calls_payments, by decide, hsums, hsucceeded, s, hs, hcounts, hfive, by omega⟩

end Installation

end Payroll
