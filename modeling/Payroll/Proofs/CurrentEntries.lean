import Mathlib
import Payroll.Proofs.RecordedEntries

/-!
The current entries of a list: those of the calculation that the last entry of their payroll detail
belongs to.
-/

namespace Payroll.AuditTrail

variable {es new : List AuditEntry} {e last : AuditEntry} {detail : String}

theorem latestOf_eq (detail : String) (ss : List Stamp) :
    latestOf detail ss = (ss.filter fun s => s.detail == detail).getLast?.map (·.calculation) := by
  induction ss with
  | nil => rfl
  | cons s ss ih =>
      rw [latestOf, ih, List.filter_cons]
      cases hlast : (ss.filter fun s => s.detail == detail).getLast? with
      | none =>
          rw [List.getLast?_eq_none_iff.1 hlast]
          by_cases hs : s.detail = detail <;> simp [hs]
      | some s' =>
          by_cases hs : s.detail = detail <;> simp [hs, List.getLast?_cons, hlast]

/-- The entries of a payroll detail. -/
def ofDetail (detail : String) (es : List AuditEntry) : List AuditEntry :=
  es.filter fun e => e.detail == detail

/-- The calculation of the last entry of a detail, if it has any. -/
def lastCalculation (detail : String) (es : List AuditEntry) : Option (Option String) :=
  (ofDetail detail es).getLast?.map (·.calculation)

theorem latestOf_stamps (detail : String) (es : List AuditEntry) :
    latestOf detail (es.map stampOf) = lastCalculation detail es := by
  have hstamps : (es.map stampOf).filter (fun s => s.detail == detail) =
      (ofDetail detail es).map stampOf := List.filter_map
  rw [latestOf_eq, hstamps, List.getLast?_map, Option.map_map]
  rfl

theorem currentEntries_eq (es : List AuditEntry) : currentEntries es =
    es.filter fun e => lastCalculation e.detail es == some e.calculation := by
  unfold currentEntries
  simp only [latestOf_stamps]

theorem stamps_currentEntries (es : List AuditEntry) :
    (currentEntries es).map stampOf = current (es.map stampOf) := by
  rw [current, List.filter_map]
  rfl

theorem mem_ofDetail : e ∈ ofDetail detail es ↔ e ∈ es ∧ e.detail = detail := by
  rw [ofDetail, List.mem_filter, beq_iff_eq]

theorem lastCalculation_append (detail : String) (es new : List AuditEntry) :
    lastCalculation detail (es ++ new) =
      (lastCalculation detail new).or (lastCalculation detail es) := by
  rw [lastCalculation, ofDetail, List.filter_append, List.getLast?_append, Option.map_or]
  rfl

theorem lastCalculation_eq_none (h : ∀ e ∈ es, e.detail ≠ detail) :
    lastCalculation detail es = none := by
  have hnil : ofDetail detail es = [] :=
    List.filter_eq_nil_iff.2 fun e he hdetail => h e he (beq_iff_eq.1 hdetail)
  rw [lastCalculation, hnil]
  rfl

/-- The current entries of a detail are found among its own entries. -/
theorem ofDetail_currentEntries (detail : String) (es : List AuditEntry) :
    ofDetail detail (currentEntries es) =
      (ofDetail detail es).filter fun e => lastCalculation detail es == some e.calculation := by
  rw [currentEntries_eq, ofDetail, ofDetail, List.filter_filter, List.filter_filter]
  refine List.filter_congr fun e _ => ?_
  by_cases hdetail : e.detail = detail
  · rw [hdetail, Bool.and_comm]
  · rw [beq_false_of_ne hdetail, Bool.false_and, Bool.and_false]

/-- The last entry of a detail is current, and is the last one that is. -/
theorem getLast?_currentEntries (detail : String) (es : List AuditEntry) :
    (ofDetail detail (currentEntries es)).getLast? = (ofDetail detail es).getLast? := by
  rw [ofDetail_currentEntries]
  cases hlast : (ofDetail detail es).getLast? with
  | none => rw [List.getLast?_eq_none_iff.1 hlast]; rfl
  | some last =>
      have hcalculation : lastCalculation detail es = some last.calculation := by
        rw [lastCalculation, hlast]
        rfl
      obtain ⟨front, hfront⟩ := List.getLast?_eq_some_iff.1 hlast
      rw [hcalculation, hfront, List.filter_append]
      simp

theorem lastCalculation_currentEntries (detail : String) (es : List AuditEntry) :
    lastCalculation detail (currentEntries es) = lastCalculation detail es := by
  rw [lastCalculation, getLast?_currentEntries]
  rfl

theorem exists_current (he : e ∈ es) : ∃ e' ∈ currentEntries es, e'.detail = e.detail := by
  have hmem : e ∈ ofDetail e.detail es := mem_ofDetail.2 ⟨he, rfl⟩
  have hsome := List.getLast?_eq_some_getLast (List.ne_nil_of_mem hmem)
  rw [← getLast?_currentEntries] at hsome
  exact ⟨_, mem_ofDetail.1 (List.mem_of_getLast? hsome)⟩

theorem currentEntries_idem (es : List AuditEntry) :
    currentEntries (currentEntries es) = currentEntries es := by
  rw [currentEntries_eq (currentEntries es)]
  simp only [lastCalculation_currentEntries]
  rw [currentEntries_eq, List.filter_filter]
  simp only [Bool.and_self]

/-- Entries of other details do not matter, wherever they stand. -/
theorem currentEntries_ofDetail (detail : String) (es : List AuditEntry) :
    currentEntries (ofDetail detail es) = ofDetail detail (currentEntries es) := by
  have hself : ofDetail detail (ofDetail detail es) = ofDetail detail es := by
    rw [ofDetail, ofDetail, List.filter_filter]
    simp only [Bool.and_self]
  rw [ofDetail_currentEntries, currentEntries_eq]
  refine List.filter_congr fun e he => ?_
  rw [(mem_ofDetail.1 he).2, lastCalculation, hself]
  rfl

theorem currentEntries_append {c : Option String} (hne : new ≠ [])
    (hnew : ∀ e ∈ new, e.detail = detail ∧ e.calculation = c)
    (hunseen : ∀ e ∈ es, e.detail = detail → e.calculation ≠ c) :
    currentEntries (es ++ new) =
      (currentEntries es).filter (fun e => e.detail != detail) ++ new := by
  have hall : ofDetail detail new = new :=
    List.filter_eq_self.2 fun e he => beq_iff_eq.2 (hnew e he).1
  have hlast : lastCalculation detail new = some c := by
    have hsome := List.getLast?_eq_some_getLast hne
    rw [lastCalculation, hall, hsome, Option.map_some, (hnew _ (List.getLast_mem hne)).2]
  rw [currentEntries_eq, List.filter_append]
  congr 1
  · rw [currentEntries_eq, List.filter_filter]
    refine List.filter_congr fun e he => ?_
    rw [lastCalculation_append]
    by_cases hdetail : e.detail = detail
    · have hother : c ≠ e.calculation := (hunseen e he hdetail).symm
      simp [hdetail, hlast, hother]
    · have hnone : lastCalculation e.detail new = none :=
        lastCalculation_eq_none fun e' he' heq => hdetail (heq.symm.trans (hnew e' he').1)
      simp [hdetail, hnone]
  · refine List.filter_eq_self.2 fun e he => ?_
    rw [lastCalculation_append, (hnew e he).1, (hnew e he).2, hlast]
    simp

/-- A new calculation takes the place of the entries of its detail, and those of other details keep
theirs, however the entries are interleaved. -/
theorem currentEntries_interleaved {c : Option String} {all : List AuditEntry} (hne : new ≠ [])
    (hnew : ∀ e ∈ new, e.detail = detail ∧ e.calculation = c)
    (hunseen : ∀ e ∈ es, e.detail = detail → e.calculation ≠ c)
    (hdetail : ofDetail detail all = ofDetail detail es ++ new)
    (hothers : ∀ other, other ≠ detail → ofDetail other all = ofDetail other es) :
    ofDetail detail (currentEntries all) = new ∧
    ∀ other, other ≠ detail →
      ofDetail other (currentEntries all) = ofDetail other (currentEntries es) := by
  refine ⟨?_, fun other hother => ?_⟩
  · have hgone : (currentEntries (ofDetail detail es)).filter (fun e => e.detail != detail) = [] := by
      refine List.filter_eq_nil_iff.2 fun e he hkept => bne_iff_ne.1 hkept ?_
      rw [currentEntries_ofDetail] at he
      exact (mem_ofDetail.1 he).2
    rw [← currentEntries_ofDetail, hdetail, currentEntries_append hne hnew, hgone, List.nil_append]
    exact fun e he => hunseen e (mem_ofDetail.1 he).1
  · rw [← currentEntries_ofDetail, hothers other hother, currentEntries_ofDetail]

/-- Current are the entries of the last calculation of their detail. The last entry of every detail is
among them, choosing them twice changes nothing, and a detail's own entries decide which of them are.
Entries of a new calculation take the place of those of their detail. -/
theorem currentEntries_latest (es : List AuditEntry) :
    (currentEntries es = es.filter fun e => lastCalculation e.detail es == some e.calculation) ∧
    (∀ detail, (ofDetail detail (currentEntries es)).getLast? = (ofDetail detail es).getLast?) ∧
    (∀ e ∈ es, ∃ e' ∈ currentEntries es, e'.detail = e.detail) ∧
    currentEntries (currentEntries es) = currentEntries es ∧
    (∀ detail, currentEntries (ofDetail detail es) = ofDetail detail (currentEntries es)) ∧
    ∀ (detail : String) (c : Option String) (new : List AuditEntry), new ≠ [] →
      (∀ e ∈ new, e.detail = detail ∧ e.calculation = c) →
      (∀ e ∈ es, e.detail = detail → e.calculation ≠ c) →
      currentEntries (es ++ new) =
        (currentEntries es).filter (fun e => e.detail != detail) ++ new ∧
      ∀ all, ofDetail detail all = ofDetail detail es ++ new →
        (∀ other, other ≠ detail → ofDetail other all = ofDetail other es) →
        ofDetail detail (currentEntries all) = new ∧
        ∀ other, other ≠ detail →
          ofDetail other (currentEntries all) = ofDetail other (currentEntries es) :=
  ⟨currentEntries_eq es, fun detail => getLast?_currentEntries detail es,
    fun _ he => exists_current he, currentEntries_idem es,
    fun detail => currentEntries_ofDetail detail es,
    fun _ _ _ hne hnew hunseen => ⟨currentEntries_append hne hnew hunseen,
      fun _ => currentEntries_interleaved hne hnew hunseen⟩⟩

def paidBy (id detail : String) (calculation : Option String) : AuditEntry :=
  { payment detail with id, calculation }

/-- Two details, one of which returns to no calculation after one. -/
def interleaved : List AuditEntry :=
  [paidBy "e1" "d1" none, paidBy "e2" "d2" (some "c1"), paidBy "e3" "d1" (some "c1"),
    paidBy "e4" "d2" (some "c2"), paidBy "e5" "d1" none]

theorem interleaved_latest :
    currentEntries interleaved =
      [paidBy "e1" "d1" none, paidBy "e4" "d2" (some "c2"), paidBy "e5" "d1" none] ∧
    (paidBy "e3" "d1" (some "c1") ∈ interleaved ∧
      ∃ e ∈ currentEntries interleaved, e.detail = "d1") ∧
    (∀ e ∈ interleaved, e.detail = "d1" → e.calculation ≠ some "c2") ∧
    currentEntries (interleaved ++ [paidBy "e6" "d1" (some "c2")]) =
      [paidBy "e4" "d2" (some "c2"), paidBy "e6" "d1" (some "c2")] := by
  obtain ⟨-, -, hkept, -, -, happend⟩ := currentEntries_latest interleaved
  have hmem : paidBy "e3" "d1" (some "c1") ∈ interleaved := by simp [interleaved]
  have hunseen : ∀ e ∈ interleaved, e.detail = "d1" → e.calculation ≠ some "c2" := by
    simp [interleaved, paidBy, payment]
  refine ⟨by cbv, ⟨hmem, hkept _ hmem⟩, hunseen, ?_⟩
  have hnew : ∀ e ∈ [paidBy "e6" "d1" (some "c2")], e.detail = "d1" ∧ e.calculation = some "c2" :=
    List.forall_mem_singleton.2 ⟨rfl, rfl⟩
  rw [(happend "d1" (some "c2") _ (List.cons_ne_nil _ _) hnew hunseen).1]
  cbv

end Payroll.AuditTrail
