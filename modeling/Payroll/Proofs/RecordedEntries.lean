import Mathlib
import Payroll.Audit.Recorder
import Payroll.Proofs.EntryRecord
import Payroll.Proofs.RecordingSteps

/-!
What calls that store entries make of the audit trail. An entry is refused if its payroll detail has
one with its id; entries of different details may have one id, and then share what is found under it.
-/

namespace Payroll.AuditTrail

open Result
open Recording (document record_eq_ok)

variable {t : AuditTrail} {c : Call} {cs : List Call} {e : AuditEntry} {es : List AuditEntry}

theorem Call.run_of_ok {next : AuditTrail} (h : t.record c.entry = .ok next) :
    c.run t = (.ok c.entry, next) := by
  rw [Call.run, h]
  rfl

theorem Call.run_of_error {f : Fault} (h : t.record c.entry = .error f) :
    c.run t = (.error f, t) := by
  rw [Call.run, h]
  rfl

/-- A trail that consists of entries that were stored in it, in their order. -/
structure Keeps (t : AuditTrail) (es : List AuditEntry) : Prop where
  documents : t.documents = es.map document
  safe : ∀ e ∈ es, Key.isSafe e.detail = true ∧ Key.isSafe e.id = true
  readable : ∀ e ∈ es, e.Readable
  distinct : (es.map fun e => (e.detail, e.id)).Nodup

namespace Keeps

theorem empty : Keeps {} [] where
  documents := rfl
  safe := by simp
  readable := by simp
  distinct := List.nodup_nil

theorem holds_iff (h : Keeps t es) {detail id : String} :
    t.holds detail id = true ↔ ∃ e ∈ es, e.detail = detail ∧ e.id = id := by
  simp [holds, h.documents, document]

theorem record_iff (h : Keeps t es) {next : AuditTrail} : t.record e = .ok next ↔
    Key.isSafe e.detail = true ∧ Key.isSafe e.id = true ∧
      (∀ e' ∈ es, e'.detail = e.detail → e'.id ≠ e.id) ∧ next = ⟨(es ++ [e]).map document⟩ := by
  have hfree : t.holds e.detail e.id = false ↔
      ∀ e' ∈ es, e'.detail = e.detail → e'.id ≠ e.id := by
    rw [← Bool.not_eq_true, h.holds_iff]
    push Not
    rfl
  rw [record_eq_ok, hfree, h.documents, List.map_append]
  rfl

theorem add (h : Keeps t es) (hr : e.Readable) {next : AuditTrail}
    (hrecord : t.record e = .ok next) : Keeps next (es ++ [e]) := by
  obtain ⟨hdetail, hid, hfree, rfl⟩ := h.record_iff.1 hrecord
  refine ⟨rfl, ?_, ?_, ?_⟩
  · exact List.forall_mem_append.2 ⟨h.safe, List.forall_mem_singleton.2 ⟨hdetail, hid⟩⟩
  · exact List.forall_mem_append.2 ⟨h.readable, List.forall_mem_singleton.2 hr⟩
  · rw [List.map_append, List.map_singleton]
    apply h.distinct.append (List.nodup_singleton _)
    intro key hold hlast
    obtain ⟨e', he', rfl⟩ := List.mem_map.1 hold
    obtain ⟨hd, hi⟩ := Prod.mk.inj (List.mem_singleton.1 hlast)
    exact hfree e' he' hd hi

theorem run (h : Keeps t es) (hr : c.entry.Readable) :
    Keeps (c.run t).2 (es ++ returned [(c.run t).1]) := by
  cases hrecord : t.record c.entry with
  | ok next =>
      rw [Call.run_of_ok hrecord]
      exact h.add hr hrecord
  | error f =>
      rwa [Call.run_of_error hrecord, show returned [.error f] = [] from rfl, List.append_nil]

theorem runCalls (h : Keeps t es) (hr : ∀ c ∈ cs, c.entry.Readable) :
    Keeps (runCalls t cs).2 (es ++ returned (runCalls t cs).1) := by
  induction cs generalizing t es with
  | nil => rwa [show returned (AuditTrail.runCalls t []).1 = [] from rfl, List.append_nil]
  | cons c cs ih =>
      obtain ⟨hc, hcs⟩ := List.forall_mem_cons.1 hr
      have hlast := ih (h.run hc) hcs
      rwa [List.append_assoc, returned, returned, ← List.filterMap_append] at hlast

end Keeps

theorem mem_returned_runCalls (h : e ∈ returned (runCalls t cs).1) : ∃ c ∈ cs, c.entry = e := by
  induction cs generalizing t with
  | nil => cases h
  | cons c cs ih =>
      obtain ⟨outcome, hmem, he⟩ := List.mem_filterMap.1 h
      rcases List.mem_cons.1 hmem with rfl | hmem
      · cases hrecord : t.record c.entry with
        | ok next =>
            rw [Call.run_of_ok hrecord] at he
            exact ⟨c, List.mem_cons_self, Option.some.inj he⟩
        | error f =>
            rw [Call.run_of_error hrecord] at he
            cases he
      · obtain ⟨c', hc', heq⟩ := ih (List.mem_filterMap.2 ⟨outcome, hmem, he⟩)
        exact ⟨c', List.mem_cons_of_mem c hc', heq⟩

/-- A payment of one id, in the name of a detail. -/
def payment (detail : String) : AuditEntry where
  id := "e1"
  detail
  calculation := none
  period := none
  kind := .formula
  concept := "P010"
  inputs := []
  base := 0
  lower := none
  excess := none
  marginal := none
  fixedFee := none
  result := 1
  rule := "f1"
  ruleVersion := "1"
  table := none
  fiscalYear := 2025
  periodKind := .biweekly
  calculatedAt := .midJanuary
  calculatedBy := none
  inputSnapshot := none
  outputSnapshot := none
  rulesSnapshot := none
  snapshotHash := none

def payments : List Call := [.record (payment "d1"), .record (payment "d2"), .record (payment "d1")]

end Payroll.AuditTrail
