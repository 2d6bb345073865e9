import Mathlib
import Payroll.Proofs.CommandStates
import Payroll.Proofs.Faults
import Payroll.Proofs.PeriodSummaries
import Payroll.Proofs.StoreFaults

/-!
How questions about an audit trail end that calculations extend. Its entries can be read, put in order and
checked, and a sum of their amounts is refused only for its size.
-/

namespace Payroll.AuditTrail

open Result
open Recording (document)

variable {t : AuditTrail} {f : Filter} {id : String}

/-! ### Totals -/

theorem signal_overflows {α : Type} {x : Except Decimal.Signal α} (h : FailsIn (· = .overflow) x) :
    FailsIn (· = Fault.arithmetic .overflow) (liftM x : Except Fault α) := by
  cases x with
  | ok a => exact .ok a
  | error s => exact .error (congrArg Fault.arithmetic (h s rfl))

theorem KindSummary.add_overflows (s : KindSummary) (e : AuditEntry) :
    FailsIn (· = .arithmetic .overflow) (s.add e) :=
  (signal_overflows Decimal.Context.add_overflows).bind fun _ _ =>
    (signal_overflows Decimal.Context.add_overflows).bind fun _ _ => .ok _

theorem tally_overflows (e : AuditEntry) (ss : List KindSummary) :
    FailsIn (· = .arithmetic .overflow) (tally e ss) := by
  induction ss with
  | nil => exact (KindSummary.add_overflows _ e).bind fun _ _ => .ok _
  | cons s ss ih =>
      rw [tally]
      split
      · exact (s.add_overflows e).bind fun _ _ => .ok _
      · exact ih.bind fun _ _ => .ok _

/-! ### Lists of entries -/

/-- Every entry of a sound trail reads back from its document. -/
theorem Sound.exists_load (h : t.Sound) : ∀ d ∈ t.inFileOrder,
    ∃ e, d = document e ∧ AuditEntry.load e.toJson = .ok e := by
  intro d hd
  obtain ⟨e, rfl, -, hload, -⟩ := h.replays d (List.mem_mergeSort.1 hd)
  exact ⟨e, rfl, hload⟩

/-- Whichever documents are asked for, the entries that a filter admits are put in order. -/
theorem inOrder_succeeds (h : t.Sound) (hdated : t.Dated) {ds : List AuditDocument}
    (hds : ∀ d ∈ ds, d ∈ t.inFileOrder) : Succeeds (fun es => ∀ e ∈ es, document e ∈ t.documents)
      (ds.mapM (fun d => AuditEntry.load d.content) >>= fun es => inOrder (es.filter f.admits)) := by
  obtain ⟨read, hread, hdocuments, hload⟩ := mapM_load fun d hd => h.exists_load d (hds d hd)
  have hmem : ∀ e ∈ read, document e ∈ t.documents := fun e he =>
    List.mem_mergeSort.1 (hds _ (hdocuments ▸ List.mem_map_of_mem he))
  have hoffset : ∀ e ∈ read.filter f.admits, e.calculatedAt.offset.isNone = false := by
    intro e he
    have he := (List.mem_filter.1 he).1
    have hsome := hdated _ (hmem e he) e (hload e he)
    rwa [← Option.not_isNone, Bool.not_eq_true'] at hsome
  have horder := inOrder_eq_ok fun e he e' he' => (hoffset e he).trans (hoffset e' he').symm
  refine ⟨_, bind_eq_ok.2 ⟨read, hread, horder⟩, fun e he => ?_⟩
  exact hmem e (List.mem_filter.1 (List.mem_mergeSort.1 he)).1

theorem list_succeeds (h : t.Sound) (hdated : t.Dated) (hdetail : f.detail = .null) :
    Succeeds (fun es => ∀ e ∈ es, document e ∈ t.documents) (t.list f) := by
  unfold list
  rw [hdetail, if_neg (by decide)]
  exact inOrder_succeeds h hdated fun _ => id

/-- A list is refused only for a detail that is no identifier. -/
theorem list_fails (h : t.Sound) (hdated : t.Dated) {detail : Option String}
    (hdetail : f.detail = .optional .text detail) :
    FailsIn (fun g => g.isValueFault = true) (t.list f) := by
  have hrest {ds : List AuditDocument} (hds : ∀ d ∈ ds, d ∈ t.inFileOrder) :
      FailsIn (fun g => g.isValueFault = true)
        (ds.mapM (fun d => AuditEntry.load d.content) >>= fun es => inOrder (es.filter f.admits)) := by
    obtain ⟨es, hes, -⟩ := inOrder_succeeds (f := f) h hdated hds
    exact hes ▸ .ok es
  unfold list
  rw [hdetail]
  split
  · next htruthy =>
    cases detail with
    | none => cases htruthy
    | some s =>
        refine FailsIn.bind (Key.check_fails _ s) fun key _ => ?_
        exact hrest fun d hd => (List.mem_filter.1 hd).1
  · exact hrest fun _ => id

/-! ### Checks of entries -/

theorem stored_fails (id : String) : FailsIn (fun g => g.isValueFault = true ∨ g.kind = .noEntry)
    (t.stored (.text id)) := by
  refine FailsIn.bind ((Key.check_fails _ id).mono fun _ => Or.inl) fun key _ => ?_
  cases t.documentWith key with
  | none => exact .error (.inr rfl)
  | some d => exact .ok d

theorem mem_of_stored {d : AuditDocument} {id : Json} (h : t.stored id = .ok d) : d ∈ t.documents := by
  obtain ⟨key, -, h⟩ := bind_eq_ok.1 h
  cases hfound : t.documentWith key with
  | none =>
      rw [hfound] at h
      cases h
  | some d' =>
      rw [hfound] at h
      cases h
      exact List.mem_of_find?_eq_some hfound

theorem entry_fails (h : t.Sound) (id : String) :
    FailsIn (fun g => g.isValueFault = true ∨ g.kind = .noEntry) (t.entry (.text id)) := by
  refine (stored_fails id).bind fun d hd => ?_
  obtain ⟨e, rfl, -, hload, -⟩ := h.replays d (mem_of_stored hd)
  exact hload ▸ .ok e

/-- What is found is checked to the end. -/
theorem verify_fails (h : t.Sound) (id : String) :
    FailsIn (fun g => g.isValueFault = true ∨ g.kind = .noEntry) (t.verify (.text id)) := by
  refine (entry_fails h id).bind fun e he => ?_
  obtain ⟨d, hd, he⟩ := bind_eq_ok.1 he
  obtain ⟨e', rfl, -, hload, hcheck⟩ := h.replays d (mem_of_stored hd)
  cases hload.symm.trans he
  exact hcheck ▸ .ok _

theorem exists_verifyPeriod (h : t.Sound) (hdated : t.Dated) (period : Json) :
    ∃ cs, t.verifyPeriod period = .ok cs := by
  obtain ⟨es, hes, hmem⟩ := list_succeeds (f := { period }) h hdated rfl
  have hall : ∀ e ∈ es, ∃ c, t.verify (.text e.id) = .ok c := by
    intro e he
    obtain ⟨_, -, -, hverify⟩ := h.verify (hmem e he)
    exact ⟨_, hverify⟩
  obtain ⟨cs, hcs⟩ := exists_mapM_eq_ok.2 hall
  exact ⟨cs, bind_eq_ok.2 ⟨es, hes, hcs⟩⟩

theorem summarize_overflows (h : t.Sound) (hdated : t.Dated) (period : Json) :
    FailsIn (· = .arithmetic .overflow) (t.summarize period) := by
  obtain ⟨es, hes, -⟩ := list_succeeds (f := { period }) h hdated rfl
  refine FailsIn.bind (hes ▸ .ok es) fun recorded _ => ?_
  exact FailsIn.bind (.foldlM (fun ss e => tally_overflows e ss) _ []) fun _ _ => .ok _

end Payroll.AuditTrail
