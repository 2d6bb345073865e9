import Mathlib
import Payroll.Proofs.CommandOutcomes
import Payroll.Proofs.CommandStates
import Payroll.Proofs.TrailQuestions
import Payroll.Proofs.UnexplainedFaults

/-!
How the commands for the audit trail end. They change nothing, and the only fault that they do not explain
is a total that is too large.
-/

namespace Payroll.Command.Audits

open Result

variable {i : Installation} {F : Fault → Prop} {o : Occasion} {words : List String}

theorem looks_trail {path : String} (hpath : i.dataPath = .ok path) :
    Looks i F trail fun t => t = (i.directory path).trail :=
  (looks_data hpath).bind fun _ hd => .pure (hd ▸ rfl)

theorem isEntryFault_of {f : Fault} (h : f.isValueFault = true ∨ f.kind = .noEntry) :
    isEntryFault f = true := by
  rcases h with h | h <;> simp [isEntryFault, among, h]

theorem list_ends (h : i.Kept) : Ends Installation.Kept F i (list.run o words) := by
  refine ends_taking h fun l _ => Looks.ends (Q := fun _ => True) ?_ h
  obtain ⟨path, hpath⟩ := Installation.exists_dataPath h.config
  refine (looks_trail hpath).bind fun t ht => ?_
  subst ht
  have hlist := AuditTrail.list_fails (f := l.filter) (h.data path).trail (h.data path).dated rfl
  refine (looks_explainingAs (hlist.mono fun _ => Or.inl).endsIn).bind fun entries _ => ?_
  exact .ite (fun _ => looks_say _) fun _ => .ite (fun _ => looks_say _) fun _ => looks_sayAll _

theorem show_ends (h : i.Kept) : Ends Installation.Kept F i («show».run o words) := by
  refine ends_taking h fun id _ => Looks.ends (Q := fun _ => True) ?_ h
  obtain ⟨path, hpath⟩ := Installation.exists_dataPath h.config
  refine (looks_trail hpath).bind fun t ht => ?_
  subst ht
  have hentry := AuditTrail.entry_fails (h.data path).trail id
  refine (looks_explainingAs (hentry.mono fun _ hf => .inl (isEntryFault_of hf)).endsIn).bind
    fun e _ => looks_say _

theorem looks_checks (h : i.Kept) (entry period : Option String) :
    Looks i F (checks entry period) fun _ => True := by
  refine Looks.refusing (looks_refuse _) fun _ => ?_
  obtain ⟨path, hpath⟩ := Installation.exists_dataPath h.config
  refine (looks_trail hpath).bind fun t ht => ?_
  subst ht
  have htrail := (h.data path).trail
  refine .ite (fun hgiven => ?_) fun _ => ?_
  · cases entry with
    | none => cases hgiven
    | some id =>
        have hverify := AuditTrail.verify_fails htrail id
        exact (looks_explainingAs (hverify.mono fun _ hf => .inl (isEntryFault_of hf)).endsIn).bind
          fun c _ => .pure trivial
  · obtain ⟨cs, hcs⟩ := AuditTrail.exists_verifyPeriod htrail (h.data path).dated
      (.optional .text period)
    exact looks_explainingAs (hcs ▸ trivial)

theorem verify_ends (h : i.Kept) : Ends Installation.Kept F i (verify.run o words) := by
  refine ends_taking h fun (entry, period) _ => Looks.ends (Q := fun _ => True) ?_ h
  refine (looks_checks h entry period).bind fun results _ => (looks_sayAll _).bind fun _ _ => ?_
  exact .ite (fun _ => .pure trivial) fun _ => looks_fail _

theorem summary_ends (h : i.Kept) :
    Ends Installation.Kept (Unexplained i.config words "audit" "summary") i (summary.run o words) := by
  refine ends_taking h fun (period, asJson) _ => Looks.ends (Q := fun _ => True) ?_ h
  obtain ⟨path, hpath⟩ := Installation.exists_dataPath h.config
  refine (looks_trail hpath).bind fun t ht => ?_
  subst ht
  have hsummarize := AuditTrail.summarize_overflows (h.data path).trail (h.data path).dated (.text period)
  have hexplained : FailsIn (fun f => f.isValueFault = true ∨
      Unexplained i.config words "audit" "summary" f)
      ((i.directory path).trail.summarize (.text period)) :=
    hsummarize.mono fun f hf => .inr (hf ▸ .total (by simp))
  refine (looks_explainingAs hexplained.endsIn).bind fun s _ => ?_
  exact .ite (fun _ => looks_say _) fun _ => .ite (fun _ => looks_say _) fun _ => looks_sayAll _

end Payroll.Command.Audits
