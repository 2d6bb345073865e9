import Payroll.Audit.Trail

/-!
Entries handed to the audit trail by calls one after the other. A call gives back the entry that it
stored; one that fails leaves the trail as it was.
-/

namespace Payroll.AuditTrail

/-- A call that stores an entry as it is, or with snapshots and the hash of them. -/
inductive Call
  | record (e : AuditEntry)
  | recordWithSnapshots (e : AuditEntry) (input output rules : Fields)

/-- The entry that a call is to store. -/
def Call.entry : Call → AuditEntry
  | .record e => e
  | .recordWithSnapshots e input output rules => e.withSnapshots input output rules

/-- The outcome of a call, and the trail after it. -/
def Call.run (c : Call) (t : AuditTrail) : Except Fault AuditEntry × AuditTrail :=
  let next := t.record c.entry
  (next.map fun _ => c.entry, next.toOption.getD t)

/-- The outcomes of calls, and the trail after the last of them. -/
def runCalls (t : AuditTrail) : List Call → List (Except Fault AuditEntry) × AuditTrail
  | [] => ([], t)
  | c :: cs =>
    let later := runCalls (c.run t).2 cs
    ((c.run t).1 :: later.1, later.2)

/-- The entries that calls gave back. -/
def returned (outcomes : List (Except Fault AuditEntry)) : List AuditEntry :=
  outcomes.filterMap Except.toOption

end Payroll.AuditTrail
