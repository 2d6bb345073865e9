import Mathlib
import Payroll.Command.Action
import Payroll.Proofs.ConfigurationStates
import Payroll.Proofs.RunCalls
import Payroll.Proofs.StoredScopes
import Payroll.Proofs.TrailHistory

/-!
Installations as commands keep them: the configuration is written, the stored formulas come from changes,
and the entries of every audit trail are sound and dated in universal time.
-/

namespace Payroll

/-- Every entry has a point in universal time. -/
def AuditTrail.Dated (t : AuditTrail) : Prop :=
  ∀ d ∈ t.documents, ∀ e, AuditEntry.load d.content = .ok e → e.calculatedAt.offset.isSome = true

structure DataDirectory.Kept (d : DataDirectory) : Prop where
  store : d.store.Reachable
  trail : d.trail.Sound
  dated : d.trail.Dated

theorem DataDirectory.kept_empty : ({} : DataDirectory).Kept := ⟨.empty, .empty, nofun⟩

namespace Installation

structure Kept (i : Installation) : Prop where
  config : i.config.Written
  data : ∀ path, (i.directory path).Kept

variable {i : Installation} {path other : String} {d : DataDirectory}

theorem directory_putDirectory_self : (i.putDirectory path d).directory path = d := by
  unfold putDirectory directory
  split
  · rfl
  · rw [Engine.lookUp_putEntry_self]
    rfl

theorem directory_putDirectory_of_ne (h : path ≠ other) :
    (i.putDirectory path d).directory other = i.directory other := by
  unfold putDirectory directory
  split
  · next hpath =>
    have hother : ¬other = i.standardDirectory := fun ho => h (hpath.trans ho.symm)
    rw [if_neg hother, if_neg hother]
  · rw [Engine.lookUp_putEntry_of_ne h]

theorem config_putDirectory : (i.putDirectory path d).config = i.config := by
  unfold putDirectory
  split <;> rfl

theorem exists_dataPath (h : i.config.Written) : ∃ path, i.dataPath = .ok path := by
  unfold dataPath
  split
  · exact ⟨_, rfl⟩
  · next j hne hj =>
    obtain ⟨path, rfl⟩ := h.path _ (Option.filter_eq_some_iff.1 hj).1
    exact absurd rfl (hne path)
  · exact ⟨_, rfl⟩

namespace Kept

theorem putDirectory (h : i.Kept) (hd : d.Kept) : (i.putDirectory path d).Kept where
  config := config_putDirectory (i := i) ▸ h.config
  data other := by
    by_cases hsame : path = other
    · rw [← hsame, directory_putDirectory_self]
      exact hd
    · rw [directory_putDirectory_of_ne hsame]
      exact h.data other

theorem setConfig (h : i.Kept) {c : Configuration} (hc : c.Written) : { i with config := c }.Kept :=
  ⟨hc, h.data⟩

end Kept

end Installation

/-- A point in universal time, and identifiers that nothing stored has. -/
structure Command.Occasion.Fresh (o : Command.Occasion) (i : Installation) : Prop where
  dated : o.now.offset.isSome = true
  rows : ∀ path company concept, ∀ v ∈ ((i.directory path).store.scope company concept).rows, v.id ≠ o.id
  entries : ∀ path (k : Nat), Recording.Unused (i.directory path).trail s!"{o.id}.{k}" 1

end Payroll
