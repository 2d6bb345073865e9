import Mathlib
import Payroll.Proofs.PendingReplay

/-!
The audit trail as calculations extend it: entries are added at its end under ids of their own, and
the check of any of them finds nothing.
-/

namespace Payroll

open Result
open Recording (document)

/-- Entries stand under different ids, and all of them replay. -/
structure AuditTrail.Sound (t : AuditTrail) : Prop where
  distinct : (t.documents.map (·.id)).Nodup
  replays : ∀ d ∈ t.documents, ∃ e : AuditEntry, d = document e ∧ Key.isSafe e.id = true ∧ e.Replays

namespace AuditTrail.Sound

variable {t t' : AuditTrail} {e : AuditEntry} {d : AuditDocument}

theorem empty : Sound {} where
  distinct := List.nodup_nil
  replays := by simp

theorem record (h : t.Sound) (he : e.Replays) (hnew : ∀ d ∈ t.documents, d.id ≠ e.id)
    (hrecord : t.record e = .ok t') : t'.Sound := by
  obtain ⟨-, hid, -, rfl⟩ := Recording.record_eq_ok.1 hrecord
  refine ⟨?_, ?_⟩
  · rw [List.map_append, List.map_singleton]
    apply h.distinct.append (List.nodup_singleton _)
    intro id hold hlast
    obtain ⟨d, hd, rfl⟩ := List.mem_map.1 hold
    exact hnew d hd (List.mem_singleton.1 hlast)
  · intro d hd
    rcases List.mem_append.1 hd with hd | hd
    · exact h.replays d hd
    · cases List.mem_singleton.1 hd
      exact ⟨e, rfl, hid, he⟩

theorem documentWith_eq (h : t.Sound) (hd : d ∈ t.documents) : t.documentWith d.id = some d := by
  rw [documentWith]
  cases hfound : t.documents.find? fun d' => d'.id == d.id with
  | none => exact absurd (beq_self_eq_true d.id) (List.find?_eq_none.1 hfound d hd)
  | some d' =>
      have hmem := List.mem_of_find?_eq_some hfound
      have hid := List.find?_some hfound
      rw [List.inj_on_of_nodup_map h.distinct hmem hd (beq_iff_eq.1 hid)]

theorem verify (h : t.Sound) (hd : d ∈ t.documents) : ∃ e, AuditEntry.load d.content = .ok e ∧
    e.id = d.id ∧ t.verify (.text d.id) = .ok (Replay.intact e) := by
  obtain ⟨e, rfl, hsafe, hload, hcheck⟩ := h.replays d hd
  refine ⟨e, hload, rfl, ?_⟩
  refine bind_eq_ok.2 ⟨e, bind_eq_ok.2 ⟨document e, ?_, hload⟩, hcheck⟩
  refine bind_eq_ok.2 ⟨_, Key.check_eq_ok.2 ⟨hsafe, rfl⟩, ?_⟩
  have hfound : t.documentWith e.id = some (document e) := h.documentWith_eq hd
  simp only [document, hfound]
  rfl

end AuditTrail.Sound

namespace Recording

variable {calculation detail : String} {n : Nat} {t t' t'' : AuditTrail} {ps : List Pending}

/-- A trail goes on with entries of a calculation from the `n`-th on. -/
def Extends (calculation : String) (n : Nat) (t t' : AuditTrail) : Prop :=
  ∃ new, t'.documents = t.documents ++ new ∧
    ∀ d ∈ new, ∃ k, n ≤ k ∧ d.id = entryId calculation k

theorem extends_refl (calculation : String) (n : Nat) (t : AuditTrail) :
    Extends calculation n t t := ⟨[], (List.append_nil _).symm, fun _ hd => nomatch hd⟩

theorem Extends.cons {e : AuditEntry} (he : e.id = entryId calculation n)
    (h : Extends calculation (n + 1) ⟨t.documents ++ [document e]⟩ t') :
    Extends calculation n t t' := by
  obtain ⟨new, hnew, hids⟩ := h
  refine ⟨document e :: new, hnew.trans (List.append_assoc _ _ _), ?_⟩
  intro d hd
  rcases List.mem_cons.1 hd with rfl | hd
  · exact ⟨n, le_rfl, he⟩
  · obtain ⟨k, hk, hid⟩ := hids d hd
    exact ⟨k, by omega, hid⟩

theorem Extends.documents_prefix (h : Extends calculation n t t') :
    t.documents <+: t'.documents := by
  obtain ⟨new, hnew, -⟩ := h
  exact ⟨new, hnew.symm⟩

theorem storeFrom_sound (hps : OfDetail detail ps)
    (hr : ∀ make, .ok make ∈ ps → ∀ id, (make id).Replays) (hfree : Unused t calculation n)
    (ht : t.Sound) : (storeFrom calculation n t ps).1.Sound ∧
      Extends calculation n t (storeFrom calculation n t ps).1 := by
  induction ps generalizing t n with
  | nil => exact ⟨ht, extends_refl _ _ _⟩
  | cons p ps ih =>
      cases p with
      | error f => exact ⟨ht, extends_refl _ _ _⟩
      | ok make =>
          obtain ⟨-, hid⟩ := hps make List.mem_cons_self (entryId calculation n)
          have hnew : ∀ d ∈ t.documents, d.id ≠ (make (entryId calculation n)).id := by
            rw [hid]
            exact fun d hd => hfree d hd n le_rfl
          have hreplays := hr make List.mem_cons_self (entryId calculation n)
          simp only [storeFrom]
          cases hrecord : t.record (make (entryId calculation n)) with
          | error f => exact ⟨ht, extends_refl _ _ _⟩
          | ok t' =>
              have ht' := ht.record hreplays hnew hrecord
              obtain ⟨-, -, -, rfl⟩ := record_eq_ok.1 hrecord
              have hps' : OfDetail detail ps := fun make hm => hps make (List.mem_cons_of_mem _ hm)
              have hr' : ∀ make, .ok make ∈ ps → ∀ id, (make id).Replays :=
                fun make hm => hr make (List.mem_cons_of_mem _ hm)
              obtain ⟨hsound, hext⟩ := ih hps' hr' (hfree.step hid) ht'
              exact ⟨hsound, hext.cons hid⟩

/-- What storing entries adds to a trail are some of them under ids of the calculation, and all of
them if nothing fails. -/
theorem exists_entries_storeFrom (calculation : String) (n : Nat) (t : AuditTrail)
    (ps : List Pending) : ∃ es : List AuditEntry,
      (storeFrom calculation n t ps).1.documents = t.documents ++ es.map document ∧
      (∀ e ∈ es, ∃ make, .ok make ∈ ps ∧ ∃ k, n ≤ k ∧ e = make (entryId calculation k)) ∧
      ∀ ids, (storeFrom calculation n t ps).2 = .ok ids →
        es.map (·.id) = ids ∧ es.length = ps.length := by
  induction ps generalizing t n with
  | nil =>
      refine ⟨[], (List.append_nil _).symm, fun _ => (nomatch ·), fun ids h => ?_⟩
      cases h
      exact ⟨rfl, rfl⟩
  | cons p ps ih =>
      have hnone {f : Fault} : ∃ es : List AuditEntry, t.documents = t.documents ++ es.map document ∧
          (∀ e ∈ es, ∃ make, .ok make ∈ p :: ps ∧ ∃ k, n ≤ k ∧ e = make (entryId calculation k)) ∧
          ∀ ids, (Except.error f : Except Fault (List String)) = .ok ids →
            es.map (·.id) = ids ∧ es.length = (p :: ps).length :=
        ⟨[], (List.append_nil _).symm, fun _ => (nomatch ·), fun _ => (nomatch ·)⟩
      cases p with
      | error f => exact hnone
      | ok make =>
          simp only [storeFrom]
          cases hrecord : t.record (make (entryId calculation n)) with
          | error f => exact hnone
          | ok t' =>
              obtain ⟨-, -, -, rfl⟩ := record_eq_ok.1 hrecord
              obtain ⟨es, hdocs, hmade, hids⟩ := ih (n + 1) ⟨t.documents ++ [document (make _)]⟩
              refine ⟨make (entryId calculation n) :: es, ?_, ?_, ?_⟩
              · exact hdocs.trans (List.append_assoc _ _ _)
              · refine List.forall_mem_cons.2 ⟨⟨make, List.mem_cons_self, n, le_rfl, rfl⟩, ?_⟩
                intro e he
                obtain ⟨make', hmake', k, hk, rfl⟩ := hmade e he
                exact ⟨make', List.mem_cons_of_mem _ hmake', k, by omega, rfl⟩
              · intro ids h
                obtain ⟨ids, hok, rfl⟩ := map_eq_ok.1 h
                obtain ⟨hids, hlength⟩ := hids ids hok
                exact ⟨by rw [List.map_cons, hids], by rw [List.length_cons, hlength]; rfl⟩

/-- Entries of different employees of a period stand under different ids. -/
theorem entryId_numbered {id : String} {j k m n : Nat}
    (h : entryId s!"{id}.{j}" m = entryId s!"{id}.{k}" n) : j = k := by
  have hl := congrArg String.toList h
  rw [toList_entryId, toList_entryId] at hl
  have hnumbers : Decimal.digitsOf j ++ '-' :: Date.padded 3 m =
      Decimal.digitsOf k ++ '-' :: Date.padded 3 n := by
    simpa [Decimal.digitsOf] using hl
  have hdigits (i : Nat) : ∀ c ∈ Decimal.digitsOf i, c.isDigit :=
    fun _ => Decimal.isDigit_of_mem_digitsOf
  have hhyphen (i : Nat) : Decimal.NoDigitAhead ('-' :: Date.padded 3 i) :=
    Decimal.noDigitAhead_cons (by decide)
  have hread := congrArg (List.takeWhile Char.isDigit) hnumbers
  rw [Text.takeWhile_run (hdigits j) (hhyphen m),
    Text.takeWhile_run (hdigits k) (hhyphen n)] at hread
  simpa using congrArg Decimal.digitsValue hread

theorem Extends.unused {id : String} {j k m : Nat} (h : Extends s!"{id}.{k}" n t t') (hne : j ≠ k)
    (hfree : Unused t s!"{id}.{j}" m) : Unused t' s!"{id}.{j}" m := by
  obtain ⟨new, hnew, hids⟩ := h
  intro d hd i hi
  rw [hnew] at hd
  rcases List.mem_append.1 hd with hd | hd
  · exact hfree d hd i hi
  · obtain ⟨i', -, hid⟩ := hids d hd
    rw [hid]
    exact fun hsame => hne (entryId_numbered hsame).symm

end Recording

end Payroll
