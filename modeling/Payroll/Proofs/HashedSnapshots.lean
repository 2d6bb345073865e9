import Mathlib
import Payroll.Digest
import Payroll.Proofs.CanonicalText
import Payroll.Proofs.EntryRecord

/-!
What a snapshot hash is the digest of. Two entries have the same text to hash only if they agree on
their kind, their amount and their snapshots.
-/

namespace Payroll

namespace Json

theorem keysOnce_expect {word : String} {j v : Json} {cs r : List Char} (hj : j.KeysOnce)
    (h : expect word j cs = some (v, r)) : v.KeysOnce := by
  unfold expect at h
  split at h
  · cases h
    exact hj
  · cases h

theorem keysOnce_readNumber {cs r : List Char} {v : Json} (h : readNumber cs = some (v, r)) :
    v.KeysOnce := by
  unfold readNumber at h
  simp only at h
  split at h
  · split at h <;> cases h
    · exact .int _
    · exact .real _
  · cases h

theorem mem_put {fs : Fields} {key : String} {v : Json} {f : String × Json}
    (h : f ∈ Fields.put fs key v) : f ∈ fs ∨ f = (key, v) := by
  induction fs with
  | nil => exact .inr (List.mem_singleton.1 h)
  | cons g fs ih =>
      unfold Fields.put at h
      split at h <;> rcases List.mem_cons.1 h with rfl | h
      · exact .inr rfl
      · exact .inl (List.mem_cons_of_mem _ h)
      · exact .inl List.mem_cons_self
      · exact (ih h).imp_left (List.mem_cons_of_mem _)

/-- A field that is read is put in the place of an earlier one with its key. -/
theorem keysOnce_put {fs : Fields} {v : Json} (key : String) (h : (Json.object fs).KeysOnce)
    (hv : v.KeysOnce) : (Json.object (Fields.put fs key v)).KeysOnce := by
  cases h with
  | object once below =>
      refine .object (Fields.nodup_names_put once) fun f hf => ?_
      rcases mem_put hf with hf | rfl
      · exact below f hf
      · exact hv

/-- What the readers give has every key once, if what they began with has. -/
structure ReadsOnce (fuel : Nat) : Prop where
  value : ∀ cs v r, readValue fuel cs = some (v, r) → v.KeysOnce
  items : ∀ acc cs v r, (∀ a ∈ acc, a.KeysOnce) → readItems fuel acc cs = some (v, r) → v.KeysOnce
  fields : ∀ acc cs v r, (Json.object acc).KeysOnce → readFields fuel acc cs = some (v, r) →
    v.KeysOnce

namespace ReadsOnce

variable {fuel : Nat} {cs r : List Char} {v : Json}

theorem value_succ (ih : ReadsOnce fuel) (h : readValue (fuel + 1) cs = some (v, r)) :
    v.KeysOnce := by
  unfold readValue at h
  split at h
  · split at h <;> cases h
    exact .text _
  · split at h
    · cases h
      exact .list (by simp)
    · exact ih.items [] _ v r (by simp) h
  · split at h
    · cases h
      exact .object List.nodup_nil (by simp)
    · exact ih.fields [] _ v r (.object List.nodup_nil (by simp)) h
  · exact keysOnce_expect .null h
  · exact keysOnce_expect (.bool true) h
  · exact keysOnce_expect (.bool false) h
  · exact keysOnce_readNumber h

theorem items_succ (ih : ReadsOnce fuel) {acc : List Json} (hacc : ∀ a ∈ acc, a.KeysOnce)
    (h : readItems (fuel + 1) acc cs = some (v, r)) : v.KeysOnce := by
  unfold readItems at h
  split at h
  · next j rest hj =>
    have hall : ∀ a ∈ j :: acc, a.KeysOnce :=
      List.forall_mem_cons.2 ⟨ih.value cs j rest hj, hacc⟩
    split at h
    · exact ih.items (j :: acc) _ v r hall h
    · cases h
      exact .list fun a ha => hall a (List.mem_reverse.1 ha)
    · cases h
  · cases h

theorem fields_succ (ih : ReadsOnce fuel) {acc : Fields} (hacc : (Json.object acc).KeysOnce)
    (h : readFields (fuel + 1) acc cs = some (v, r)) : v.KeysOnce := by
  unfold readFields at h
  split at h
  · split at h
    · next key _ _ =>
      split at h
      · split at h
        · next j more hj =>
          have hput := keysOnce_put key hacc (ih.value _ j more hj)
          split at h
          · exact ih.fields _ _ v r hput h
          · cases h
            exact hput
          · cases h
        · cases h
      · cases h
    · cases h
  · cases h

end ReadsOnce

/-- The induction is on the fuel, which the readers hand down to each other. -/
theorem readsOnce (fuel : Nat) : ReadsOnce fuel := by
  induction fuel with
  | zero =>
      constructor
      case value => simp [readValue]
      case items => simp [readItems]
      case fields => simp [readFields]
  | succ fuel ih =>
      constructor
      case value => exact fun cs v r h => ih.value_succ h
      case items => exact fun acc cs v r hacc h => ih.items_succ hacc h
      case fields => exact fun acc cs v r hacc h => ih.fields_succ hacc h

/-- Whatever is read from a text has every key once. -/
theorem keysOnce_of_ofText? {s : String} {v : Json} (h : ofText? s = some v) : v.KeysOnce := by
  unfold ofText? at h
  simp only at h
  split at h
  · next j rest hj =>
    split at h <;> cases h
    exact (readsOnce _).value _ _ _ hj
  · cases h

end Json

namespace AuditEntry

variable {e f : AuditEntry}

theorem kind_eq_of_name {a b : AuditKind} (h : a.name = b.name) : a = b := by
  have ha := AuditKind.ofName?_name a
  rw [h, AuditKind.ofName?_name] at ha
  exact (Option.some.inj ha).symm

/-- Every snapshot of the entry has every key once. -/
structure KeysOnce (e : AuditEntry) : Prop where
  input : ∀ s ∈ e.inputSnapshot, (Json.object s).KeysOnce
  output : ∀ s ∈ e.outputSnapshot, (Json.object s).KeysOnce
  rules : ∀ s ∈ e.rulesSnapshot, (Json.object s).KeysOnce

/-- The same snapshots up to the order of their fields, or none on both sides. -/
def AlikeSnapshots (a b : Option Fields) : Prop :=
  (Json.optional .object a).Alike (.optional .object b)

theorem alike_text_iff {s t : String} : (Json.text s).Alike (.text t) ↔ s = t := by
  constructor
  · intro h
    cases h with
    | text => rfl
    | number hv => cases hv
  · rintro rfl
    exact .text s

theorem keysOnce_optional {o : Option Fields} (h : ∀ s ∈ o, (Json.object s).KeysOnce) :
    (Json.optional .object o).KeysOnce := by
  cases o with
  | none => exact .null
  | some s => exact h s rfl

theorem keysOnce_hashedContent (h : e.KeysOnce) : e.hashedContent.KeysOnce := by
  refine .object (by simp [Fields.names]) ?_
  simp only [List.forall_mem_cons]
  exact ⟨.text _, .text _, keysOnce_optional h.input, keysOnce_optional h.output,
    keysOnce_optional h.rules, by simp⟩

theorem hashedContent_alike :
    e.hashedContent.Alike f.hashedContent ↔
      e.kind = f.kind ∧ e.result.text = f.result.text ∧
        AlikeSnapshots e.inputSnapshot f.inputSnapshot ∧
        AlikeSnapshots e.outputSnapshot f.outputSnapshot ∧
        AlikeSnapshots e.rulesSnapshot f.rulesSnapshot := by
  have hkind : e.kind.name = f.kind.name ↔ e.kind = f.kind :=
    ⟨kind_eq_of_name, congrArg AuditKind.name⟩
  refine (Json.alike_object_iff (by simp [Fields.names]) (by rfl)).trans ?_
  simp [alike_text_iff, Json.ofDecimal, hkind, AlikeSnapshots]

end AuditEntry

/-- Equal texts come from equal values, up to the order of fields, and from entries that agree in
all that a snapshot hash vouches for. What is read from a file has every key once. -/
theorem Json.canonical_identifies :
    (∀ (s : String) (v : Json), Json.ofText? s = some v → v.KeysOnce) ∧
    (∀ v w : Json, v.KeysOnce → w.KeysOnce → (v.canonical = w.canonical ↔ v.Alike w)) ∧
    (∀ e f : AuditEntry, e.KeysOnce → f.KeysOnce →
      (e.hashedContent.canonical = f.hashedContent.canonical ↔
        e.kind = f.kind ∧ e.result.text = f.result.text ∧
          AuditEntry.AlikeSnapshots e.inputSnapshot f.inputSnapshot ∧
          AuditEntry.AlikeSnapshots e.outputSnapshot f.outputSnapshot ∧
          AuditEntry.AlikeSnapshots e.rulesSnapshot f.rulesSnapshot)) := by
  refine ⟨fun s v => Json.keysOnce_of_ofText?, fun v w hv _ => Json.canonical_eq_iff hv, ?_⟩
  intro e f he _
  rw [Json.canonical_eq_iff (AuditEntry.keysOnce_hashedContent he), AuditEntry.hashedContent_alike]

namespace AuditEntry

/-- A contribution with the days and the base that it was computed from. -/
def contribution (input : Fields) : AuditEntry where
  id := "imss-e001"
  detail := "E001"
  calculation := none
  period := some "2025-01-B1"
  kind := .imssEmployee
  concept := "IMSS"
  inputs := []
  base := ⟨false, 500, 0⟩
  lower := none
  excess := none
  marginal := none
  fixedFee := none
  result := ⟨false, 19608, -2⟩
  rule := "IMSS"
  ruleVersion := "2025"
  table := none
  fiscalYear := 2025
  periodKind := .biweekly
  calculatedAt := .midJanuary
  calculatedBy := none
  inputSnapshot := some input
  outputSnapshot := none
  rulesSnapshot := some []
  snapshotHash := none

def daysFirst : Fields := [("days", .int 15), ("sbc", .text "500")]

theorem keysOnce_contribution {input : Fields} (keys : (Fields.names input).Nodup)
    (h : ∀ f ∈ input, f.2.KeysOnce) : (contribution input).KeysOnce where
  input s hs := by
    cases hs
    exact .object keys h
  output s hs := nomatch hs
  rules s hs := by
    cases hs
    exact .object List.nodup_nil (by simp)

/-- The order of the fields makes no difference to what is hashed. -/
theorem contribution_identified :
    ((contribution daysFirst).KeysOnce ∧ (contribution daysFirst.reverse).KeysOnce ∧
      (contribution daysFirst).hashedContent.canonical =
        (contribution daysFirst.reverse).hashedContent.canonical) ∧
    (Json.object daysFirst).KeysOnce ∧ (Json.object daysFirst.reverse).KeysOnce ∧
      (Json.object daysFirst).canonical = (Json.object daysFirst.reverse).canonical := by
  have hd : ∀ f ∈ daysFirst, f.2.KeysOnce := by
    simp only [daysFirst, List.forall_mem_cons]
    exact ⟨.int 15, .text "500", by simp⟩
  have hr : ∀ f ∈ daysFirst.reverse, f.2.KeysOnce := fun f hf => hd f (List.mem_reverse.1 hf)
  have nd : (Fields.names daysFirst).Nodup := by decide
  have nr : (Fields.names daysFirst.reverse).Nodup := by decide
  have he := keysOnce_contribution nd hd
  have hf := keysOnce_contribution nr hr
  have values : List.Forall₂ Json.Alike (daysFirst.map (·.2)) (daysFirst.map (·.2)) :=
    .cons (.number rfl rfl) (.cons (.text "500") .nil)
  have alike : (Json.object daysFirst).Alike (.object daysFirst.reverse) :=
    .object rfl values (List.reverse_perm daysFirst).symm
  refine ⟨⟨he, hf, (Json.canonical_identifies.2.2 _ _ he hf).2 ⟨rfl, rfl, alike, .null, ?_⟩⟩,
    .object nd hd, .object nr hr,
    (Json.canonical_identifies.2.1 _ _ (.object nd hd) (.object nr hr)).2 alike⟩
  exact .object rfl .nil (List.Perm.refl [])

end AuditEntry

end Payroll
