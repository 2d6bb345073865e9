import Mathlib
import Payroll.Proofs.EntryRecord
import Payroll.Proofs.FormulaRecord
import Payroll.Proofs.IndentedText

/-!
Records that were read from data with a text have a text themselves.
-/

namespace Payroll

open Record Result

namespace Json

variable {α : Type} {fs : Fields} {v : Json}

theorem Writable.of_lookup {key : String} (h : (Json.object fs).Writable)
    (hl : Fields.lookup fs key = some v) : v.Writable := by
  cases h with
  | object keys h =>
      clear keys
      induction fs with
      | nil => cases hl
      | cons f fs ih =>
          rw [Fields.lookup] at hl
          split at hl
          · cases hl
            exact h f List.mem_cons_self
          · exact ih hl fun g hg => h g (List.mem_cons_of_mem f hg)

theorem writable_nil : (Json.object []).Writable := .object List.nodup_nil (by simp)

theorem writable_optional {write : α → Json} {o : Option α} (h : ∀ a ∈ o, (write a).Writable) :
    (Json.optional write o).Writable := by
  cases o with
  | none => exact .null
  | some a => exact h a rfl

theorem writable_optional_text (text : α → String) (o : Option α) :
    (Json.optional (fun a => .text (text a)) o).Writable :=
  writable_optional fun a _ => .text (text a)

end Json

namespace Record

theorem length_strip_le (cs : List Char) : (Text.strip cs).length ≤ cs.length := by
  have hdrop (ds : List Char) : (ds.dropWhile Text.isBlank).length ≤ ds.length :=
    (List.dropWhile_sublist _).length_le
  rw [Text.strip, List.length_reverse]
  refine (hdrop _).trans ?_
  rw [List.length_reverse]
  exact hdrop cs

theorem length_readSign_le (cs : List Char) : (Decimal.readSign cs).2.length ≤ cs.length := by
  unfold Decimal.readSign
  split
  · exact Nat.le_succ _
  · exact Nat.le_succ _
  · exact le_rfl

theorem groupedDigits_eq_some {cs ds : List Char} (h : groupedDigits cs = some ds) :
    (∀ c ∈ ds, c.isDigit) ∧ ds.length ≤ cs.length := by
  have hcons {c : Char} {cs es : List Char}
      (ih : ∀ ds, groupedDigits cs = some ds → (∀ c ∈ ds, c.isDigit) ∧ ds.length ≤ cs.length)
      (hc : c.isDigit) (hes : (groupedDigits cs).map (c :: ·) = some es) :
      (∀ c ∈ es, c.isDigit) ∧ es.length ≤ cs.length + 1 := by
    obtain ⟨ds, hds, rfl⟩ := Option.map_eq_some_iff.1 hes
    obtain ⟨hdigits, hlength⟩ := ih ds hds
    exact ⟨List.forall_mem_cons.2 ⟨hc, hdigits⟩, Nat.succ_le_succ hlength⟩
  fun_induction groupedDigits cs generalizing ds with
  | case1 => cases h
  | case2 c hc =>
      cases h
      exact ⟨by simpa using hc, le_rfl⟩
  | case3 => cases h
  | case4 c cs hc ih =>
      obtain ⟨hdigits, hlength⟩ := hcons (fun ds hds => ih hds) hc h
      exact ⟨hdigits, hlength.trans (Nat.le_succ _)⟩
  | case5 => cases h
  | case6 c cs _ _ hc ih => exact hcons (fun ds hds => ih hds) hc h
  | case7 => cases h

/-- The text of an integer is at least as long as its digits. -/
theorem natAbs_lt_of_integerOfText {s : String} {n : Int} (h : integerOfText s = some n) :
    n.natAbs < pow10 s.length := by
  rw [integerOfText] at h
  split at h
  · obtain ⟨ds, hds, rfl⟩ := Option.map_eq_some_iff.1 h
    obtain ⟨hdigits, hlength⟩ := groupedDigits_eq_some hds
    have htake := (List.takeWhile_sublist (· != '.')
      (l := (Decimal.readSign (Text.strip s.toList)).2)).length_le
    have hsign := length_readSign_le (Text.strip s.toList)
    have hstrip := length_strip_le s.toList
    rw [String.length_toList] at hstrip
    have hvalue := Decimal.digitsValue_lt hdigits
    have hpow : 10 ^ ds.length ≤ pow10 s.length := Nat.pow_le_pow_right (by decide) (by omega)
    split <;> omega
  · cases h

theorem digitCount_le_maxIntegerText {n k : Nat} (h : n < pow10 k) (hk : k ≤ maxIntegerText) :
    digitCount n ≤ maxIntegerText := by
  cases k with
  | zero =>
      rw [Nat.lt_one_iff.1 h, digitCount_zero]
      decide
  | succ k => exact (digitCount_le h (Nat.succ_pos k)).trans hk

theorem digitCount_of_integer {j : Json} {n : Int} (hj : j.Writable) (h : integer j = .ok n) :
    digitCount n.natAbs ≤ maxIntegerText := by
  cases j with
  | int m =>
      cases h
      cases hj with
      | int hj => exact hj
  | bool b =>
      cases h
      exact digitCount_le_maxIntegerText (k := 1) (by cases b <;> decide) (by decide)
  | real x =>
      cases x with
      | finite d =>
          simp only [integer] at h
          split at h
          · split at h
            · next hsize =>
              cases h
              exact digitCount_le_maxIntegerText (k := 19) (hsize.trans (by decide)) (by decide)
            · cases h
          · cases h
      | _ => cases h
  | text s =>
      simp only [integer] at h
      split at h
      · cases h
      · next hlength =>
        split at h
        · next m hm =>
          cases h
          exact digitCount_le_maxIntegerText (natAbs_lt_of_integerOfText hm) (not_lt.1 hlength)
        · cases h
  | _ => cases h

theorem writable_of_fields {j : Json} {a : Fields} (hj : j.Writable) (h : fields j = .ok a) :
    (Json.object a).Writable := by
  cases j with
  | object fs =>
      cases h
      exact hj
  | _ => cases h

section Fields

variable {α : Type} {fs : Fields} {name : String} {read : Reader α} {a : α} {P : α → Prop}

/-- What a reader guarantees of data with a text holds of a field that is always there. -/
theorem of_required (hread : ∀ j a, j.Writable → read j = .ok a → P a)
    (hfs : (Json.object fs).Writable) (h : (required name read).run fs = .ok a) : P a := by
  obtain ⟨j, hl, hj⟩ := required_eq_ok.1 h
  exact hread j a (hfs.of_lookup hl) hj

theorem of_optional {o : Option α} (hread : ∀ j a, j.Writable → read j = .ok a → P a)
    (hfs : (Json.object fs).Writable) (h : (optional name read).run fs = .ok o) : ∀ a ∈ o, P a := by
  rintro a rfl
  rw [optional_eq_ok] at h
  split at h
  · next j hl => exact hread j a (hfs.of_lookup hl) (read_of_orNull h)
  · cases h

theorem of_defaulted {standard : α} (hread : ∀ j a, j.Writable → read j = .ok a → P a)
    (hstandard : P standard) (hfs : (Json.object fs).Writable)
    (h : (defaulted name standard read).run fs = .ok a) : P a := by
  rw [defaulted_eq_ok] at h
  split at h
  · next j hl => exact hread j a (hfs.of_lookup hl) h
  · rwa [h]

end Fields

end Record

namespace FormulaVersion

variable {v : FormulaVersion} {j : Json}

theorem writable_toJson (hyear : ∀ y ∈ v.fiscalYear, digitCount y.natAbs ≤ maxIntegerText)
    (hversion : digitCount v.version.natAbs ≤ maxIntegerText) : v.toJson.Writable := by
  have htext (o : Option String) : (Json.optional .text o).Writable :=
    Json.writable_optional_text (fun s => s) o
  refine .object (by simp [toFields, Fields.names]) ?_
  simp only [toFields, List.forall_mem_cons, List.not_mem_nil, IsEmpty.forall_iff, implies_true,
    and_true]
  exact ⟨.text _, .text _, .text _, .text _, .text _, htext _, .text _, .bool _, .bool _,
    Json.writable_optional_text _ _, Json.writable_optional_text _ _, htext _,
    Json.writable_optional fun y hy => .int (hyear y hy), Json.writable_optional_text _ _,
    Json.writable_optional_text _ _, .int hversion, .bool _, .text _, htext _,
    Json.writable_optional_text _ _, htext _⟩

theorem writable_of_load (hj : j.Writable) (h : load j = .ok v) : v.toJson.Writable := by
  obtain ⟨fs, rfl, -, hv, -⟩ := load_eq_ok.1 h
  refine writable_toJson (of_optional (fun j y hj h => ?_) hj hv.fiscalYear)
    (of_defaulted (P := fun n => digitCount n.natAbs ≤ maxIntegerText) (fun j n hj h => ?_) ?_ hj
      hv.version)
  · exact digitCount_of_integer hj (bounded_eq_ok.1 (bounded_eq_ok.1 h).1).1
  · exact digitCount_of_integer hj (bounded_eq_ok.1 h).1
  · exact digitCount_le_maxIntegerText (k := 1) (by decide) (by decide)

end FormulaVersion

namespace AuditEntry

variable {e : AuditEntry} {j : Json}

theorem writable_toJson (hyear : digitCount e.fiscalYear.natAbs ≤ maxIntegerText)
    (hinputs : (Json.object e.inputs).Writable)
    (hinput : ∀ fs ∈ e.inputSnapshot, (Json.object fs).Writable)
    (houtput : ∀ fs ∈ e.outputSnapshot, (Json.object fs).Writable)
    (hrules : ∀ fs ∈ e.rulesSnapshot, (Json.object fs).Writable) : e.toJson.Writable := by
  have htext (o : Option String) : (Json.optional .text o).Writable :=
    Json.writable_optional_text (fun s => s) o
  have hamount (o : Option Decimal) : (Json.optional .ofDecimal o).Writable :=
    Json.writable_optional_text Decimal.text o
  refine .object (by simp [toFields, Fields.names]) ?_
  simp only [toFields, List.forall_mem_cons, List.not_mem_nil, IsEmpty.forall_iff, implies_true,
    and_true]
  exact ⟨.text _, .text _, htext _, htext _, .text _, .text _, hinputs, .text _, hamount _,
    hamount _, hamount _, hamount _, .text _, .text _, .text _, htext _, .int hyear, .text _,
    .text _, htext _, Json.writable_optional hinput, Json.writable_optional houtput,
    Json.writable_optional hrules, htext _⟩

theorem writable_of_load (hj : j.Writable) (h : load j = .ok e) : e.toJson.Writable := by
  obtain ⟨fs, rfl, -, hrun, -⟩ := Record.record_eq_ok.1 (Record.load_eq_ok.1 h)
  rw [FieldReader.run_eq_ok] at hrun
  unfold fieldReader at hrun
  iterate 23 rw [FieldReader.exists_run_seq] at hrun
  rw [FieldReader.exists_run_map] at hrun
  obtain ⟨_, -, _, -, _, -, _, -, _, -, _, -, _, hinputs, _, -, _, -, _, -, _, -, _, -, _, -, _, -,
    _, -, _, -, _, hyear, _, -, _, -, _, -, _, hinput, _, houtput, _, hrules, _, -, rfl⟩ := hrun
  have hsnapshot {name : String} {o : Option Fields} (h : (optional name fields).run fs = .ok o) :
      ∀ a ∈ o, (Json.object a).Writable :=
    of_optional (fun _ _ => writable_of_fields) hj h
  exact writable_toJson
    (of_required (P := fun n => digitCount n.natAbs ≤ maxIntegerText)
      (fun _ _ => digitCount_of_integer) hj hyear)
    (of_defaulted (P := fun a => (Json.object a).Writable) (fun _ _ => writable_of_fields)
      Json.writable_nil hj hinputs)
    (hsnapshot hinput) (hsnapshot houtput) (hsnapshot hrules)

end AuditEntry

end Payroll
