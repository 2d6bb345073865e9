import Mathlib
import Payroll.Proofs.CalendarText
import Payroll.Proofs.Results

/-!
Readers that read back what is written of their values, field by field.
-/

namespace Payroll.Fields

variable {fs changes : Fields} {key : String} {v : Json}

theorem lookup_eq_none : lookup fs key = none ↔ key ∉ names fs := by
  induction fs with
  | nil => simp [lookup, names]
  | cons f fs ih =>
      by_cases h : f.1 = key
      · simp [lookup, names, h]
      · simp only [lookup, h, if_false, ih]
        simp [names, Ne.symm h]

theorem mem_names_put {other : String} :
    other ∈ names (put fs key v) ↔ other ∈ names fs ∨ other = key := by
  rw [← not_iff_not, not_or, ← lookup_eq_none, ← lookup_eq_none]
  by_cases h : other = key
  · subst h
    simp [lookup_put_self]
  · simp [lookup_put_of_ne fs v h, h]

theorem nodup_names_put (h : (names fs).Nodup) : (names (put fs key v)).Nodup := by
  induction fs with
  | nil => simp [put, names]
  | cons f fs ih =>
      obtain ⟨hf, hfs⟩ := List.nodup_cons.1 h
      by_cases hk : f.1 = key
      · simp only [put, hk, if_true]
        exact List.nodup_cons.2 ⟨hk ▸ hf, hfs⟩
      · simp only [put, hk, if_false]
        refine List.nodup_cons.2 ⟨?_, ih hfs⟩
        intro hm
        rcases mem_names_put.1 hm with hm | hm
        · exact hf hm
        · exact hk hm

theorem nodup_names_overlay (h : (names fs).Nodup) : (names (overlay fs changes)).Nodup := by
  induction changes generalizing fs with
  | nil => exact h
  | cons c cs ih => exact ih (nodup_names_put h)

/-- Fields that are given once each come before those that they are laid over. -/
theorem lookup_overlay (h : (names changes).Nodup) :
    lookup (overlay fs changes) key = (lookup changes key).or (lookup fs key) := by
  induction changes generalizing fs with
  | nil => rfl
  | cons c cs ih =>
      obtain ⟨hc, hcs⟩ := List.nodup_cons.1 h
      change lookup (overlay (put fs c.1 c.2) cs) key = _
      rw [ih hcs]
      by_cases hk : c.1 = key
      · subst hk
        rw [lookup_eq_none.2 hc, lookup_put_self]
        simp [lookup]
      · rw [lookup_put_of_ne fs c.2 (Ne.symm hk)]
        simp [lookup, hk]

end Payroll.Fields

namespace Payroll.Record

open Result

namespace FieldReader

variable {α β : Type} {fs : Fields}

theorem exists_run_seq {f : FieldReader (α → β)} {g : FieldReader α} {P : β → Prop} :
    (∃ b, (f <*> g).run fs = .ok b ∧ P b) ↔
      ∃ h, f.run fs = .ok h ∧ ∃ a, g.run fs = .ok a ∧ P (h a) := by
  rw [run_seq]
  constructor
  · rintro ⟨b, hb, hP⟩
    obtain ⟨h, a, hf, ha, rfl⟩ := Checked.apply_eq_ok.1 hb
    exact ⟨h, hf, a, ha, hP⟩
  · rintro ⟨h, hf, a, ha, hP⟩
    exact ⟨h a, Checked.apply_eq_ok.2 ⟨h, a, hf, ha, rfl⟩, hP⟩

theorem exists_run_map {h : α → β} {g : FieldReader α} {P : β → Prop} :
    (∃ b, (h <$> g).run fs = .ok b ∧ P b) ↔ ∃ a, g.run fs = .ok a ∧ P (h a) := by
  rw [run_map]
  constructor
  · rintro ⟨b, hb, hP⟩
    obtain ⟨h', a, hf, ha, rfl⟩ := Checked.apply_eq_ok.1 hb
    cases hf
    exact ⟨a, ha, hP⟩
  · rintro ⟨a, ha, hP⟩
    exact ⟨h a, Checked.apply_eq_ok.2 ⟨h, a, rfl, ha, rfl⟩, hP⟩

/-- The form in which a reader of several fields is taken apart. -/
theorem run_eq_ok {g : FieldReader α} {a : α} :
    g.run fs = .ok a ↔ ∃ b, g.run fs = .ok b ∧ b = a := by
  simp

end FieldReader

variable {α β : Type}

/-- Whatever a reader makes of data, it makes the same of its written form. -/
def Lossless (read : Reader α) (write : α → Json) : Prop :=
  ∀ j a, read j = .ok a → read (write a) = .ok a

theorem nonemptyText_eq_ok {j : Json} {s : String} :
    nonemptyText j = .ok s ↔ j = .text s ∧ s ≠ "" := by
  cases j with
  | text t =>
      simp only [nonemptyText]
      split
      · next h => simp [refuse, h]
      · next h =>
        simp only [Except.ok.injEq, Json.text.injEq]
        constructor
        · rintro rfl
          exact ⟨rfl, h⟩
        · exact fun hs => hs.1
  | _ => simp [nonemptyText, refuse]

theorem lossless_text : Lossless text .text := fun _ _ _ => rfl

theorem lossless_nonemptyText : Lossless nonemptyText .text := by
  intro j s h
  obtain ⟨-, hs⟩ := nonemptyText_eq_ok.1 h
  exact nonemptyText_eq_ok.2 ⟨rfl, hs⟩

theorem lossless_oneOf {word? : String → Option α} {name : α → String}
    (h : ∀ a, word? (name a) = some a) : Lossless (oneOf word?) (fun a => .text (name a)) := by
  intro j a _
  simp only [oneOf, h]

theorem readable_of_decimal {j : Json} {d : Decimal} (h : decimal j = .ok d) : d.readable := by
  have hnumeral {n : Option Decimal.Numeral} (hn : ofNumeral n = .ok d) : n = some (.finite d) := by
    unfold ofNumeral at hn
    split at hn
    · cases hn
      rfl
    · cases hn
    · cases hn
  cases j with
  | int n =>
      obtain ⟨d', hd, he⟩ := Option.map_eq_some_iff.1 (hnumeral h)
      cases he
      exact Decimal.readable_of_ofInteger? hd
  | real x => exact Decimal.readable_of_read (hnumeral h)
  | text s => exact Decimal.readable_of_read (hnumeral h)
  | _ => cases h

theorem decimal_ofDecimal {d : Decimal} (h : d.readable) : decimal (.ofDecimal d) = .ok d := by
  simp [decimal, Json.ofDecimal, Decimal.read_text h, ofNumeral]

theorem lossless_decimal : Lossless decimal .ofDecimal :=
  fun _ _ h => decimal_ofDecimal (readable_of_decimal h)

theorem lossless_integer : Lossless integer .int := fun _ _ _ => rfl

theorem lossless_truth : Lossless truth .bool := fun _ _ _ => rfl

theorem instant_text (t : Instant) : instant (.text t.text) = .ok t := by
  simp [instant, instantOfText?, Instant.ofText?_text, instantOr]

theorem lossless_instant : Lossless instant (fun t => .text t.text) := fun _ t _ => instant_text t

theorem year_le_of_date {j : Json} {d : Date} (h : date j = .ok d) : d.year ≤ 9999 := by
  have hinstant {t : Option Instant} (ht : dateOfInstant t = .ok d) : d.year ≤ 9999 := by
    unfold dateOfInstant at ht
    split at ht
    · next t =>
      split at ht
      · cases ht
        exact t.valid.1
      · cases ht
    · cases ht
  cases j with
  | text s =>
      simp only [date] at h
      split at h
      · next hd =>
        cases h
        exact Date.year_le_of_ofText? hd
      · exact hinstant h
  | int n => exact hinstant h
  | real x =>
      cases x with
      | finite y => exact hinstant h
      | _ => cases h
  | _ => cases h

theorem lossless_date : Lossless date (fun d => .text d.text) := by
  intro j d h
  simp [date, Date.ofText?_text (year_le_of_date h)]

theorem bounded_eq_ok {read : Reader α} {holds : α → Bool} {kind : IssueKind} {j : Json} {a : α} :
    bounded read holds kind j = .ok a ↔ read j = .ok a ∧ holds a = true := by
  rw [bounded]
  split
  · next b hb =>
    by_cases h : holds b = true
    · simp only [h, if_true, hb, Except.ok.injEq]
      constructor
      · rintro rfl
        exact ⟨rfl, h⟩
      · exact fun hr => hr.1
    · simp only [h, hb, Except.ok.injEq]
      constructor
      · intro hr
        cases hr
      · rintro ⟨rfl, ha⟩
        exact absurd ha h
  · next hr => simp [hr]

theorem lossless_bounded {read : Reader α} {write : α → Json} {holds : α → Bool}
    {kind : IssueKind} (h : Lossless read write) : Lossless (bounded read holds kind) write := by
  intro j a ha
  obtain ⟨hr, hh⟩ := bounded_eq_ok.1 ha
  exact bounded_eq_ok.2 ⟨h j a hr, hh⟩

section Fields

variable {name : String} {read : Reader α} {write : α → Json} {fs gs : Fields} {a : α}

/-- What is read from a field that may be null. -/
def orNull (read : Reader α) : Reader (Option α)
  | .null => .ok none
  | j => (read j).map some

theorem required_eq_ok :
    (required name read).run fs = .ok a ↔ ∃ j, Fields.lookup fs name = some j ∧ read j = .ok a := by
  simp only [required, Checked.under_eq_ok]
  cases Fields.lookup fs name with
  | none => simp [refuse]
  | some j => simp

theorem optional_eq_ok {o : Option α} : (optional name read).run fs = .ok o ↔
    match Fields.lookup fs name with
    | some j => orNull read j = .ok o
    | none => o = none := by
  simp only [optional]
  cases Fields.lookup fs name with
  | none => simp [eq_comm]
  | some j =>
      cases j with
      | null => simp [orNull]
      | _ => simp [orNull, Checked.under_eq_ok]

theorem defaulted_eq_ok {standard : α} : (defaulted name standard read).run fs = .ok a ↔
    match Fields.lookup fs name with
    | some j => read j = .ok a
    | none => a = standard := by
  simp only [defaulted]
  cases Fields.lookup fs name with
  | none => simp [eq_comm]
  | some j => simp [Checked.under_eq_ok]

theorem eq_or_read_of_defaulted {standard : α} (h : (defaulted name standard read).run fs = .ok a) :
    a = standard ∨ ∃ j, read j = .ok a := by
  rw [defaulted_eq_ok] at h
  split at h
  · next j _ => exact .inr ⟨j, h⟩
  · exact .inl h

theorem required_value (h : (required name read).run fs = .ok a) {b : α} {j : Json}
    (hl : Fields.lookup fs name = some j) (hj : read j = .ok b) : a = b := by
  obtain ⟨j', hl', hj'⟩ := required_eq_ok.1 h
  rw [hl] at hl'
  cases hl'
  rw [hj] at hj'
  exact (Except.ok.inj hj').symm

theorem optional_value {o o' : Option α} (h : (optional name read).run fs = .ok o) {j : Json}
    (hl : Fields.lookup fs name = some j) (hj : orNull read j = .ok o') : o = o' := by
  rw [optional_eq_ok, hl] at h
  exact Except.ok.inj (h.symm.trans hj)

theorem optional_absent {o : Option α} (h : (optional name read).run fs = .ok o)
    (hl : Fields.lookup fs name = none) : o = none := by
  rwa [optional_eq_ok, hl] at h

theorem defaulted_value {standard b : α} (h : (defaulted name standard read).run fs = .ok a)
    {j : Json} (hl : Fields.lookup fs name = some j) (hj : read j = .ok b) : a = b := by
  rw [defaulted_eq_ok, hl] at h
  exact Except.ok.inj (h.symm.trans hj)

theorem orNull_written (hr : read (write a) = .ok a) (hw : ∀ a, write a ≠ .null) :
    orNull read (write a) = .ok (some a) := by
  simp only [orNull]
  split
  · next hn => exact absurd hn (hw a)
  · exact map_eq_ok.2 ⟨a, hr, rfl⟩

theorem optional_written {o : Option α} (hr : ∀ a ∈ o, read (write a) = .ok a)
    (hw : ∀ a, write a ≠ .null) (hg : Fields.lookup gs name = some (Json.optional write o)) :
    (optional name read).run gs = .ok o := by
  rw [optional_eq_ok, hg]
  cases o with
  | none => rfl
  | some a => exact orNull_written (hr a rfl) hw

theorem required_rewritten (hr : Lossless read write) (h : (required name read).run fs = .ok a)
    (hg : Fields.lookup gs name = some (write a)) : (required name read).run gs = .ok a := by
  obtain ⟨j, -, hj⟩ := required_eq_ok.1 h
  exact required_eq_ok.2 ⟨_, hg, hr j a hj⟩

theorem read_of_orNull {j : Json} (h : orNull read j = .ok (some a)) : read j = .ok a := by
  cases j with
  | null => cases h
  | _ =>
      obtain ⟨b, hb, he⟩ := map_eq_ok.1 h
      cases he
      exact hb

theorem exists_read_of_optional (h : (optional name read).run fs = .ok (some a)) :
    ∃ j, read j = .ok a := by
  rw [optional_eq_ok] at h
  split at h
  · next j _ => exact ⟨j, read_of_orNull h⟩
  · cases h

theorem lossless_orNull (hr : Lossless read write) (hw : ∀ a, write a ≠ .null) :
    Lossless (orNull read) (Json.optional write) := by
  intro j o h
  cases o with
  | none => rfl
  | some a => exact orNull_written (hr j a (read_of_orNull h)) hw

theorem optional_rewritten {o : Option α} (hr : Lossless read write) (hw : ∀ a, write a ≠ .null)
    (h : (optional name read).run fs = .ok o)
    (hg : Fields.lookup gs name = some (Json.optional write o)) :
    (optional name read).run gs = .ok o := by
  rw [optional_eq_ok, hg]
  rw [optional_eq_ok] at h
  split at h
  · next j _ => exact lossless_orNull hr hw j o h
  · subst h
    rfl

theorem defaulted_rewritten {standard : α} (hr : Lossless read write)
    (hs : read (write standard) = .ok standard) (h : (defaulted name standard read).run fs = .ok a)
    (hg : Fields.lookup gs name = some (write a)) :
    (defaulted name standard read).run gs = .ok a := by
  rw [defaulted_eq_ok, hg]
  rw [defaulted_eq_ok] at h
  split at h
  · next j _ => exact hr j a h
  · subst h
    exact hs

end Fields

section Collections

variable {κ : Type} {key : Reader κ} {read : Reader α}

theorem exists_of_mem_itemsFrom {n : Nat} {js : List Json} {as : List α}
    (h : itemsFrom read n js = .ok as) : ∀ a ∈ as, ∃ j, read j = .ok a := by
  induction js generalizing n as with
  | nil =>
      cases h
      intro a ha
      cases ha
  | cons j js ih =>
      obtain ⟨b, bs, hb, hbs, rfl⟩ := Checked.cons_eq_ok.1 h
      intro a ha
      rcases List.mem_cons.1 ha with rfl | ha
      · exact ⟨j, Checked.under_eq_ok.1 hb⟩
      · exact ih hbs a ha

theorem exists_of_mem_listOf {j : Json} {as : List α} (h : listOf read j = .ok as) :
    ∀ a ∈ as, ∃ i, read i = .ok a := by
  cases j with
  | list items => exact exists_of_mem_itemsFrom h
  | _ => cases h

theorem exists_of_mem_mapOf {j : Json} {ps : List (κ × α)} (h : mapOf key read j = .ok ps) :
    ∀ p ∈ ps, ∃ i, read i = .ok p.2 := by
  cases j with
  | object fs =>
      induction fs generalizing ps with
      | nil =>
          cases h
          intro p hp
          cases hp
      | cons f fs ih =>
          obtain ⟨p', ps', hp', hps', rfl⟩ := Checked.cons_eq_ok.1 h
          obtain ⟨g, a, hg, ha, rfl⟩ := Checked.apply_eq_ok.1 (Checked.under_eq_ok.1 hp')
          obtain ⟨k, -, rfl⟩ := map_eq_ok.1 hg
          intro p hp
          rcases List.mem_cons.1 hp with rfl | hp
          · exact ⟨f.2, ha⟩
          · exact ih hps' p hp
  | _ => cases h

end Collections

section Overriding

variable {name : String} {read : Reader α} {fs gs changes : Fields} {old new : α}

/-- The value that is given among the changes, or else the old one. -/
def Overridden (changes : Fields) (name : String) (read : Reader α) (old new : α) : Prop :=
  match Fields.lookup changes name with
  | some j => read j = .ok new
  | none => new = old

theorem Overridden.unique {new' : α} (h : Overridden changes name read old new)
    (h' : Overridden changes name read old new') : new = new' := by
  unfold Overridden at h h'
  split at h
  · next j hj =>
    rw [hj] at h'
    exact Except.ok.inj (h.symm.trans h')
  · next hnone =>
    rw [hnone] at h'
    exact h.trans h'.symm

theorem overridden_required
    (hl : Fields.lookup fs name = (Fields.lookup changes name).or (Fields.lookup gs name))
    (hold : (required name read).run gs = .ok old) (h : (required name read).run fs = .ok new) :
    Overridden changes name read old new := by
  obtain ⟨i, hi, hri⟩ := required_eq_ok.1 hold
  obtain ⟨j, hj, hrj⟩ := required_eq_ok.1 h
  rw [hi, hj] at hl
  rw [Overridden]
  cases hc : Fields.lookup changes name with
  | some c =>
      rw [hc] at hl
      cases hl
      exact hrj
  | none =>
      rw [hc] at hl
      cases hl
      exact Except.ok.inj (hrj.symm.trans hri)

theorem overridden_optional {old new : Option α}
    (hl : Fields.lookup fs name = (Fields.lookup changes name).or (Fields.lookup gs name))
    (hold : (optional name read).run gs = .ok old) (h : (optional name read).run fs = .ok new) :
    Overridden changes name (orNull read) old new := by
  rw [optional_eq_ok] at hold h
  rw [Overridden]
  cases hc : Fields.lookup changes name with
  | some c =>
      rw [hl, hc] at h
      exact h
  | none =>
      rw [hl, hc, Option.none_or] at h
      cases hg : Fields.lookup gs name with
      | some j =>
          rw [hg] at h hold
          exact Except.ok.inj (h.symm.trans hold)
      | none =>
          rw [hg] at h hold
          exact h.trans hold.symm

theorem overridden_defaulted {standard : α}
    (hl : Fields.lookup fs name = (Fields.lookup changes name).or (Fields.lookup gs name))
    (hold : (defaulted name standard read).run gs = .ok old)
    (h : (defaulted name standard read).run fs = .ok new) :
    Overridden changes name read old new := by
  rw [defaulted_eq_ok] at hold h
  rw [Overridden]
  cases hc : Fields.lookup changes name with
  | some c =>
      rw [hl, hc] at h
      exact h
  | none =>
      rw [hl, hc, Option.none_or] at h
      cases hg : Fields.lookup gs name with
      | some j =>
          rw [hg] at h hold
          exact Except.ok.inj (h.symm.trans hold)
      | none =>
          rw [hg] at h hold
          exact h.trans hold.symm

end Overriding

section Records

variable {name : String} {F : FieldReader α} {rule : α → Option String} {a : α} {j : Json}

theorem record_eq_ok : record name F rule j = .ok a ↔
    ∃ fs, j = .object fs ∧ (∀ f ∈ fs, f.1 ∈ F.names) ∧ F.run fs = .ok a ∧ rule a = none := by
  cases j with
  | object fs =>
      have hunknown : (fs.filterMap fun f => if F.names.contains f.1 then none
          else some (⟨[.key f.1], .unknownField⟩ : Issue)) = [] ↔ ∀ f ∈ fs, f.1 ∈ F.names := by
        simp [List.filterMap_eq_nil_iff]
      simp only [record, Json.object.injEq, exists_eq_left', ← hunknown]
      split
      · next b hrun hnil =>
        simp only [hrun, hnil, Except.ok.injEq, true_and]
        split
        · next hrule =>
          constructor
          · intro h
            cases h
            exact ⟨rfl, hrule⟩
          · exact fun h => congrArg _ h.1
        · next hrule =>
          constructor
          · intro h
            cases h
          · rintro ⟨rfl, h⟩
            rw [h] at hrule
            cases hrule
      · next b hrun hne =>
        constructor
        · intro h
          cases h
        · rintro ⟨hnil, -⟩
          exact (hne hnil).elim
      · next hrun =>
        constructor
        · intro h
          cases h
        · rintro ⟨-, h, -⟩
          rw [hrun] at h
          cases h
  | _ => simp [record, refuse]

theorem lossless_record {write : α → Fields} (hnames : ∀ a, Fields.names (write a) = F.names)
    (hfields : ∀ fs a, F.run fs = .ok a → F.run (write a) = .ok a) :
    Lossless (record name F rule) (fun a => .object (write a)) := by
  intro j a h
  obtain ⟨fs, -, -, hrun, hrule⟩ := record_eq_ok.1 h
  refine record_eq_ok.2 ⟨write a, rfl, ?_, hfields fs a hrun, hrule⟩
  intro f hf
  rw [← hnames a]
  exact List.mem_map_of_mem hf

theorem load_eq_ok {read : Reader α} : load name read j = .ok a ↔ read j = .ok a :=
  mapError_eq_ok

end Records

end Payroll.Record
