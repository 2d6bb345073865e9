import Mathlib
import Payroll.Command.Settings
import Payroll.Installation
import Payroll.Proofs.CompanyRounding
import Payroll.Proofs.Faults

/-!
The configurations that commands write. What is set has the form that its reader takes, except that an
identifier with points can put an object where the rounding of another company was.
-/

namespace Payroll.Configuration

open Result Record

variable {c : Configuration} {id other name field key : String} {v : Json}

/-- Commands write no table files, and every setting in one form. In the section of a company the parts
of the rounding may have given way to objects. -/
structure Written (c : Configuration) : Prop where
  tableFiles : c.tableFiles = []
  path : ∀ j ∈ Fields.lookup c.settings "data_dir", ∃ path, j = .text path
  method : ∀ j ∈ Fields.lookup c.settings "default_rounding_method",
    ∃ m : RoundingMethod, j = .text m.name
  places : ∀ j ∈ Fields.lookup c.settings "default_rounding_precision",
    ∃ n : Nat, n ≤ maxPlaces ∧ j = .int n
  sectioned : c.Sectioned
  ownMethod : ∀ id, ∀ j ∈ Fields.lookup (c.sectionOf id) "rounding_method",
    (∃ m : RoundingMethod, j = .text m.name) ∨ ∃ fields, j = .object fields
  ownPlaces : ∀ id, ∀ j ∈ Fields.lookup (c.sectionOf id) "rounding_precision",
    (∃ n : Nat, n ≤ maxPlaces ∧ j = .int n) ∨ ∃ fields, j = .object fields

/-- A part of a company's rounding that has given way to an object. -/
def Overwritten (c : Configuration) (id name : String) : Prop :=
  ∃ fields, Fields.lookup (c.sectionOf id) name = some (.object fields)

/-! ### What a policy is read from -/

theorem load_settles {α : Type} {name : String} {read : Record.Reader α} (j : Json) :
    (∃ a, Record.load name read j = .ok a) ∨
      ∃ issues, Record.load name read j = .error (.invalidRecord name issues) := by
  unfold Record.load
  cases read j with
  | ok a => exact .inl ⟨a, rfl⟩
  | error issues => exact .inr ⟨issues, rfl⟩

theorem load_rounding (m : RoundingMethod) {n : Nat} (h : n ≤ maxPlaces) :
    RoundingPolicy.load (.object [("method", .text (Text.upper m.name)), ("precision", .int n)]) =
      .ok ⟨m, n, h⟩ := by
  have hname : Text.upper m.name = m.name := by cases m <;> decide
  rw [hname]
  exact RoundingPolicy.load_toJson ⟨m, n, h⟩

/-- The method in effect for a company, before it is looked up by its name. -/
theorem method_settles (h : c.Written) (id : String) {j : Json}
    (hj : ((set? (c.sectionOf id) "rounding_method").or
      (set? c.settings "default_rounding_method")).getD (.text RoundingMethod.round.name) = j) :
    (∃ m : RoundingMethod, j = .text m.name) ∨
      c.Overwritten id "rounding_method" ∧ ∃ fields, j = .object fields := by
  subst hj
  cases hown : set? (c.sectionOf id) "rounding_method" with
  | some j =>
      have hlookup := (Option.filter_eq_some_iff.1 hown).1
      obtain hm | ⟨fields, rfl⟩ := h.ownMethod id j hlookup
      · exact .inl hm
      · exact .inr ⟨⟨fields, hlookup⟩, fields, rfl⟩
  | none =>
      cases hset : set? c.settings "default_rounding_method" with
      | some j => exact .inl (h.method j (Option.filter_eq_some_iff.1 hset).1)
      | none => exact .inl ⟨.round, rfl⟩

theorem load_object (fields : Fields) (n : Int) : ∃ issues, RoundingPolicy.load (.object
    [("method", .text (Text.upper (Json.plain (.object fields)))), ("precision", .int n)]) =
      .error (.invalidRecord "RoundingPolicy" issues) :=
  (load_settles _).resolve_left fun ⟨p, hp⟩ => RoundingPolicy.load_object_ne_ok fields _ p hp

/-- A policy is there unless a part of it has given way to an object. -/
theorem roundingPolicy_settles (h : c.Written) (id : String) :
    (∃ p, c.roundingPolicy id = .ok p) ∨
    (c.Overwritten id "rounding_method" ∧
      ∃ issues, c.roundingPolicy id = .error (.invalidRecord "RoundingPolicy" issues)) ∨
    (c.Overwritten id "rounding_precision" ∧
      ∃ fields, c.roundingPolicy id = .error (.misuse (.converting (.object fields)))) := by
  unfold roundingPolicy
  rw [company_eq h.sectioned]
  simp only [bind, Except.bind]
  generalize hm : ((set? (c.sectionOf id) "rounding_method").or
    (set? c.settings "default_rounding_method")).getD (.text RoundingMethod.round.name) = m
  have hload (n : Nat) (hn : n ≤ maxPlaces) :
      (∃ p, RoundingPolicy.load (.object
        [("method", .text (Text.upper m.plain)), ("precision", .int n)]) = .ok p) ∨
      c.Overwritten id "rounding_method" ∧ ∃ issues, RoundingPolicy.load (.object
        [("method", .text (Text.upper m.plain)), ("precision", .int n)]) =
          .error (.invalidRecord "RoundingPolicy" issues) := by
    obtain ⟨m, rfl⟩ | ⟨ho, fields, rfl⟩ := method_settles h id hm
    · exact .inl ⟨_, load_rounding m hn⟩
    · exact .inr ⟨ho, load_object fields n⟩
  cases hl : Fields.lookup (c.sectionOf id) "rounding_precision" with
  | none =>
      cases hs : Fields.lookup c.settings "default_rounding_precision" with
      | none => exact (hload currencyPlaces (by decide)).imp_right .inl
      | some j =>
          obtain ⟨n, hn, rfl⟩ := h.places j hs
          exact (hload n hn).imp_right .inl
  | some j =>
      obtain ⟨n, hn, rfl⟩ | ⟨fields, rfl⟩ := h.ownPlaces id j hl
      · exact (hload n hn).imp_right .inl
      · exact .inr (.inr ⟨⟨fields, hl⟩, fields, rfl⟩)

/-- The faults of a company's rounding of which a part has given way to an object. -/
inductive Misreads (c : Configuration) (id : String) : Fault → Prop
  | method {issues : List Issue} (h : c.Overwritten id "rounding_method") :
      c.Misreads id (.invalidRecord "RoundingPolicy" issues)
  | places {fields : Fields} (h : c.Overwritten id "rounding_precision") :
      c.Misreads id (.misuse (.converting (.object fields)))

theorem roundingPolicy_fails (h : c.Written) (id : String) :
    FailsIn (c.Misreads id) (c.roundingPolicy id) := by
  obtain ⟨p, hp⟩ | ⟨hmethod, issues, hissues⟩ | ⟨hplaces, fields, hfields⟩ := roundingPolicy_settles h id
  · exact hp ▸ .ok p
  · exact hissues ▸ .error (.method hmethod)
  · exact hfields ▸ .error (.places hplaces)

/-! ### What commands write -/

open Command.Settings (SettingKey companyKey)

/-- The form in which a setting is written. -/
def Admits : SettingKey → Json → Prop
  | .dataDirectory, v => ∃ path, v = .text path
  | .roundingMethod, v => ∃ m : RoundingMethod, v = .text m.name
  | .roundingPlaces, v => ∃ n : Nat, n ≤ maxPlaces ∧ v = .int n

theorem Written.setSetting (h : c.Written) {key : SettingKey} (hv : Admits key v) :
    (c.setSetting key.name v).Written := by
  have hput (key' : SettingKey) {P : Json → Prop} (hP : key = key' → P v)
      (hold : ∀ j ∈ Fields.lookup c.settings key'.name, P j) :
      ∀ j ∈ Fields.lookup (Fields.put c.settings key.name v) key'.name, P j := by
    intro j hj
    by_cases hkey : key = key'
    · rw [hkey, Fields.lookup_put_self] at hj
      exact Option.some.inj hj ▸ hP hkey
    · rw [Fields.lookup_put_of_ne _ _ (by revert hkey; cases key <;> cases key' <;> decide)] at hj
      exact hold j hj
  exact {
    tableFiles := h.tableFiles
    path := hput .dataDirectory (by rintro rfl; exact hv) h.path
    method := hput .roundingMethod (by rintro rfl; exact hv) h.method
    places := hput .roundingPlaces (by rintro rfl; exact hv) h.places
    sectioned := ⟨h.sectioned.companies, h.sectioned.company⟩
    ownMethod := h.ownMethod
    ownPlaces := h.ownPlaces }

section Company

theorem sections_setProfileValue (id : String) (hfield : '.' ∉ field.toList) (v : Json) :
    (c.setProfileValue (companyKey id field) v).sections =
      Profile.setAt v (keyPath id ++ [field]) c.sections := by
  have hprofile : (c.setProfileValue (companyKey id field) v).profile =
      Profile.setAt v (keyPath (companyKey id field)) c.profile := rfl
  rw [sections, hprofile, keyPath_companyKey id hfield,
    Profile.setAt_cons v _ (List.append_ne_nil_of_right_ne_nil _ (List.cons_ne_nil _ _)),
    Fields.lookup_put_self]
  rfl

/-- The section of the company that the identifier names first, and no other, has a value more. -/
theorem exists_sections_setProfileValue (id : String) (hfield : '.' ∉ field.toList) (v : Json) :
    ∃ first rest, (c.setProfileValue (companyKey id field) v).sections = Fields.put c.sections first
      (.object (Profile.setAt v (rest ++ [field]) (c.sectionOf first))) := by
  obtain ⟨first, rest, hpath⟩ := List.exists_cons_of_ne_nil (keyPath_ne_nil id)
  refine ⟨first, rest, ?_⟩
  rw [sections_setProfileValue id hfield, hpath]
  exact Profile.setAt_cons v first (List.append_ne_nil_of_right_ne_nil _ (List.cons_ne_nil _ _)) _

theorem lookup_setAt (v : Json) (path : List String) (field name : String) (own : Fields) :
    Fields.lookup (Profile.setAt v (path ++ [field]) own) name = Fields.lookup own name ∨
      (name = field ∧ Fields.lookup (Profile.setAt v (path ++ [field]) own) name = some v) ∨
      ∃ fields, Fields.lookup (Profile.setAt v (path ++ [field]) own) name =
        some (.object fields) := by
  cases path with
  | nil =>
      change Fields.lookup (Fields.put own field v) name = _ ∨ (_ ∧
        Fields.lookup (Fields.put own field v) name = _) ∨ _
      by_cases hname : name = field
      · exact .inr (.inl ⟨hname, hname ▸ Fields.lookup_put_self own name v⟩)
      · exact .inl (Fields.lookup_put_of_ne own v hname)
  | cons key path =>
      rw [List.cons_append, Profile.setAt_cons v key
        (List.append_ne_nil_of_right_ne_nil _ (List.cons_ne_nil _ _))]
      by_cases hname : name = key
      · exact .inr (.inr ⟨_, by rw [hname, Fields.lookup_put_self]⟩)
      · exact .inl (Fields.lookup_put_of_ne own _ hname)

theorem lookup_sectionOf_setProfileValue (id : String) (hfield : '.' ∉ field.toList) (v : Json)
    (other name : String) :
    Fields.lookup ((c.setProfileValue (companyKey id field) v).sectionOf other) name =
        Fields.lookup (c.sectionOf other) name ∨
      (name = field ∧
        Fields.lookup ((c.setProfileValue (companyKey id field) v).sectionOf other) name = some v) ∨
      ∃ fields, Fields.lookup ((c.setProfileValue (companyKey id field) v).sectionOf other) name =
        some (.object fields) := by
  obtain ⟨first, rest, hsections⟩ := exists_sections_setProfileValue (c := c) id hfield v
  unfold sectionOf at hsections ⊢
  rw [hsections]
  by_cases hother : other = first
  · rw [hother, Fields.lookup_put_self]
    exact lookup_setAt v rest field name _
  · rw [Fields.lookup_put_of_ne _ _ hother]
    exact .inl rfl

theorem Sectioned.setProfileValue (h : c.Sectioned) (id : String) (hfield : '.' ∉ field.toList)
    (v : Json) : (c.setProfileValue (companyKey id field) v).Sectioned where
  companies j hj := by
    have hprofile : (c.setProfileValue (companyKey id field) v).profile =
        Profile.setAt v (keyPath (companyKey id field)) c.profile := rfl
    rw [hprofile, keyPath_companyKey id hfield,
      Profile.setAt_cons v _ (List.append_ne_nil_of_right_ne_nil _ (List.cons_ne_nil _ _)),
      Fields.lookup_put_self] at hj
    exact fun _ => ⟨_, (Option.some.inj hj).symm⟩
  company other j hj := by
    obtain ⟨first, rest, hsections⟩ := exists_sections_setProfileValue (c := c) id hfield v
    rw [hsections] at hj
    by_cases hother : other = first
    · rw [hother, Fields.lookup_put_self] at hj
      exact fun _ => ⟨_, (Option.some.inj hj).symm⟩
    · rw [Fields.lookup_put_of_ne _ _ hother] at hj
      exact h.company other j hj

/-- What the parts of a company's section hold under each name, after one of them is set. -/
theorem Written.setProfileValue (h : c.Written) (id : String) (hfield : '.' ∉ field.toList)
    (hmethod : field = "rounding_method" → ∃ m : RoundingMethod, v = .text m.name)
    (hplaces : field = "rounding_precision" → ∃ n : Nat, n ≤ maxPlaces ∧ v = .int n) :
    (c.setProfileValue (companyKey id field) v).Written where
  tableFiles := h.tableFiles
  path := h.path
  method := h.method
  places := h.places
  sectioned := h.sectioned.setProfileValue id hfield v
  ownMethod other j hj := by
    obtain hsame | ⟨hname, hset⟩ | ⟨fields, hobject⟩ :=
      lookup_sectionOf_setProfileValue (c := c) id hfield v other "rounding_method"
    · exact h.ownMethod other j (hsame ▸ hj)
    · rw [hset] at hj
      exact .inl (Option.some.inj hj ▸ hmethod hname.symm)
    · rw [hobject] at hj
      exact .inr ⟨fields, (Option.some.inj hj).symm⟩
  ownPlaces other j hj := by
    obtain hsame | ⟨hname, hset⟩ | ⟨fields, hobject⟩ :=
      lookup_sectionOf_setProfileValue (c := c) id hfield v other "rounding_precision"
    · exact h.ownPlaces other j (hsame ▸ hj)
    · rw [hset] at hj
      exact .inl (Option.some.inj hj ▸ hplaces hname.symm)
    · rw [hobject] at hj
      exact .inr ⟨fields, (Option.some.inj hj).symm⟩

end Company

/-- Nothing is set. -/
theorem written_unset (directory : String) (named : Bool) :
    ({ directory, named } : Configuration).Written where
  tableFiles := rfl
  path := nofun
  method := nofun
  places := nofun
  sectioned := ⟨nofun, nofun⟩
  ownMethod := nofun
  ownPlaces := nofun

end Payroll.Configuration
