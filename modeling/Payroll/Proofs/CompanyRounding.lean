import Mathlib
import Payroll.Proofs.ProfilePaths
import Payroll.Proofs.TableRecords

/-!
The rounding of companies in a profile. What is set under an identifier without points is the rounding of
that company, and of no other; a point in an identifier leads into the section of another company.
-/

namespace Payroll

open Result Record

/-- An object, or a value that counts as unset. -/
def Json.IsSection (j : Json) : Prop := j.truthy = true → ∃ fields, j = .object fields

theorem Profile.fieldsOf_of_unset {j : Json} (h : j.truthy = false) : fieldsOf (some j) = [] := by
  cases j
  case object fields => exact List.isEmpty_iff.1 ((Bool.not_eq_false' _).mp h)
  all_goals rfl

theorem Json.IsSection.asFields {j : Json} (h : j.IsSection) :
    j.asFields = .ok (Profile.fieldsOf (some j)) := by
  unfold Json.asFields
  cases htruthy : j.truthy with
  | true =>
      obtain ⟨fields, rfl⟩ := h htruthy
      rfl
  | false => rw [Profile.fieldsOf_of_unset htruthy, if_neg Bool.false_ne_true]

theorem Json.head_upper_object (fields : Fields) :
    (Text.upper (Json.plain (.object fields))).toList.head? = some '\x7b' := by
  have hbrace : Text.upperAscii '\x7b' = ['\x7b'] := rfl
  have hshown : (Json.plain (.object fields)).toList = '\x7b' ::
      (String.intercalate ", " (Json.shownFields fields) ++ "\x7d").toList := by
    simp [Json.plain, Json.shown]
  rw [Text.upper, String.toList_ofList, hshown, List.flatMap_cons, hbrace]
  rfl

theorem RoundingMethod.eq_name {s : String} {m : RoundingMethod} (h : ofName? s = some m) :
    s = m.name := by
  have hname := List.find?_some (p := fun m : RoundingMethod => m.name == s) h
  exact (beq_iff_eq.1 hname).symm

theorem RoundingPolicy.method_of_load {name : String} {places : Json} {p : RoundingPolicy}
    (h : load (.object [("method", .text name), ("precision", places)]) = .ok p) :
    RoundingMethod.ofName? name = some p.method := by
  obtain ⟨fs, hfs, -, hrun, -⟩ := record_eq_ok.1 (load_eq_ok.1 h)
  cases hfs
  rw [FieldReader.run_eq_ok, fieldReader, FieldReader.exists_run_seq, FieldReader.exists_run_map]
    at hrun
  obtain ⟨m, hm, n, -, rfl⟩ := hrun
  have hchoice : choice RoundingMethod.ofName? (.text name) = .ok m := defaulted_eq_ok.1 hm
  rw [choice] at hchoice
  split at hchoice
  · next hname =>
    cases hchoice
    exact hname
  · cases hchoice

/-- An object is no name of a method. -/
theorem RoundingPolicy.load_object_ne_ok (fields : Fields) (places : Json) (p : RoundingPolicy) :
    load (.object [("method", .text (Text.upper (Json.plain (.object fields)))),
      ("precision", places)]) ≠ .ok p := by
  intro hload
  have hbrace := congrArg (fun s : String => s.toList.head?)
    (RoundingMethod.eq_name (method_of_load hload))
  rw [Json.head_upper_object] at hbrace
  exact absurd hbrace (by cases p.method <;> decide)

namespace Configuration

variable {c c' : Configuration} {id : String}

/-- The sections of the companies. -/
def sections (c : Configuration) : Fields := Profile.fieldsOf (Fields.lookup c.profile "companies")

def sectionOf (c : Configuration) (id : String) : Fields :=
  Profile.fieldsOf (Fields.lookup c.sections id)

/-- The companies of the profile are an object of sections, as far as they are set. -/
structure Sectioned (c : Configuration) : Prop where
  companies : ∀ j ∈ Fields.lookup c.profile "companies", j.IsSection
  company : ∀ id, ∀ j ∈ Fields.lookup c.sections id, j.IsSection

theorem company_eq (h : c.Sectioned) (id : String) : c.company id = .ok (c.sectionOf id) := by
  have hcompany := h.company id
  unfold company sectionOf
  unfold sections at hcompany ⊢
  cases hcompanies : Fields.lookup c.profile "companies" with
  | none => rfl
  | some j =>
      rw [hcompanies] at hcompany
      cases htruthy : j.truthy with
      | false =>
          rw [Profile.fieldsOf_of_unset htruthy]
          simp only [Option.getD_some, htruthy]
          rfl
      | true =>
          obtain ⟨fields, rfl⟩ := h.companies j hcompanies htruthy
          simp only [Option.getD_some, htruthy]
          change ((Fields.lookup fields id).getD .null).asFields =
            .ok (Profile.fieldsOf (Fields.lookup fields id))
          cases hsection : Fields.lookup fields id with
          | none => rfl
          | some j => exact (hcompany j hsection).asFields

/-- Only the method and the places of a section matter for the rounding. -/
theorem roundingPolicy_congr (h : c.Sectioned) (h' : c'.Sectioned) (hsettings : c'.settings = c.settings)
    (hmethod : Fields.lookup (c'.sectionOf id) "rounding_method" =
      Fields.lookup (c.sectionOf id) "rounding_method")
    (hplaces : Fields.lookup (c'.sectionOf id) "rounding_precision" =
      Fields.lookup (c.sectionOf id) "rounding_precision") :
    c'.roundingPolicy id = c.roundingPolicy id := by
  unfold roundingPolicy
  rw [company_eq h, company_eq h']
  simp only [bind, Except.bind, set?, hsettings, hmethod, hplaces]

theorem roundingPolicy_own {p : RoundingPolicy} (h : c.Sectioned)
    (hmethod : Fields.lookup (c.sectionOf id) "rounding_method" = some (.text p.method.name))
    (hplaces : Fields.lookup (c.sectionOf id) "rounding_precision" = some (.int p.places)) :
    c.roundingPolicy id = .ok p := by
  have hname : Text.upper p.method.name = p.method.name := by
    cases p.method <;> decide
  have hset : set? (c.sectionOf id) "rounding_method" = some (.text p.method.name) := by
    rw [set?, hmethod]
    cases p.method <;> rfl
  unfold roundingPolicy
  rw [company_eq h]
  simp only [bind, Except.bind, hset, hplaces, Option.some_or, Option.getD_some, Json.plain, hname]
  exact RoundingPolicy.load_toJson p

theorem roundingPolicy_of_methodObject {fields : Fields} (h : c.Sectioned) (hne : fields ≠ [])
    (hmethod : Fields.lookup (c.sectionOf id) "rounding_method" = some (.object fields)) :
    ∃ f, c.roundingPolicy id = .error f := by
  have hset : set? (c.sectionOf id) "rounding_method" = some (.object fields) := by
    rw [set?, hmethod]
    cases fields with
    | nil => exact absurd rfl hne
    | cons f fs => rfl
  cases hpolicy : c.roundingPolicy id with
  | error f => exact ⟨f, rfl⟩
  | ok p =>
      unfold roundingPolicy at hpolicy
      rw [company_eq h] at hpolicy
      simp only [bind_eq_ok, Except.ok.injEq, exists_eq_left', hset, Option.some_or,
        Option.getD_some] at hpolicy
      obtain ⟨count, -, hload⟩ := hpolicy
      exact absurd hload (RoundingPolicy.load_object_ne_ok fields _ p)

theorem roundingPolicy_of_placesObject {fields : Fields} (h : c.Sectioned)
    (hplaces : Fields.lookup (c.sectionOf id) "rounding_precision" = some (.object fields)) :
    ∃ f, c.roundingPolicy id = .error f := by
  unfold roundingPolicy
  rw [company_eq h]
  simp only [bind, Except.bind, hplaces]
  exact ⟨_, rfl⟩

section Setting

open Command.Settings (withRounding)

variable {other first second : String} {rest : List String} {p : RoundingPolicy}

/-- A section in which the rounding is set behind some keys. -/
def roundedAt (path : List String) (p : RoundingPolicy) (own : Fields) : Fields :=
  Profile.setAt (.int p.places) (path ++ ["rounding_precision"])
    (Profile.setAt (.text p.method.name) (path ++ ["rounding_method"]) own)

theorem roundedAt_nil (p : RoundingPolicy) (own : Fields) : roundedAt [] p own =
    Fields.put (Fields.put own "rounding_method" (.text p.method.name)) "rounding_precision"
      (.int p.places) := rfl

theorem roundedAt_cons (key : String) (path : List String) (p : RoundingPolicy) (own : Fields) :
    roundedAt (key :: path) p own = Fields.put own key
      (.object (roundedAt path p (Profile.fieldsOf (Fields.lookup own key)))) :=
  Profile.setAt_setAt_cons _ _ key (List.append_ne_nil_of_right_ne_nil _ (List.cons_ne_nil _ _))
    (List.append_ne_nil_of_right_ne_nil _ (List.cons_ne_nil _ _)) own

theorem roundedAt_ne_nil (path : List String) (p : RoundingPolicy) (own : Fields) :
    roundedAt path p own ≠ [] :=
  Profile.setAt_ne_nil _ (List.append_ne_nil_of_right_ne_nil _ (List.cons_ne_nil _ _)) _

/-- The configuration after both options of a company's rounding are set. -/
def rounded (c : Configuration) (id : String) (p : RoundingPolicy) : Configuration :=
  withRounding c id (some p.method) (some p.places)

theorem profile_rounded (c : Configuration) (id : String) (p : RoundingPolicy) :
    (c.rounded id p).profile = Fields.put c.profile "companies"
      (.object (roundedAt (keyPath id) p c.sections)) := by
  have hprofile : (c.rounded id p).profile =
      Profile.setAt (.int p.places) (keyPath (Command.Settings.companyKey id "rounding_precision"))
        (Profile.setAt (.text p.method.name)
          (keyPath (Command.Settings.companyKey id "rounding_method")) c.profile) := rfl
  rw [hprofile, keyPath_companyKey id (by decide), keyPath_companyKey id (by decide)]
  exact roundedAt_cons "companies" (keyPath id) p c.profile

theorem sections_rounded (hpath : keyPath id = first :: rest) : (c.rounded id p).sections =
    Fields.put c.sections first (.object (roundedAt rest p (c.sectionOf first))) := by
  rw [sections, profile_rounded, Fields.lookup_put_self, hpath]
  exact roundedAt_cons first rest p c.sections

theorem sectionOf_rounded_first (hpath : keyPath id = first :: rest) :
    (c.rounded id p).sectionOf first = roundedAt rest p (c.sectionOf first) := by
  rw [sectionOf, sections_rounded hpath, Fields.lookup_put_self]
  rfl

theorem sectionOf_rounded_other (hpath : keyPath id = first :: rest) (hother : other ≠ first) :
    (c.rounded id p).sectionOf other = c.sectionOf other := by
  rw [sectionOf, sections_rounded hpath, Fields.lookup_put_of_ne _ _ hother]
  rfl

theorem Sectioned.rounded (h : c.Sectioned) (id : String) (p : RoundingPolicy) :
    (c.rounded id p).Sectioned where
  companies j hj := by
    rw [profile_rounded, Fields.lookup_put_self] at hj
    exact fun _ => ⟨_, (Option.some.inj hj).symm⟩
  company other j hj := by
    obtain ⟨first, rest, hpath⟩ := List.exists_cons_of_ne_nil (keyPath_ne_nil id)
    rw [sections_rounded hpath] at hj
    by_cases hother : other = first
    · rw [hother, Fields.lookup_put_self] at hj
      exact fun _ => ⟨_, (Option.some.inj hj).symm⟩
    · rw [Fields.lookup_put_of_ne _ _ hother] at hj
      exact h.company other j hj

theorem roundingPolicy_rounded_other (h : c.Sectioned) (hpath : keyPath id = first :: rest)
    (hother : other ≠ first) : (c.rounded id p).roundingPolicy other = c.roundingPolicy other := by
  have hown := sectionOf_rounded_other (c := c) (p := p) hpath hother
  exact roundingPolicy_congr h (h.rounded id p) rfl (by rw [hown]) (by rw [hown])

theorem roundingPolicy_rounded (h : c.Sectioned) (hpath : keyPath id = [id]) :
    (c.rounded id p).roundingPolicy id = .ok p := by
  have hown := sectionOf_rounded_first (c := c) (p := p) hpath
  rw [roundedAt_nil] at hown
  refine roundingPolicy_own (h.rounded id p) ?_ ?_
  · rw [hown, Fields.lookup_put_of_ne _ _ (by decide), Fields.lookup_put_self]
  · rw [hown, Fields.lookup_put_self]

/-- Behind a point the rounding is set below another key of the first company's section. -/
theorem roundingPolicy_rounded_first (h : c.Sectioned) (hpath : keyPath id = first :: second :: rest)
    (hmethod : second ≠ "rounding_method") (hplaces : second ≠ "rounding_precision") :
    (c.rounded id p).roundingPolicy first = c.roundingPolicy first := by
  have hown := sectionOf_rounded_first (c := c) (p := p) hpath
  rw [roundedAt_cons] at hown
  refine roundingPolicy_congr h (h.rounded id p) rfl ?_ ?_
  · rw [hown, Fields.lookup_put_of_ne _ _ hmethod.symm]
  · rw [hown, Fields.lookup_put_of_ne _ _ hplaces.symm]

theorem roundingPolicy_rounded_broken (h : c.Sectioned)
    (hpath : keyPath id = first :: second :: rest)
    (hsecond : second = "rounding_method" ∨ second = "rounding_precision") :
    ∃ f, (c.rounded id p).roundingPolicy first = .error f := by
  have hown := sectionOf_rounded_first (c := c) (p := p) hpath
  rw [roundedAt_cons] at hown
  have hlookup := congrArg (Fields.lookup · second) hown
  simp only [Fields.lookup_put_self] at hlookup
  rcases hsecond with rfl | rfl
  · exact roundingPolicy_of_methodObject (h.rounded id p) (roundedAt_ne_nil _ _ _) hlookup
  · exact roundingPolicy_of_placesObject (h.rounded id p) hlookup

end Setting

end Configuration

end Payroll
