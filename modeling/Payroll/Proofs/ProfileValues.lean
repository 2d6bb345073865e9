import Mathlib
import Payroll.Proofs.ProfilePaths

/-!
What is read from a profile after a value is set in it: the value at its path, objects on the way there,
and off the path what was read before, whatever had to give way.
-/

namespace Payroll

variable {fields : Fields} {key other : String} {path path' rest : List String} {v : Json}

namespace Profile

theorem valueAt_cons (fields : Fields) (key : String) (path : List String) :
    valueAt (.object fields) (key :: path) = (Fields.lookup fields key).bind (valueAt · path) := by
  rw [valueAt]
  cases Fields.lookup fields key <;> rfl

theorem valueAt_append (j : Json) (path rest : List String) :
    valueAt j (path ++ rest) = (valueAt j path).bind (valueAt · rest) := by
  induction path generalizing j with
  | nil => rfl
  | cons key path ih =>
      cases j with
      | object fields =>
          rw [List.cons_append, valueAt_cons, valueAt_cons, Option.bind_assoc]
          simp only [ih]
      | _ => rfl

/-- A path that leads on ends in nothing at whatever is no object, as it does in an empty one. -/
theorem valueAt_fieldsOf (h : path ≠ []) (j? : Option Json) :
    valueAt (.object (fieldsOf j?)) path = j?.bind (valueAt · path) := by
  obtain ⟨key, path, rfl⟩ := List.exists_cons_of_ne_nil h
  cases j? with
  | none => rfl
  | some j => cases j <;> rfl

theorem fieldsOf_valueAt (path : List String) (j? : Option Json) :
    fieldsOf (valueAt (.object (fieldsOf j?)) path) = fieldsOf (j?.bind (valueAt · path)) := by
  cases path with
  | nil => cases j? <;> rfl
  | cons key path => rw [valueAt_fieldsOf (List.cons_ne_nil _ _)]

/-! ### Along the path -/

/-- At a beginning of the path an object stands, the one that was there if any, with the value set behind
the rest of the path. -/
theorem valueAt_setAt_beginning (v : Json) (path : List String) (h : rest ≠ []) (fields : Fields) :
    valueAt (.object (setAt v (path ++ rest) fields)) path =
      some (.object (setAt v rest (fieldsOf (valueAt (.object fields) path)))) := by
  induction path generalizing fields with
  | nil => rfl
  | cons key path ih =>
      rw [List.cons_append, setAt_cons v key (List.append_ne_nil_of_right_ne_nil path h), valueAt_cons,
        Fields.lookup_put_self, Option.bind_some, ih, fieldsOf_valueAt, valueAt_cons]

theorem valueAt_setAt (v : Json) (h : path ≠ []) (fields : Fields) :
    valueAt (.object (setAt v path fields)) path = some v := by
  obtain ⟨first, last, rfl⟩ := (List.eq_nil_or_concat' path).resolve_left h
  rw [valueAt_append, valueAt_setAt_beginning v first (List.cons_ne_nil _ _), Option.bind_some, setAt,
    valueAt_cons, Fields.lookup_put_self]
  rfl

/-- Behind the path the value is read that was set. -/
theorem valueAt_setAt_append (v : Json) (h : path ≠ []) (rest : List String) (fields : Fields) :
    valueAt (.object (setAt v path fields)) (path ++ rest) = valueAt v rest := by
  rw [valueAt_append, valueAt_setAt v h, Option.bind_some]

/-! ### Off the path -/

theorem lookup_setAt_of_ne (v : Json) (h : other ≠ key) (path : List String) (fields : Fields) :
    Fields.lookup (setAt v (key :: path) fields) other = Fields.lookup fields other := by
  cases path with
  | nil => exact Fields.lookup_put_of_ne fields v h
  | cons _ path => exact Fields.lookup_put_of_ne fields _ h

/-- Paths of which neither begins the other part at some key. Before it they share objects that are kept
or set in the place of others; from it on nothing is touched. -/
theorem valueAt_setAt_of_not_prefix (v : Json) (h : ¬ path <+: path') (h' : ¬ path' <+: path)
    (fields : Fields) :
    valueAt (.object (setAt v path fields)) path' = valueAt (.object fields) path' := by
  induction path generalizing path' fields with
  | nil => exact absurd List.nil_prefix h
  | cons key path ih =>
      obtain _ | ⟨other, path'⟩ := path'
      · exact absurd List.nil_prefix h'
      by_cases hkey : other = key
      · subst hkey
        have hrest : ¬ path <+: path' := fun hp => h (List.cons_prefix_cons.2 ⟨rfl, hp⟩)
        have hrest' : ¬ path' <+: path := fun hp => h' (List.cons_prefix_cons.2 ⟨rfl, hp⟩)
        -- neither path ends here, so both lead into what the shared key holds
        have hne : path ≠ [] := fun hnil => hrest (hnil ▸ List.nil_prefix)
        have hne' : path' ≠ [] := fun hnil => hrest' (hnil ▸ List.nil_prefix)
        rw [setAt_cons v other hne, valueAt_cons, Fields.lookup_put_self, Option.bind_some,
          ih hrest hrest', valueAt_fieldsOf hne', ← valueAt_cons]
      · rw [valueAt_cons, valueAt_cons, lookup_setAt_of_ne v hkey]

/-! ### Setting again -/

theorem setAt_setAt (v w : Json) (path : List String) (fields : Fields) :
    setAt w path (setAt v path fields) = setAt w path fields := by
  induction path generalizing fields with
  | nil => rfl
  | cons key path ih =>
      cases path with
      | nil => exact Fields.put_put fields key v w
      | cons k path =>
          rw [setAt_setAt_cons v w key (List.cons_ne_nil _ _) (List.cons_ne_nil _ _), ih]
          exact (setAt_cons w key (List.cons_ne_nil _ _) fields).symm

theorem setAt_of_valueAt (h : valueAt (.object fields) path = some v) :
    setAt v path fields = fields := by
  induction path generalizing fields with
  | nil => rfl
  | cons key path ih =>
      rw [valueAt_cons, Option.bind_eq_some_iff] at h
      obtain ⟨j, hj, hv⟩ := h
      cases path with
      | nil => exact Fields.put_of_lookup (hj.trans hv)
      | cons k path =>
          cases j with
          | object own =>
              rw [setAt_cons v key (List.cons_ne_nil _ _), hj, fieldsOf, ih hv, Fields.put_of_lookup hj]
          | _ => cases hv

end Profile

namespace Configuration

variable {c : Configuration}

/-- In an absent profile there is nothing to read. -/
theorem profile_of_profileValue (h : c.profileValue? key = some v) : c.profile? = some c.profile := by
  cases hfile : c.profile? with
  | some fields => rw [profile, hfile, Option.getD_some]
  | none =>
      obtain ⟨first, path, hpath⟩ := List.exists_cons_of_ne_nil (keyPath_ne_nil key)
      rw [profileValue?, hpath, profile, hfile] at h
      cases h

theorem setProfileValue_setProfileValue (c : Configuration) (key : String) (v w : Json) :
    (c.setProfileValue key v).setProfileValue key w = c.setProfileValue key w := by
  have hprofile : (c.setProfileValue key v).profile = Profile.setAt v (keyPath key) c.profile := rfl
  rw [setProfileValue, hprofile, Profile.setAt_setAt]
  rfl

theorem setProfileValue_of_profileValue (h : c.profileValue? key = some v) :
    c.setProfileValue key v = c := by
  rw [setProfileValue, Profile.setAt_of_valueAt h, ← profile_of_profileValue h]

/-- What every key reads after a value is set under one. A key of which the parts go on from those of the
set key reads within the value, one that ends before them reads an object with the value in it, and any
other reads what it did before. -/
theorem profileValue_setProfileValue (c : Configuration) (key other : String) (v : Json) :
    (∀ rest, keyPath other = keyPath key ++ rest →
      (c.setProfileValue key v).profileValue? other = Profile.valueAt v rest) ∧
    (∀ rest, rest ≠ [] → keyPath key = keyPath other ++ rest →
      (c.setProfileValue key v).profileValue? other =
        some (.object (Profile.setAt v rest (Profile.fieldsOf (c.profileValue? other))))) ∧
    (¬ keyPath key <+: keyPath other → ¬ keyPath other <+: keyPath key →
      (c.setProfileValue key v).profileValue? other = c.profileValue? other) := by
  have hread : (c.setProfileValue key v).profileValue? other =
      Profile.valueAt (.object (Profile.setAt v (keyPath key) c.profile)) (keyPath other) := rfl
  rw [hread]
  refine ⟨fun rest hrest => ?_, fun rest hne hrest => ?_, fun h h' => ?_⟩
  · rw [hrest]
    exact Profile.valueAt_setAt_append v (keyPath_ne_nil key) rest c.profile
  · rw [hrest]
    exact Profile.valueAt_setAt_beginning v (keyPath other) hne c.profile
  · exact Profile.valueAt_setAt_of_not_prefix v h h' c.profile

/-- A value set in a profile is read under its key, and under every key of which the parts lead elsewhere
what was read before. Of the values set under a key the last remains, as if it were the only one, and
setting what is there changes nothing. -/
theorem profileValue_lens (c : Configuration) (key : String) (v : Json) :
    (c.setProfileValue key v).profileValue? key = some v ∧
    (∀ other, ¬ keyPath key <+: keyPath other → ¬ keyPath other <+: keyPath key →
      (c.setProfileValue key v).profileValue? other = c.profileValue? other) ∧
    (∀ w, (c.setProfileValue key v).setProfileValue key w = c.setProfileValue key w) ∧
    (c.profileValue? key = some v → c.setProfileValue key v = c) := by
  refine ⟨?_, fun other => (profileValue_setProfileValue c key other v).2.2,
    setProfileValue_setProfileValue c key v, setProfileValue_of_profileValue⟩
  obtain ⟨hwithin, -⟩ := profileValue_setProfileValue c key key v
  exact hwithin [] (List.append_nil _).symm

/-- A profile in which a number stands where a company's section is expected. -/
def numbered : Configuration :=
  { directory := "srv/config"
    profile? := some [("companies", .object [("acme", .object [("risk_class", .text "CLASE_III")]),
      ("norte", .int 7)])] }

/-- The number gives way to objects, one of them under an empty key. Below it there was nothing to read
and is nothing but what is set, and the section beside it is kept. -/
theorem numbered_lens :
    let changed := numbered.setProfileValue "companies.norte..risk_class" (.text "CLASE_I")
    (numbered.profileValue? "companies.norte..risk_class" = none ∧
      changed.profileValue? "companies.norte..risk_class" = some (.text "CLASE_I")) ∧
    (∀ other ∈ ["companies.acme.risk_class", "companies.norte.risk_class"],
      (¬ keyPath "companies.norte..risk_class" <+: keyPath other ∧
        ¬ keyPath other <+: keyPath "companies.norte..risk_class") ∧
      changed.profileValue? other = numbered.profileValue? other) ∧
    changed.setProfileValue "companies.norte..risk_class" (.int 2) =
      numbered.setProfileValue "companies.norte..risk_class" (.int 2) ∧
    (numbered.profileValue? "companies.acme.risk_class" = some (.text "CLASE_III") ∧
      numbered.setProfileValue "companies.acme.risk_class" (.text "CLASE_III") = numbered) := by
  intro changed
  obtain ⟨hread, hothers, hagain, -⟩ :=
    profileValue_lens numbered "companies.norte..risk_class" (.text "CLASE_I")
  obtain ⟨-, -, -, hsame⟩ := profileValue_lens numbered "companies.acme.risk_class" (.text "CLASE_III")
  have hthere : numbered.profileValue? "companies.acme.risk_class" = some (.text "CLASE_III") := by cbv
  refine ⟨⟨by cbv, hread⟩, fun other hother => ?_, hagain _, hthere, hsame hthere⟩
  have hapart : ¬ keyPath "companies.norte..risk_class" <+: keyPath other ∧
      ¬ keyPath other <+: keyPath "companies.norte..risk_class" := by
    revert other
    decide +kernel
  exact ⟨hapart, hothers other hapart.1 hapart.2⟩

end Configuration

end Payroll
