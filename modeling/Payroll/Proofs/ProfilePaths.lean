import Mathlib
import Payroll.Command.Settings

/-!
Keys with points as paths into a profile, and what values that are put at the ends of paths leave of it.
-/

namespace Payroll

variable {key field : String}

theorem keyParts_eq_splitOn (cs : List Char) : keyParts cs = cs.splitOn '.' := by
  induction cs with
  | nil => rfl
  | cons c cs ih =>
      rw [List.splitOn_cons_eq_if_modifyHead, ← ih]
      by_cases hc : c = '.'
      · rw [hc]
        rfl
      · obtain ⟨p, ps, hps⟩ := List.exists_cons_of_ne_nil (List.splitOn_ne_nil '.' cs)
        rw [keyParts.eq_3 _ _ hc, if_neg (by simpa using hc), ih, hps]
        rfl

theorem keyPath_eq (key : String) : keyPath key = (key.toList.splitOn '.').map String.ofList := by
  rw [keyPath, keyParts_eq_splitOn]

theorem keyPath_ne_nil (key : String) : keyPath key ≠ [] := by
  rw [keyPath_eq]
  exact mt List.map_eq_nil_iff.1 (List.splitOn_ne_nil _ _)

theorem keyPath_of_notMem (h : '.' ∉ key.toList) : keyPath key = [key] := by
  rw [keyPath_eq, List.splitOn_eq_singleton h, List.map_singleton, String.ofList_toList]

/-- A key with points has several parts, and is longer than any of them. -/
theorem keyPath_of_mem (h : '.' ∈ key.toList) :
    ∃ first second rest, keyPath key = first :: second :: rest ∧ key ≠ first := by
  obtain ⟨a, b, hkey⟩ := List.append_of_mem h
  obtain ⟨p, ps, hp⟩ := List.exists_cons_of_ne_nil (List.splitOn_ne_nil '.' a)
  have hlater : ps ++ b.splitOn '.' ≠ [] := fun hnil =>
    List.splitOn_ne_nil '.' b (List.append_eq_nil_iff.1 hnil).2
  obtain ⟨q, qs, hq⟩ := List.exists_cons_of_ne_nil hlater
  have hparts : key.toList.splitOn '.' = p :: q :: qs := by
    rw [hkey, List.splitOn_append_cons_self, hp, List.cons_append, hq]
  refine ⟨_, _, _, by rw [keyPath_eq, hparts]; rfl, fun hfirst => ?_⟩
  have hjoined : ['.'].intercalate (p :: q :: qs) = key.toList := hparts ▸ List.intercalate_splitOn '.'
  rw [List.intercalate_cons_cons, hfirst, String.toList_ofList] at hjoined
  have hlength := congrArg List.length hjoined
  simp at hlength

theorem keyPath_companyKey (company : String) (h : '.' ∉ field.toList) :
    keyPath (Command.Settings.companyKey company field) =
      "companies" :: (keyPath company ++ [field]) := by
  have hkey : (Command.Settings.companyKey company field).toList =
      "companies".toList ++ '.' :: (company.toList ++ '.' :: field.toList) := by
    have htext : Command.Settings.companyKey company field =
        "companies." ++ company ++ "." ++ field := rfl
    simp [htext]
  rw [keyPath_eq, hkey, List.splitOn_append_cons_self, List.splitOn_append_cons_self,
    List.splitOn_eq_singleton h, List.map_append, List.map_append, ← keyPath_eq, ← keyPath_eq,
    List.map_singleton, String.ofList_toList, keyPath_of_notMem (by decide)]
  rfl

namespace Profile

variable {path path' : List String} {fields : Fields} {v w : Json}

theorem setAt_cons (v : Json) (key : String) (h : path ≠ []) (fields : Fields) :
    setAt v (key :: path) fields =
      Fields.put fields key (.object (setAt v path (fieldsOf (Fields.lookup fields key)))) := by
  cases path with
  | nil => exact absurd rfl h
  | cons k path => rfl

/-- Two paths with one beginning change the value there one after the other. -/
theorem setAt_setAt_cons (v w : Json) (key : String) (h : path ≠ []) (h' : path' ≠ [])
    (fields : Fields) :
    setAt w (key :: path') (setAt v (key :: path) fields) =
      Fields.put fields key
        (.object (setAt w path' (setAt v path (fieldsOf (Fields.lookup fields key))))) := by
  rw [setAt_cons v key h, setAt_cons w key h', Fields.lookup_put_self, Fields.put_put]
  rfl

theorem put_ne_nil (fields : Fields) (key : String) (v : Json) : Fields.put fields key v ≠ [] := by
  cases fields with
  | nil => exact List.cons_ne_nil _ _
  | cons f fs =>
      rw [Fields.put]
      split <;> exact List.cons_ne_nil _ _

theorem setAt_ne_nil (v : Json) (h : path ≠ []) (fields : Fields) : setAt v path fields ≠ [] := by
  match path, h with
  | [key], _ => exact put_ne_nil _ _ _
  | key :: k :: path, _ => exact put_ne_nil _ _ _

end Profile

end Payroll
