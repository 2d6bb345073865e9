import Mathlib
import Payroll.Audit.Trail
import Payroll.Path
import Payroll.Proofs.DecimalText
import Payroll.Proofs.Results
import Payroll.Version.Store

/-!
Which texts name files, and where their documents stand: below the directory of their kind, those of
different identifiers under different paths.
-/

namespace Payroll

open Result

namespace Key

variable {label s w : String}

/-- Letters, digits, points, underscores and hyphens of ASCII, at least one of them. -/
def Plain (s : String) : Prop :=
  s ≠ "" ∧ ∀ c ∈ s.toList, ('a' ≤ c ∧ c ≤ 'z') ∨ ('A' ≤ c ∧ c ≤ 'Z') ∨ ('0' ≤ c ∧ c ≤ '9') ∨
    c = '.' ∨ c = '_' ∨ c = '-'

/-- A line break may stand behind an identifier; with it even the names of the current and the parent
directory are identifiers. -/
def Accepted (s : String) : Prop :=
  (Plain s ∧ s ≠ "." ∧ s ≠ "..") ∨ ∃ w, Plain w ∧ s = w ++ "\n"

theorem isKeyChar_iff {c : Char} : isKeyChar c ↔ ('a' ≤ c ∧ c ≤ 'z') ∨ ('A' ≤ c ∧ c ≤ 'Z') ∨
    ('0' ≤ c ∧ c ≤ '9') ∨ c = '.' ∨ c = '_' ∨ c = '-' := by
  simp only [isKeyChar, Char.isAlphanum, Char.isAlpha, Char.isUpper, Char.isLower, Char.isDigit,
    Bool.or_eq_true, Bool.and_eq_true, decide_eq_true_eq, beq_iff_eq, ge_iff_le, Char.le_def]
  tauto

theorem plain_iff : Plain s ↔ s.toList ≠ [] ∧ s.toList.all isKeyChar := by
  simp only [Plain, List.all_eq_true, isKeyChar_iff, ne_eq, String.toList_eq_nil_iff]

theorem withoutLineBreak_append (w : String) : withoutLineBreak (w ++ "\n").toList = w.toList := by
  have hlist : (w ++ "\n").toList = w.toList ++ ['\n'] := String.toList_append
  rw [withoutLineBreak, hlist, if_pos List.getLast?_concat, List.dropLast_concat]

theorem withoutLineBreak_of_plain (h : Plain s) : withoutLineBreak s.toList = s.toList := by
  rw [withoutLineBreak, if_neg]
  intro hlast
  have hbreak := List.all_eq_true.1 (plain_iff.1 h).2 '\n' (List.mem_of_getLast? hlast)
  exact absurd hbreak (by decide)

theorem isSafe_iff : isSafe s ↔ Accepted s := by
  simp only [isSafe, Bool.and_eq_true, bne_iff_ne]
  constructor
  · rintro ⟨⟨⟨hne, hall⟩, hdot⟩, hdots⟩
    by_cases hlast : s.toList.getLast? = some '\n'
    · refine .inr ⟨String.ofList s.toList.dropLast, ?_, ?_⟩
      · rw [withoutLineBreak, if_pos hlast] at hne hall
        rw [plain_iff, String.toList_ofList]
        exact ⟨hne, hall⟩
      · have hlist := List.dropLast_append_getLast? '\n' hlast
        rw [← String.toList_inj, String.toList_append, String.toList_ofList]
        exact hlist.symm
    · rw [withoutLineBreak, if_neg hlast] at hne hall
      exact .inl ⟨plain_iff.2 ⟨hne, hall⟩, hdot, hdots⟩
  · rintro (⟨hplain, hdot, hdots⟩ | ⟨w, hplain, rfl⟩)
    · rw [withoutLineBreak_of_plain hplain]
      exact ⟨⟨plain_iff.1 hplain, hdot⟩, hdots⟩
    · rw [withoutLineBreak_append]
      have hother {t : String} (ht : t.toList.getLast? ≠ some '\n') : w ++ "\n" ≠ t := by
        rintro rfl
        exact ht (by rw [String.toList_append]; exact List.getLast?_concat)
      exact ⟨⟨plain_iff.1 hplain, hother (by decide)⟩, hother (by decide)⟩

/-- An identifier is given back, and any other text is a refused value. -/
theorem check_text (label s : String) : (Accepted s → check label (.text s) = .ok s) ∧
    (¬Accepted s → check label (.text s) = .error (.unsafeKey label (.text s))) := by
  constructor
  · intro h
    exact check_eq_ok.2 ⟨isSafe_iff.2 h, rfl⟩
  · intro h
    rw [check, if_neg (mt isSafe_iff.1 h)]

/-- No identifier leads to another directory. -/
theorem Accepted.name (h : Accepted s) : '/' ∉ s.toList ∧ s ≠ "" ∧ s ≠ "." ∧ s ≠ ".." := by
  have hslash {w : String} (hw : Plain w) : '/' ∉ w.toList := fun hmem =>
    absurd (List.all_eq_true.1 (plain_iff.1 hw).2 '/' hmem) (by decide)
  rcases h with ⟨hplain, hdot, hdots⟩ | ⟨w, hplain, rfl⟩
  · exact ⟨hslash hplain, hplain.1, hdot, hdots⟩
  · have hother {t : String} (ht : '\n' ∉ t.toList) : w ++ "\n" ≠ t := by
      rintro rfl
      exact ht (by simp)
    refine ⟨?_, hother (by decide), hother (by decide), hother (by decide)⟩
    simpa using hslash hplain

end Key

namespace Path

variable {root p q : Path} {s t : String}

theorem ofText_of_name (hslash : '/' ∉ s.toList) (hne : s ≠ "") (hdot : s ≠ ".") :
    ofText s = ⟨"", [s]⟩ := by
  have hanchor : anchorOf s = "" := by
    unfold anchorOf
    split
    · next h => exact absurd (by rw [h]; simp) hslash
    · next h => exact absurd (by rw [h]; simp) hslash
    · next h => exact absurd (by rw [h]; simp) hslash
    · rfl
  rw [ofText, hanchor, List.splitOn_eq_singleton hslash]
  simp [hne, hdot]

theorem join_name (root : Path) (hslash : '/' ∉ s.toList) (hne : s ≠ "") (hdot : s ≠ ".") :
    root.join s = { root with names := root.names ++ [s] } := by
  rw [join, ofText_of_name hslash hne hdot]
  rfl

/-- The path goes on from another one, without a step to a parent directory. -/
def Below (root p : Path) : Prop :=
  p.anchor = root.anchor ∧ ∃ names, p.names = root.names ++ names ∧ names ≠ [] ∧ ".." ∉ names

theorem intercalate_cons (x : List Char) (xs : List (List Char)) :
    ['/'].intercalate (x :: xs) = x ++ xs.flatMap fun y => '/' :: y := by
  induction xs generalizing x with
  | nil => simp
  | cons y ys ih => rw [List.intercalate_cons_cons, ih]; simp

/-- The text of a path that goes on behind some name. -/
theorem toList_text (hnames : root.names ≠ []) :
    ({ root with names := root.names ++ [s, t] } : Path).text.toList =
      (root.anchor ++ String.intercalate "/" root.names).toList ++
        '/' :: (s.toList ++ '/' :: t.toList) := by
  obtain ⟨n, ns, hroot⟩ := List.exists_cons_of_ne_nil hnames
  have hclean : (root.anchor ++ String.intercalate "/" (root.names ++ [s, t])).toList =
      (root.anchor ++ String.intercalate "/" root.names).toList ++
        '/' :: (s.toList ++ '/' :: t.toList) := by
    rw [hroot, String.toList_append, String.toList_append, String.toList_intercalate,
      String.toList_intercalate]
    simp [intercalate_cons]
  rw [text, if_neg, hclean]
  intro hempty
  rw [hempty] at hclean
  simp at hclean

/-- Names without separators can be told from what is put together of them. -/
theorem names_unique {s' t' : String} (hs : '/' ∉ s.toList) (hs' : '/' ∉ s'.toList)
    (h : s.toList ++ '/' :: t.toList = s'.toList ++ '/' :: t'.toList) : s = s' ∧ t = t' := by
  have hrun {u v : String} (hu : '/' ∉ u.toList) :
      (u.toList ++ '/' :: v.toList).takeWhile (· != '/') = u.toList := by
    refine Text.takeWhile_run (fun c hc => ?_) (by simp)
    rw [bne_iff_ne]
    rintro rfl
    exact hu hc
  have hfirst : s.toList = s'.toList := by rw [← hrun (v := t) hs, h, hrun hs']
  rw [hfirst] at h
  exact ⟨String.toList_inj.1 hfirst, String.toList_inj.1 (List.cons.inj (List.append_cancel_left h)).2⟩

end Path

theorem documentPath_eq_ok {root p : Path} {ownerLabel nameLabel : String} {owner name : String} :
    documentPath root ownerLabel nameLabel (.text owner) (.text name) = .ok p ↔
      Key.Accepted owner ∧ Key.Accepted name ∧
        p = { root with names := root.names ++ [owner, name ++ ".json"] } := by
  have hjoin (howner : Key.Accepted owner) (hname : Key.Accepted name) :
      (root.join owner).join (name ++ ".json") =
        { root with names := root.names ++ [owner, name ++ ".json"] } := by
    obtain ⟨hslash, hne, hdot, -⟩ := howner.name
    have hfile : '/' ∉ (name ++ ".json").toList := by
      simpa using hname.name.1
    have hlong {t : String} (ht : t.length < 5) : name ++ ".json" ≠ t := by
      rintro rfl
      rw [String.length_append, show ".json".length = 5 from rfl] at ht
      omega
    rw [Path.join_name root hslash hne hdot, Path.join_name _ hfile (hlong (by decide)) (hlong (by decide)),
      List.append_assoc]
    rfl
  constructor
  · intro h
    obtain ⟨_, howner, h⟩ := bind_eq_ok.1 h
    obtain ⟨_, hname, h⟩ := bind_eq_ok.1 h
    cases h
    obtain ⟨howner, rfl⟩ := Key.check_eq_ok.1 howner
    obtain ⟨hname, rfl⟩ := Key.check_eq_ok.1 hname
    rw [Key.isSafe_iff] at howner hname
    exact ⟨howner, hname, hjoin howner hname⟩
  · rintro ⟨howner, hname, rfl⟩
    refine bind_eq_ok.2 ⟨owner, (Key.check_text _ _).1 howner, ?_⟩
    refine bind_eq_ok.2 ⟨name, (Key.check_text _ _).1 hname, ?_⟩
    rw [pure_eq_ok, hjoin howner hname]

/-- Identifiers, and no other texts, have documents, which stand below the root; two documents whose
paths have one text are one and the same. -/
structure KeepsApart (root : Path) (place : Json → Json → Except Fault Path) : Prop where
  placed : ∀ owner name : String, (∃ p, place (.text owner) (.text name) = .ok p) ↔
    Key.Accepted owner ∧ Key.Accepted name
  below : ∀ (owner name : String) (p : Path), place (.text owner) (.text name) = .ok p →
    root.Below p
  apart : ∀ (owner name owner' name' : String) (p q : Path),
    place (.text owner) (.text name) = .ok p → place (.text owner') (.text name') = .ok q →
    p.text = q.text → owner = owner' ∧ name = name'

theorem keepsApart_documentPath {root : Path} (hroot : root.names ≠ [])
    (ownerLabel nameLabel : String) :
    KeepsApart root (documentPath root ownerLabel nameLabel) where
  placed owner name := by
    simp only [documentPath_eq_ok]
    exact ⟨fun ⟨_, howner, hname, _⟩ => ⟨howner, hname⟩,
      fun ⟨howner, hname⟩ => ⟨_, howner, hname, rfl⟩⟩
  below owner name p h := by
    obtain ⟨howner, hname, rfl⟩ := documentPath_eq_ok.1 h
    refine ⟨rfl, _, rfl, List.cons_ne_nil _ _, ?_⟩
    have hfile : ".." ≠ name ++ ".json" := by
      intro he
      have hlength := congrArg String.length he
      rw [String.length_append, show ".json".length = 5 from rfl, show "..".length = 2 from rfl] at hlength
      omega
    simpa [hfile] using howner.name.2.2.2.symm
  apart owner name owner' name' p q hp hq htext := by
    obtain ⟨howner, -, rfl⟩ := documentPath_eq_ok.1 hp
    obtain ⟨howner', -, rfl⟩ := documentPath_eq_ok.1 hq
    rw [← String.toList_inj, Path.toList_text hroot, Path.toList_text hroot] at htext
    have hnames := (List.cons.inj (List.append_cancel_left htext)).2
    obtain ⟨rfl, hfile⟩ := Path.names_unique howner.name.1 howner'.name.1 hnames
    have hname : name.toList ++ ".json".toList = name'.toList ++ ".json".toList := by
      rw [← String.toList_append, ← String.toList_append, hfile]
    exact ⟨rfl, String.toList_inj.1 (List.append_cancel_right hname)⟩

theorem names_join_ne_nil (data : Path) (hslash : '/' ∉ s.toList) (hne : s ≠ "") (hdot : s ≠ ".") :
    (data.join s).names ≠ [] := by
  rw [Path.join_name data hslash hne hdot]
  simp

/-- A document has no path only because one of its two names is refused. -/
theorem documentPath_eq_error {root : Path} {ownerLabel nameLabel : String} {owner name : Json}
    {f : Fault} : documentPath root ownerLabel nameLabel owner name = .error f ↔
      Key.check ownerLabel owner = .error f ∨
        (∃ d, Key.check ownerLabel owner = .ok d) ∧ Key.check nameLabel name = .error f := by
  simp only [documentPath, bind_eq_error, pure, Except.pure, reduceCtorEq, and_false, exists_false,
    or_false, exists_and_right]

theorem FormulaStore.scopeOf_eq_error (store : FormulaStore) (data : Path) (company concept : Json)
    (f : Fault) :
    store.scopeOf company concept = .error f ↔ data.scopePath company concept = .error f := by
  rw [Path.scopePath, documentPath_eq_error]
  simp only [FormulaStore.scopeOf, bind_eq_error, pure, Except.pure, reduceCtorEq, and_false,
    exists_false, or_false, exists_and_right]

theorem AuditTrail.record_eq_error_of_path {t : AuditTrail} {e : AuditEntry} {data : Path} {f : Fault}
    (h : data.entryPath (.text e.detail) (.text e.id) = .error f) : t.record e = .error f := by
  rw [Path.entryPath, documentPath_eq_error] at h
  rw [AuditTrail.record, bind_eq_error]
  refine h.imp_right ?_
  rintro ⟨⟨d, hd⟩, hid⟩
  exact ⟨d, hd, bind_eq_error.2 (.inl hid)⟩

/-- A text is an identifier exactly if it consists of key characters and is not the name of the current
or the parent directory, or is such characters with one line break behind; any other text is a refused
value. The paths of scopes and of audit entries are made of identifiers only, stay below their roots
and are different for different pairs, and neither store takes what has no path. -/
theorem identifiers_keepApart (data : Path) :
    (∀ label s : String, (Key.Accepted s → Key.check label (.text s) = .ok s) ∧
      (¬Key.Accepted s → ∃ f, Key.check label (.text s) = .error f ∧ f.kind = .value)) ∧
    KeepsApart data.formulas data.scopePath ∧ KeepsApart data.audit data.entryPath ∧
    (∀ (store : FormulaStore) (company concept : Json) (f : Fault),
      store.scopeOf company concept = .error f ↔ data.scopePath company concept = .error f) ∧
    ∀ (t : AuditTrail) (e : AuditEntry) (f : Fault),
      data.entryPath (.text e.detail) (.text e.id) = .error f → t.record e = .error f := by
  refine ⟨fun label s => ?_, ?_, ?_, ?_, ?_⟩
  · obtain ⟨haccepted, hrefused⟩ := Key.check_text label s
    exact ⟨haccepted, fun h => ⟨_, hrefused h, rfl⟩⟩
  · exact keepsApart_documentPath (names_join_ne_nil data (by decide) (by decide) (by decide)) _ _
  · exact keepsApart_documentPath (names_join_ne_nil data (by decide) (by decide) (by decide)) _ _
  · exact fun store => store.scopeOf_eq_error data
  · exact fun t e f => AuditTrail.record_eq_error_of_path

/-- An identifier with a line break behind it has a directory of its own, and one with a separator has
none. -/
theorem brokenLine_keptApart : Key.check "company_id" (.text "acme\n") = .ok "acme\n" ∧
    (∃ f, Key.check "company_id" (.text "../acme") = .error f ∧ f.kind = .value) ∧
    ∃ p q, (Path.ofText "/srv").scopePath (.text "acme\n") (.text "P001") = .ok p ∧
      (Path.ofText "/srv").scopePath (.text "acme") (.text "P001") = .ok q ∧
      (Path.ofText "/srv").formulas.Below p ∧ p.text ≠ q.text := by
  obtain ⟨hcheck, hscopes, -⟩ := identifiers_keepApart (Path.ofText "/srv")
  have hbroken : Key.Accepted "acme\n" := Key.isSafe_iff.1 (by decide)
  have hacme : Key.Accepted "acme" := Key.isSafe_iff.1 (by decide)
  have hconcept : Key.Accepted "P001" := Key.isSafe_iff.1 (by decide)
  have hparent : ¬Key.Accepted "../acme" := mt Key.isSafe_iff.2 (by decide)
  obtain ⟨p, hp⟩ := (hscopes.placed _ _).2 ⟨hbroken, hconcept⟩
  obtain ⟨q, hq⟩ := (hscopes.placed _ _).2 ⟨hacme, hconcept⟩
  refine ⟨(hcheck _ _).1 hbroken, (hcheck _ _).2 hparent, p, q, hp, hq, hscopes.below _ _ _ hp, ?_⟩
  intro htext
  exact absurd (hscopes.apart _ _ _ _ _ _ hp hq htext).1 (by decide)

end Payroll
