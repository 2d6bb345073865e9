import Mathlib
import Payroll.Audit.Entry
import Payroll.Proofs.DecimalText
import Payroll.Proofs.QuotedText

/-!
Canonical texts tell values apart. No canonical text goes on into another one, so the text of a
value fixes it up to the order of the fields of its objects, and so does the text that a snapshot
hash is the digest of.
-/

namespace Payroll.Json

variable {v w : Json} {r s : List Char}

@[elab_as_elim] theorem induct {P : Json → Prop} (null : P .null) (bool : ∀ b, P (.bool b))
    (int : ∀ n, P (.int n)) (real : ∀ x, P (.real x)) (text : ∀ s, P (.text s))
    (list : ∀ items, (∀ v ∈ items, P v) → P (.list items))
    (object : ∀ fields : Fields, (∀ f ∈ fields, P f.2) → P (.object fields)) (v : Json) : P v :=
  match v with
  | .null => null
  | .bool b => bool b
  | .int n => int n
  | .real x => real x
  | .text s => text s
  | .list items => list items fun v _ => induct null bool int real text list object v
  | .object fields => object fields fun f _ => induct null bool int real text list object f.2
termination_by sizeOf v
decreasing_by
  · have := List.sizeOf_lt_of_mem ‹v ∈ items›
    simp only [Json.list.sizeOf_spec]
    omega
  · have := List.sizeOf_lt_of_mem ‹f ∈ fields›
    obtain ⟨k, v⟩ := f
    simp only [Json.object.sizeOf_spec, Prod.mk.sizeOf_spec] at *
    omega

/-- No object of the value has a key twice. -/
inductive KeysOnce : Json → Prop
  | null : KeysOnce .null
  | bool (b : Bool) : KeysOnce (.bool b)
  | int (n : Int) : KeysOnce (.int n)
  | real (x : Real64) : KeysOnce (.real x)
  | text (s : String) : KeysOnce (.text s)
  | list {items : List Json} (h : ∀ v ∈ items, KeysOnce v) : KeysOnce (.list items)
  | object {fields : Fields} (keys : (Fields.names fields).Nodup)
      (h : ∀ f ∈ fields, KeysOnce f.2) : KeysOnce (.object fields)

def numeral? : Json → Option String
  | .int n => some (toString n)
  | .real x => some (realText x)
  | _ => none

/-- The same up to the order of fields in objects. Numbers count as the same if their texts are. -/
inductive Alike : Json → Json → Prop
  | null : Alike .null .null
  | bool (b : Bool) : Alike (.bool b) (.bool b)
  | number {v w : Json} {t : String} (hv : v.numeral? = some t) (hw : w.numeral? = some t) :
      Alike v w
  | text (s : String) : Alike (.text s) (.text s)
  | list {vs ws : List Json} (h : List.Forall₂ Alike vs ws) : Alike (.list vs) (.list ws)
  | object {fs gs hs : Fields} (keys : Fields.names fs = Fields.names gs)
      (values : List.Forall₂ Alike (fs.map (·.2)) (gs.map (·.2))) (order : gs.Perm hs) :
      Alike (.object fs) (.object hs)

/-! ### Words -/

/-- The characters that end a value inside another one. -/
def closes (c : Char) : Bool := c == ',' || c == ']' || c == '\x7d'

def Stops (r : List Char) : Prop := ∀ c ∈ r.head?, closes c

theorem stops_cons {c : Char} (h : closes c) (r : List Char) : Stops (c :: r) := by
  simpa [Stops] using h

theorem takeWhile_word {cs : List Char} (hc : ∀ c ∈ cs, closes c = false) (hr : Stops r) :
    (cs ++ r).takeWhile (fun c => !closes c) = cs :=
  Text.takeWhile_run (by simpa using hc) (by simpa [Stops] using hr)

theorem word_unique {cs ds : List Char} (hc : ∀ c ∈ cs, closes c = false)
    (hd : ∀ c ∈ ds, closes c = false) (hr : Stops r) (hs : Stops s) (h : cs ++ r = ds ++ s) :
    cs = ds ∧ r = s := by
  have hcd := takeWhile_word hc hr
  rw [h, takeWhile_word hd hs] at hcd
  subst hcd
  exact ⟨rfl, List.append_cancel_left h⟩

inductive Shape
  | null
  | bool
  | number
  | text
  | list
  | object

def shape : Json → Shape
  | .null => .null
  | .bool _ => .bool
  | .int _ => .number
  | .real _ => .number
  | .text _ => .text
  | .list _ => .list
  | .object _ => .object

/-- The shape of the value that starts with a character. -/
def announced (c : Char) : Shape :=
  match c with
  | 'n' => .null
  | 't' => .bool
  | 'f' => .bool
  | '"' => .text
  | '[' => .list
  | '\x7b' => .object
  | _ => .number

def IsNumeral (cs : List Char) : Prop :=
  (∀ c ∈ cs, closes c = false) ∧ ∃ c ds, cs = c :: ds ∧ announced c = .number

theorem isNumberChar_of_isDigit {c : Char} (h : c.isDigit) : isNumberChar c := by
  simp [isNumberChar, h]

theorem isNumberChar_of_isNumeric {c : Char} (h : Decimal.isNumeric c) : isNumberChar c := by
  simp only [Decimal.isNumeric, Bool.or_eq_true] at h
  simp only [isNumberChar, Bool.or_eq_true]
  tauto

theorem closes_of_isNumberChar {c : Char} (h : isNumberChar c) : closes c = false := by
  simp only [closes, Bool.or_eq_false_iff, beq_eq_false_iff_ne]
  refine ⟨⟨?_, ?_⟩, ?_⟩ <;> rintro rfl <;> simp [isNumberChar] at h

theorem announced_of_isDigit {c : Char} (h : c.isDigit) : announced c = .number := by
  unfold announced
  split
  iterate 6 simp at h
  rfl

theorem isNumeral_of_digit {cs : List Char} (h : ∀ c ∈ cs, isNumberChar c)
    (hd : ∃ c ds, cs = c :: ds ∧ c.isDigit) (negative : Bool) :
    IsNumeral (if negative then '-' :: cs else cs) := by
  obtain ⟨c, ds, rfl, hc⟩ := hd
  have hall (x : Char) (hx : x ∈ c :: ds) := closes_of_isNumberChar (h x hx)
  cases negative with
  | true => exact ⟨by simpa [closes] using hall, '-', _, rfl, rfl⟩
  | false => exact ⟨hall, c, ds, rfl, announced_of_isDigit hc⟩

theorem isNumberChar_of_mem_digitsOf {n : Nat} {c : Char} (h : c ∈ Decimal.digitsOf n) :
    isNumberChar c :=
  isNumberChar_of_isDigit (Decimal.isDigit_of_mem_digitsOf h)

theorem digitsOf_cons (n : Nat) : ∃ c ds, Decimal.digitsOf n = c :: ds ∧ c.isDigit := by
  obtain ⟨c, ds, hc⟩ := List.exists_cons_of_ne_nil (Decimal.digitsOf_ne_nil n)
  exact ⟨c, ds, hc, Decimal.isDigit_of_mem_digitsOf (by rw [hc]; exact List.mem_cons_self)⟩

theorem toList_toString (n : Int) : (toString n).toList =
    if n < 0 then '-' :: Decimal.digitsOf n.natAbs else Decimal.digitsOf n.natAbs := by
  have hrepr (m : Nat) : m.repr.toList = Decimal.digitsOf m := by
    rw [Nat.repr_eq_ofList_toDigits, String.toList_ofList, Decimal.digitsOf]
  cases n with
  | ofNat m => simp [Int.toString_eq_repr, Int.repr, hrepr]
  | negSucc m => simp [Int.toString_eq_repr, Int.repr, hrepr]

theorem isNumeral_int (n : Int) : IsNumeral (toString n).toList := by
  rw [toList_toString]
  simpa using isNumeral_of_digit (fun c hc => isNumberChar_of_mem_digitsOf hc)
    (digitsOf_cons n.natAbs) (decide (n < 0))

theorem isNumberChar_of_mem_exponentText {e : Int} {c : Char} (h : c ∈ Real64.exponentText e) :
    isNumberChar c := by
  simp only [Real64.exponentText, List.mem_cons] at h
  rcases h with rfl | rfl | h
  · decide
  · split <;> decide
  · split at h
    · rcases List.mem_cons.1 h with rfl | h
      · decide
      · exact isNumberChar_of_mem_digitsOf h
    · exact isNumberChar_of_mem_digitsOf h

theorem magnitudeText_digits (d : Decimal) :
    (∀ c ∈ Real64.magnitudeText d, isNumberChar c) ∧
      ∃ c ds, Real64.magnitudeText d = c :: ds ∧ c.isDigit := by
  have hpos := Decimal.positional_digits
    (fun c hc => Decimal.isDigit_of_mem_digitsOf hc) (Decimal.digitsOf_ne_nil d.coefficient)
  obtain ⟨c, ds, hds, hc⟩ := digitsOf_cons d.coefficient
  unfold Real64.magnitudeText
  simp only
  generalize (if d.isZero = true then 1
    else d.exponent + ((Decimal.digitsOf d.coefficient).length : Int)) = point
  split
  · split
    · refine ⟨fun x hx => ?_, c, _, by rw [hds, List.append_assoc]; rfl, hc⟩
      simp only [List.mem_append] at hx
      rcases hx with (hx | hx) | hx
      · exact isNumberChar_of_mem_digitsOf hx
      · exact isNumberChar_of_isDigit (Decimal.isDigit_of_mem_zeros hx)
      · fin_cases hx <;> decide
    · obtain ⟨hall, hfirst⟩ := hpos _
      exact ⟨fun x hx => isNumberChar_of_isNumeric (hall x hx), hfirst⟩
  · obtain ⟨hall, c, ds, hds, hc⟩ := hpos 1
    refine ⟨fun x hx => ?_, c, ds ++ _, by rw [hds]; rfl, hc⟩
    rcases List.mem_append.1 hx with hx | hx
    · exact isNumberChar_of_isNumeric (hall x hx)
    · exact isNumberChar_of_mem_exponentText hx

theorem isNumeral_real (x : Real64) : IsNumeral (realText x).toList := by
  cases x with
  | finite d =>
      obtain ⟨hall, hfirst⟩ := magnitudeText_digits d
      simpa [realText, Real64.text] using isNumeral_of_digit hall hfirst d.negative
  | infinity b =>
      cases b with
      | false => exact ⟨by simp [realText, closes], 'I', _, rfl, rfl⟩
      | true => exact ⟨by simp [realText, closes], '-', _, rfl, rfl⟩
  | nan => exact ⟨by simp [realText, closes], 'N', _, rfl, rfl⟩

/-- Of the values only numbers have a numeral, and it is their text. -/
theorem numeral_of_shape (h : v.shape = .number) :
    v.numeral? = some v.canonical ∧ IsNumeral v.canonical.toList := by
  cases v with
  | int n => exact ⟨by rw [numeral?, canonical], by rw [canonical]; exact isNumeral_int n⟩
  | real x => exact ⟨by rw [numeral?, canonical], by rw [canonical]; exact isNumeral_real x⟩
  | _ => cases h

/-! ### Items between brackets -/

def memberText (f : String × Json) : List Char :=
  (quoted f.1).toList ++ ':' :: f.2.canonical.toList

def byName (f g : String × Json) : Bool := decide (f.1 ≤ g.1)

theorem canonicalList_eq (vs : List Json) : canonicalList vs = vs.map canonical := by
  induction vs with
  | nil => rfl
  | cons v vs ih => rw [canonicalList, ih, List.map_cons]

theorem canonicalFields_eq (fs : Fields) :
    canonicalFields fs = fs.map fun f => (f.1, f.2.canonical) := by
  induction fs with
  | nil => rfl
  | cons f fs ih => rw [canonicalFields, ih, List.map_cons]

theorem canonical_list (vs : List Json) :
    (Json.list vs).canonical.toList =
      '[' :: ([','].intercalate (vs.map fun v => v.canonical.toList) ++ [']']) := by
  rw [canonical, canonicalList_eq]
  simp [String.toList_intercalate, Function.comp_def]

theorem canonical_object (fs : Fields) :
    (Json.object fs).canonical.toList =
      '\x7b' :: ([','].intercalate ((fs.mergeSort byName).map memberText) ++ ['\x7d']) := by
  have hsort : (canonicalFields fs).mergeSort byKey =
      (fs.mergeSort byName).map fun f => (f.1, f.2.canonical) := by
    rw [canonicalFields_eq, List.map_mergeSort]
    exact fun _ _ _ _ => rfl
  have htext (f : String × Json) :
      (quoted f.1 ++ ":" ++ f.2.canonical).toList = memberText f := by
    simp [memberText]
  rw [canonical, hsort]
  simp [String.toList_intercalate, Function.comp_def, htext]

theorem intercalate_cons (x : List Char) (xs : List (List Char)) :
    [','].intercalate (x :: xs) = x ++ xs.flatMap fun y => ',' :: y := by
  induction xs generalizing x with
  | nil => simp
  | cons y ys ih => rw [List.intercalate_cons_cons, ih]; simp

section Items

variable {α : Type} {f : α → List Char} {R : α → α → Prop} {close : Char} {as bs : List α}

/-- What may stand between brackets: items that end where a value ends. -/
def Delimited (f : α → List Char) (R : α → α → Prop) (a : α) : Prop :=
  ∀ b r s, Stops r → Stops s → f a ++ r = f b ++ s → R a b ∧ r = s

theorem stops_items (hc : closes close) (cs : List α) (t : List Char) :
    Stops ((cs.flatMap fun c => ',' :: f c) ++ close :: t) := by
  cases cs with
  | nil => exact stops_cons hc t
  | cons c cs => exact stops_cons rfl _

theorem tail_unique (hc : closes close) (hne : close ≠ ',') (h : ∀ a ∈ as, Delimited f R a)
    (he : (as.flatMap fun a => ',' :: f a) ++ close :: r =
      (bs.flatMap fun b => ',' :: f b) ++ close :: s) : List.Forall₂ R as bs ∧ r = s := by
  induction as generalizing bs with
  | nil =>
      cases bs with
      | nil => exact ⟨.nil, by simpa using he⟩
      | cons b bs => simp [hne] at he
  | cons a as ih =>
      cases bs with
      | nil => simp [hne.symm] at he
      | cons b bs =>
          simp only [List.flatMap_cons, List.cons_append, List.append_assoc, List.cons.injEq,
            true_and] at he
          obtain ⟨hab, he⟩ :=
            h a List.mem_cons_self b _ _ (stops_items hc as r) (stops_items hc bs s) he
          obtain ⟨hrest, hrs⟩ := ih (fun x hx => h x (List.mem_cons_of_mem a hx)) he
          exact ⟨.cons hab hrest, hrs⟩

theorem items_unique (hc : closes close) (hne : close ≠ ',')
    (hf : ∀ a, ∃ c cs, f a = c :: cs ∧ c ≠ close) (h : ∀ a ∈ as, Delimited f R a)
    (he : [','].intercalate (as.map f) ++ close :: r = [','].intercalate (bs.map f) ++ close :: s) :
    List.Forall₂ R as bs ∧ r = s := by
  have hcomma (cs : List α) :
      (cs.map f).flatMap (fun y => ',' :: y) = cs.flatMap fun c => ',' :: f c :=
    List.flatMap_map ..
  match as, bs with
  | [], [] => exact ⟨.nil, by simpa using he⟩
  | [], b :: bs =>
      obtain ⟨c, cs, hb, hcc⟩ := hf b
      simp [intercalate_cons, hb, hcc.symm] at he
  | a :: as, [] =>
      obtain ⟨c, cs, ha, hcc⟩ := hf a
      simp [intercalate_cons, ha, hcc] at he
  | a :: as, b :: bs =>
      simp only [List.map_cons, intercalate_cons, hcomma, List.append_assoc] at he
      obtain ⟨hab, he⟩ := h a List.mem_cons_self b _ _ (stops_items hc as r) (stops_items hc bs s) he
      obtain ⟨hrest, hrs⟩ := tail_unique hc hne (fun x hx => h x (List.mem_cons_of_mem a hx)) he
      exact ⟨.cons hab hrest, hrs⟩

end Items

theorem delimited_member (h : Delimited (fun v => v.canonical.toList) Alike v) (k : String) :
    Delimited memberText (fun f g => f.1 = g.1 ∧ f.2.Alike g.2) (k, v) := by
  intro g r s hr hs he
  simp only [memberText, List.append_assoc, List.cons_append] at he
  obtain ⟨hk, he⟩ := quoted_unique he
  obtain ⟨hv, hrs⟩ := h g.2 r s hr hs (List.cons.inj he).2
  exact ⟨⟨hk, hv⟩, hrs⟩

/-- Fields that match one by one have the same keys and matching values, and conversely. -/
theorem forall₂_fields {fs gs : Fields} :
    List.Forall₂ (fun f g => f.1 = g.1 ∧ f.2.Alike g.2) fs gs ↔
      Fields.names fs = Fields.names gs ∧ List.Forall₂ Alike (fs.map (·.2)) (gs.map (·.2)) := by
  induction fs generalizing gs with
  | nil => cases gs <;> simp [Fields.names]
  | cons f fs ih =>
      cases gs with
      | nil => simp [Fields.names]
      | cons g gs =>
          rw [List.forall₂_cons, ih]
          simp only [Fields.names, List.forall₂_cons, List.map_cons, List.cons.injEq]
          tauto

/-- Every canonical text starts with a character that announces the shape of its value. -/
theorem canonical_cons (v : Json) :
    ∃ c cs, v.canonical.toList = c :: cs ∧ announced c = v.shape ∧ closes c = false := by
  have hnumber (w : Json) (h : w.shape = .number) :
      ∃ c cs, w.canonical.toList = c :: cs ∧ announced c = w.shape ∧ closes c = false := by
    obtain ⟨-, hall, c, cs, hc, ha⟩ := numeral_of_shape h
    exact ⟨c, cs, hc, ha.trans h.symm, hall c (by rw [hc]; exact List.mem_cons_self)⟩
  cases v with
  | null => exact ⟨'n', _, by rw [canonical]; rfl, rfl, rfl⟩
  | bool b => cases b <;> exact ⟨_, _, by rw [canonical]; rfl, rfl, rfl⟩
  | int n => exact hnumber _ rfl
  | real x => exact hnumber _ rfl
  | text s => exact ⟨'"', _, by rw [canonical, quoted, String.toList_ofList]; rfl, rfl, rfl⟩
  | list vs => exact ⟨'[', _, canonical_list vs, rfl, rfl⟩
  | object fs => exact ⟨'\x7b', _, canonical_object fs, rfl, rfl⟩

theorem shape_eq (h : v.canonical.toList ++ r = w.canonical.toList ++ s) : v.shape = w.shape := by
  obtain ⟨c, cs, hv, hc, -⟩ := canonical_cons v
  obtain ⟨d, ds, hw, hd, -⟩ := canonical_cons w
  rw [hv, hw] at h
  rw [← hc, ← hd, (List.cons.inj h).1]

theorem delimited_number (hv : v.shape = .number) :
    Delimited (fun v => v.canonical.toList) Alike v := by
  intro w r s hr hs h
  obtain ⟨hv, hcv, -⟩ := numeral_of_shape hv
  obtain ⟨hw, hcw, -⟩ := numeral_of_shape (v := w) ((shape_eq h).symm.trans ‹_›)
  obtain ⟨ht, hrs⟩ := word_unique hcv hcw hr hs h
  exact ⟨.number hv (hw.trans (congrArg some (String.toList_inj.1 ht.symm))), hrs⟩

/-- Where the text of a value ends is known from the text alone, and so is the value. -/
theorem delimited (v : Json) : Delimited (fun v => v.canonical.toList) Alike v := by
  induction v using induct with
  | null =>
      intro w r s _ _ h
      have hw := shape_eq h
      cases w with
      | null => exact ⟨.null, List.append_cancel_left h⟩
      | _ => cases hw
  | bool b =>
      intro w r s _ _ h
      have hw := shape_eq h
      cases w with
      | bool b' => cases b <;> cases b' <;> simp_all [canonical, boolText, Alike.bool]
      | _ => cases hw
  | int n => exact delimited_number rfl
  | real x => exact delimited_number rfl
  | text t =>
      intro w r s _ _ h
      have hw := shape_eq h
      cases w with
      | text t' =>
          simp only [canonical] at h
          obtain ⟨rfl, hrs⟩ := quoted_unique h
          exact ⟨.text t, hrs⟩
      | _ => cases hw
  | list vs ih =>
      intro w r s _ _ h
      have hw := shape_eq h
      cases w with
      | list ws =>
          simp only [canonical_list, List.cons_append, List.append_assoc, List.cons.injEq,
            List.nil_append, true_and] at h
          have hopen (v : Json) : ∃ c cs, v.canonical.toList = c :: cs ∧ c ≠ ']' := by
            obtain ⟨c, cs, hc, -, hopen⟩ := canonical_cons v
            refine ⟨c, cs, hc, ?_⟩
            rintro rfl
            cases hopen
          obtain ⟨hvs, hrs⟩ := items_unique rfl (by decide) hopen ih h
          exact ⟨.list hvs, hrs⟩
      | _ => cases hw
  | object fs ih =>
      intro w r s _ _ h
      have hw := shape_eq h
      cases w with
      | object gs =>
          simp only [canonical_object, List.cons_append, List.append_assoc, List.cons.injEq,
            List.nil_append, true_and] at h
          have hopen (f : String × Json) : ∃ c cs, memberText f = c :: cs ∧ c ≠ '\x7d' :=
            ⟨'"', _, by rw [memberText, quoted, String.toList_ofList]; rfl, by decide⟩
          have hmem (f : String × Json) (hf : f ∈ fs.mergeSort byName) :=
            delimited_member (ih f ((List.mergeSort_perm fs byName).mem_iff.1 hf)) f.1
          obtain ⟨hfs, hrs⟩ := items_unique rfl (by decide) hopen hmem h
          obtain ⟨gs', hfs', hgs'⟩ :=
            List.perm_comp_forall₂ (List.mergeSort_perm fs byName).symm hfs
          obtain ⟨keys, values⟩ := forall₂_fields.1 hfs'
          exact ⟨.object keys values (hgs'.trans (List.mergeSort_perm gs byName)), hrs⟩
      | _ => cases hw

/-! ### The canonical text of a value -/

theorem canonical_eq_of_numeral {t : String} (h : v.numeral? = some t) : v.canonical = t := by
  cases v with
  | int n => rw [canonical]; exact Option.some.inj h
  | real x => rw [canonical]; exact Option.some.inj h
  | _ => cases h

/-- Of two lists with the same elements in the order of their names one is the other. -/
theorem mergeSort_eq_of_perm {gs hs : List (String × String)} (hp : gs.Perm hs)
    (keys : (gs.map (·.1)).Nodup) : gs.mergeSort byKey = hs.mergeSort byKey := by
  have hsorted (ms : List (String × String)) :
      (ms.mergeSort byKey).Pairwise fun a b => byKey a b = true := by
    refine List.pairwise_mergeSort ?_ ?_ ms
    · simp only [byKey, decide_eq_true_eq]
      exact fun a b c => le_trans
    · simp only [byKey, Bool.or_eq_true, decide_eq_true_eq]
      exact fun a b => le_total a.1 b.1
  have hg := List.mergeSort_perm gs byKey
  have hh := List.mergeSort_perm hs byKey
  refine List.Perm.eq_of_pairwise ?_ (hsorted gs) (hsorted hs) (hg.trans (hp.trans hh.symm))
  intro a b ha hb hab hba
  simp only [byKey, decide_eq_true_eq] at hab hba
  exact List.inj_on_of_nodup_map keys (hg.mem_iff.1 ha) (hp.mem_iff.2 (hh.mem_iff.1 hb))
    (le_antisymm hab hba)

theorem map_eq_of_forall₂ {α β : Type} {R : α → α → Prop} {f : α → β} {as bs : List α}
    (h : List.Forall₂ R as bs) (hf : ∀ a ∈ as, ∀ b, R a b → f a = f b) : as.map f = bs.map f := by
  induction h with
  | nil => rfl
  | cons hab _ ih =>
      rw [List.map_cons, List.map_cons, hf _ List.mem_cons_self _ hab,
        ih fun a ha => hf a (List.mem_cons_of_mem _ ha)]

theorem canonical_eq_of_alike (hv : v.KeysOnce) (h : v.Alike w) : v.canonical = w.canonical := by
  induction v using induct generalizing w with
  | null => cases h with
    | null => rfl
    | number hv => cases hv
  | bool b => cases h with
    | bool => rfl
    | number hv => cases hv
  | int n => cases h with
    | number hv hw => rw [canonical_eq_of_numeral hv, canonical_eq_of_numeral hw]
  | real x => cases h with
    | number hv hw => rw [canonical_eq_of_numeral hv, canonical_eq_of_numeral hw]
  | text s => cases h with
    | text => rfl
    | number hv => cases hv
  | list vs ih => cases h with
    | number hv => cases hv
    | list h =>
        cases hv with
        | list once =>
            rw [canonical, canonical, canonicalList_eq, canonicalList_eq,
              map_eq_of_forall₂ h fun v hv w hvw => ih v hv (once v hv) hvw]
  | object fs ih => cases h with
    | number hv => cases hv
    | object keys values order =>
        cases hv with
        | object once below =>
            have hfields := map_eq_of_forall₂ (f := fun f => (f.1, f.2.canonical))
              (forall₂_fields.2 ⟨keys, values⟩)
              fun f hf g hfg => Prod.ext hfg.1 (ih f hf (below f hf) hfg.2)
            have hnames : ((canonicalFields fs).map (·.1)).Nodup := by
              simpa [canonicalFields_eq, Fields.names, Function.comp_def] using once
            have hperm := order.map fun f => (f.1, f.2.canonical)
            rw [← hfields, ← canonicalFields_eq, ← canonicalFields_eq] at hperm
            rw [canonical, canonical, mergeSort_eq_of_perm hperm hnames]

theorem alike_of_canonical_eq (h : v.canonical = w.canonical) : v.Alike w := by
  have hstop : Stops [] := by simp [Stops]
  exact (delimited v w [] [] hstop hstop (by simp only [h])).1

theorem canonical_eq_iff (hv : v.KeysOnce) : v.canonical = w.canonical ↔ v.Alike w :=
  ⟨alike_of_canonical_eq, canonical_eq_of_alike hv⟩

theorem eq_of_perm_of_names {gs hs : Fields} (order : gs.Perm hs)
    (keys : Fields.names gs = Fields.names hs) (once : (Fields.names gs).Nodup) : gs = hs := by
  induction gs generalizing hs with
  | nil => exact order.nil_eq
  | cons g gs ih =>
      cases hs with
      | nil => cases keys
      | cons h hs =>
          simp only [Fields.names, List.map_cons, List.cons.injEq, List.nodup_cons] at keys once
          obtain rfl | hg := List.mem_cons.1 (order.mem_iff.1 List.mem_cons_self)
          · rw [ih order.cons_inv keys.2 once.2]
          · exact absurd (keys.2 ▸ List.mem_map_of_mem hg) once.1

/-- Objects with the same keys in the same order are alike field by field. -/
theorem alike_object_iff {fs gs : Fields} (once : (Fields.names fs).Nodup)
    (keys : Fields.names fs = Fields.names gs) :
    (Json.object fs).Alike (.object gs) ↔ List.Forall₂ Alike (fs.map (·.2)) (gs.map (·.2)) := by
  refine ⟨fun h => ?_, fun h => .object keys h (List.Perm.refl gs)⟩
  cases h with
  | number hv => cases hv
  | object keys' values order =>
      rwa [← eq_of_perm_of_names order (keys'.symm.trans keys) (keys' ▸ once)]

end Payroll.Json
