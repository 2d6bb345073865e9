import Mathlib
import Payroll.Proofs.NumberText
import Payroll.Record.Scalar

/-!
Indented texts read back. A reader that stands before the text of a value, on whatever line, gets
the value and stops behind it, so that what is stored as text is found again as it was.
-/

namespace Payroll.Json

open Decimal

variable {v : Json} {vs : List Json} {f : String × Json} {fs : Fields} {r : List Char}
  {depth fuel : Nat}

/-- Data that has a text. Numbers are finite, integers no longer than texts of integers may be, and
no object has a key twice. -/
inductive Writable : Json → Prop
  | null : Writable .null
  | bool (b : Bool) : Writable (.bool b)
  | int {n : Int} (h : digitCount n.natAbs ≤ Record.maxIntegerText) : Writable (.int n)
  | real {d : Decimal} (h : Real64.ofDecimal d = .finite d) : Writable (.real (.finite d))
  | text (s : String) : Writable (.text s)
  | list {items : List Json} (h : ∀ v ∈ items, Writable v) : Writable (.list items)
  | object {fields : Fields} (keys : (Fields.names fields).Nodup)
      (h : ∀ f ∈ fields, Writable f.2) : Writable (.object fields)

/-! ### Blanks -/

def isBlank (c : Char) : Bool := c == ' ' || c == '\n' || c == '\r' || c == '\t'

def lineStart (depth : Nat) : List Char := '\n' :: List.replicate (2 * depth) ' '

theorem isBlank_of_mem_lineStart {c : Char} (h : c ∈ lineStart depth) : isBlank c := by
  rcases List.mem_cons.1 h with rfl | h
  · rfl
  · rw [List.eq_of_mem_replicate h]
    rfl

theorem skipBlanks_cons {c : Char} (h : isBlank c = false) (cs : List Char) :
    skipBlanks (c :: cs) = c :: cs :=
  List.dropWhile_cons_of_neg (by simpa [isBlank] using h)

@[simp] theorem skipBlanks_lineStart (depth : Nat) (cs : List Char) :
    skipBlanks (lineStart depth ++ cs) = skipBlanks cs :=
  List.dropWhile_append_of_pos fun _ hc => isBlank_of_mem_lineStart hc

theorem readValue_lineStart (fuel depth : Nat) (cs : List Char) :
    readValue fuel (lineStart depth ++ cs) = readValue fuel cs := by
  cases fuel with
  | zero => rfl
  | succ fuel => rw [readValue, readValue, skipBlanks_lineStart]

theorem readItems_lineStart (fuel depth : Nat) (acc : List Json) (cs : List Char) :
    readItems fuel acc (lineStart depth ++ cs) = readItems fuel acc cs := by
  cases fuel with
  | zero => rfl
  | succ fuel => rw [readItems, readItems, readValue_lineStart]

theorem readFields_lineStart (fuel depth : Nat) (acc : Fields) (cs : List Char) :
    readFields fuel acc (lineStart depth ++ cs) = readFields fuel acc cs := by
  cases fuel with
  | zero => rfl
  | succ fuel => rw [readFields, readFields, skipBlanks_lineStart]

theorem noNumberAhead_cons {c : Char} (h : isNumberChar c = false) (cs : List Char) :
    NoNumberAhead (c :: cs) := by
  simpa [NoNumberAhead] using h

/-! ### The text of a value -/

/-- What stands behind the first item of a block: the other items, each on a line of its own, then
the bracket that closes it. -/
def following {α : Type} (text : α → List Char) (depth : Nat) (close : Char) (r : List Char) :
    List α → List Char
  | [] => lineStart depth ++ close :: r
  | a :: as => ',' :: (lineStart (depth + 1) ++ (text a ++ following text depth close r as))

theorem noNumberAhead_following {α : Type} (text : α → List Char) (depth : Nat) (close : Char)
    (r : List Char) (as : List α) : NoNumberAhead (following text depth close r as) := by
  cases as with
  | nil => exact noNumberAhead_cons rfl _
  | cons a as => exact noNumberAhead_cons rfl _

theorem length_following_cons {α : Type} (text : α → List Char) (depth : Nat) (close : Char)
    (r : List Char) (a : α) (as : List α) :
    (text a).length + (following text depth close r as).length <
      (following text depth close r (a :: as)).length := by
  simp only [following, List.length_cons, List.length_append]
  omega

theorem lt_length_following {α : Type} (text : α → List Char) (depth : Nat) (close : Char)
    (r : List Char) (as : List α) : r.length < (following text depth close r as).length := by
  induction as with
  | nil =>
      simp only [following, List.length_cons, List.length_append]
      omega
  | cons a as ih =>
      have := length_following_cons text depth close r a as
      omega

theorem intercalate_append {α : Type} (text : α → List Char) (depth : Nat) (close : Char)
    (r : List Char) (a : α) (as : List α) :
    (',' :: lineStart (depth + 1)).intercalate ((a :: as).map text) ++
      (lineStart depth ++ close :: r) = text a ++ following text depth close r as := by
  induction as generalizing a with
  | nil => simp [following]
  | cons b bs ih =>
      rw [List.map_cons, List.map_cons, List.intercalate_cons_cons, following]
      simpa using ih b

/-- A block of items that have texts. -/
theorem block_append {α : Type} (text : α → String) (opening closing : Char) (depth : Nat) (a : α)
    (as : List α) (r : List Char) :
    (block (.singleton opening) (.singleton closing) depth ((a :: as).map text)).toList ++ r =
      opening :: (lineStart (depth + 1) ++
        ((text a).toList ++ following (fun a => (text a).toList) depth closing r as)) := by
  have hitems := intercalate_append (fun a => (text a).toList) depth closing r a as
  rw [← hitems]
  simp [block, lineStart, String.toList_intercalate, Function.comp_def]

def valueText (depth : Nat) (v : Json) : List Char := (indentedAt depth v).toList

def fieldText (depth : Nat) (f : String × Json) : List Char :=
  (quoted f.1).toList ++ ':' :: ' ' :: valueText depth f.2

theorem valueText_list (depth : Nat) (v : Json) (vs : List Json) (r : List Char) :
    valueText depth (.list (v :: vs)) ++ r =
      '[' :: (lineStart (depth + 1) ++ (valueText (depth + 1) v ++
        following (valueText (depth + 1)) depth ']' r vs)) := by
  have hmap (ws : List Json) : indentedList (depth + 1) ws = ws.map (indentedAt (depth + 1)) := by
    induction ws with
    | nil => rfl
    | cons w ws ih => rw [indentedList, ih, List.map_cons]
  rw [valueText, indentedAt, hmap]
  exact block_append (indentedAt (depth + 1)) '[' ']' depth v vs r

theorem valueText_object (depth : Nat) (f : String × Json) (fs : Fields) (r : List Char) :
    valueText depth (.object (f :: fs)) ++ r =
      '\x7b' :: (lineStart (depth + 1) ++ (fieldText (depth + 1) f ++
        following (fieldText (depth + 1)) depth '\x7d' r fs)) := by
  have hmap (gs : Fields) : indentedFields (depth + 1) gs =
      gs.map fun g => quoted g.1 ++ ": " ++ indentedAt (depth + 1) g.2 := by
    induction gs with
    | nil => rfl
    | cons g gs ih => rw [indentedFields, ih, List.map_cons]
  have htext (g : String × Json) :
      (quoted g.1 ++ ": " ++ indentedAt (depth + 1) g.2).toList = fieldText (depth + 1) g := by
    simp [fieldText, valueText]
  have hblock := block_append (fun g : String × Json => quoted g.1 ++ ": " ++
    indentedAt (depth + 1) g.2) '\x7b' '\x7d' depth f fs r
  simp only [htext] at hblock
  rw [valueText, indentedAt, hmap]
  exact hblock

/-! ### Reading -/

/-- A reader that stands before the text of the value gets the value. Every character of the text
takes at most one unit of fuel. -/
def Reads (depth : Nat) (v : Json) : Prop :=
  ∀ fuel r, NoNumberAhead r → (valueText depth v).length ≤ fuel →
    readValue fuel (valueText depth v ++ r) = some (v, r)

theorem readItems_append (fuel : Nat) (r : List Char) (acc : List Json) (hv : Reads (depth + 1) v)
    (hvs : ∀ w ∈ vs, Reads (depth + 1) w)
    (hfuel : (valueText (depth + 1) v).length +
      (following (valueText (depth + 1)) depth ']' r vs).length ≤ fuel + r.length) :
    readItems fuel acc (valueText (depth + 1) v ++
      following (valueText (depth + 1)) depth ']' r vs) =
        some (.list (acc.reverse ++ v :: vs), r) := by
  have hlength := lt_length_following (valueText (depth + 1)) depth ']' r
  induction vs generalizing acc v fuel with
  | nil =>
      have := hlength []
      obtain ⟨n, rfl⟩ : ∃ n, fuel = n + 1 := ⟨fuel - 1, by omega⟩
      rw [readItems, hv n _ (noNumberAhead_following _ _ _ _ _) (by omega), following]
      simp only [skipBlanks_lineStart, skipBlanks_cons (show isBlank ']' = false by rfl)]
      rw [List.reverse_cons]
  | cons w ws ih =>
      have := hlength ws
      have := length_following_cons (valueText (depth + 1)) depth ']' r w ws
      obtain ⟨n, rfl⟩ : ∃ n, fuel = n + 1 := ⟨fuel - 1, by omega⟩
      rw [readItems, hv n _ (noNumberAhead_following _ _ _ _ _) (by omega), following]
      simp only [skipBlanks_cons (show isBlank ',' = false by rfl)]
      rw [readItems_lineStart, ih n (v :: acc) (hvs w List.mem_cons_self)
        (fun x hx => hvs x (List.mem_cons_of_mem w hx)) (by omega)]
      rw [List.reverse_cons, List.append_assoc, List.singleton_append]

theorem readText_quoted (s : String) (r : List Char) :
    ∃ rest, (quoted s).toList ++ r = '"' :: rest ∧
      readText (rest.length + 1) [] rest = some (s, r) := by
  refine ⟨s.toList.flatMap escaped ++ '"' :: r, by simp [quoted], ?_⟩
  have hescaped (c : Char) : 1 ≤ (escaped c).length := by
    unfold escaped
    split <;> first | decide | skip
    dsimp only
    split_ifs <;> simp [unitEscape]
  have hlength : s.toList.length ≤ (s.toList.flatMap escaped).length := by
    induction s.toList with
    | nil => exact Nat.zero_le _
    | cons c cs ih =>
        have := hescaped c
        rw [List.flatMap_cons, List.length_append, List.length_cons]
        omega
  have hfuel : s.toList.length < (s.toList.flatMap escaped ++ '"' :: r).length + 1 := by
    rw [List.length_append]
    omega
  simpa using readText_flatMap_escaped s.toList [] r hfuel

theorem put_eq_append {key : String} (h : key ∉ Fields.names fs) (v : Json) :
    Fields.put fs key v = fs ++ [(key, v)] := by
  induction fs with
  | nil => rfl
  | cons f fs ih =>
      rw [Fields.names, List.map_cons, List.mem_cons, not_or] at h
      rw [Fields.put, if_neg (Ne.symm h.1), ih h.2, List.cons_append]

/-- Goes on behind a field. -/
def readMoreFields (n : Nat) (acc : Fields) (r : List Char) : Option (Json × List Char) :=
  match skipBlanks r with
  | ',' :: more => readFields n acc more
  | '\x7d' :: more => some (.object acc, more)
  | _ => none

/-- The field that a reader stands before is read and put behind the others. -/
theorem readFields_field {n : Nat} (acc : Fields) (hf : Reads depth f.2)
    (hnew : f.1 ∉ Fields.names acc) (hr : NoNumberAhead r)
    (hfuel : (valueText depth f.2).length ≤ n) :
    readFields (n + 1) acc (fieldText depth f ++ r) = readMoreFields n (acc ++ [f]) r := by
  obtain ⟨rest, hrest, hread⟩ :=
    readText_quoted f.1 (':' :: ' ' :: (valueText depth f.2 ++ r))
  have htext : fieldText depth f ++ r = '"' :: rest := by
    rw [← hrest]
    simp [fieldText]
  have hblank : readValue n (' ' :: (valueText depth f.2 ++ r)) = some (f.2, r) := by
    have hskip : readValue n (' ' :: (valueText depth f.2 ++ r)) =
        readValue n (valueText depth f.2 ++ r) := by
      cases n with
      | zero => rfl
      | succ n => rw [readValue, readValue]; rfl
    rw [hskip, hf n r hr hfuel]
  rw [htext, readFields, skipBlanks_cons (show isBlank '"' = false by rfl)]
  simp only [hread, skipBlanks_cons (show isBlank ':' = false by rfl), hblank,
    put_eq_append hnew]
  rfl

theorem readFields_append (fuel : Nat) (r : List Char) (acc : Fields) (hf : Reads (depth + 1) f.2)
    (hfs : ∀ g ∈ fs, Reads (depth + 1) g.2) (keys : (Fields.names (acc ++ f :: fs)).Nodup)
    (hfuel : (fieldText (depth + 1) f).length +
      (following (fieldText (depth + 1)) depth '\x7d' r fs).length ≤ fuel + r.length) :
    readFields fuel acc (fieldText (depth + 1) f ++
      following (fieldText (depth + 1)) depth '\x7d' r fs) =
        some (.object (acc ++ f :: fs), r) := by
  have hlength := lt_length_following (fieldText (depth + 1)) depth '\x7d' r
  have hvalue (g : String × Json) :
      (valueText (depth + 1) g.2).length < (fieldText (depth + 1) g).length := by
    simp only [fieldText, List.length_append, List.length_cons]
    omega
  have hnew (acc : Fields) (f : String × Json) (fs : Fields)
      (keys : (Fields.names (acc ++ f :: fs)).Nodup) : f.1 ∉ Fields.names acc := by
    rw [Fields.names, List.map_append, List.map_cons] at keys
    exact fun hmem => List.disjoint_of_nodup_append keys hmem List.mem_cons_self
  induction fs generalizing acc f fuel with
  | nil =>
      have := hlength []
      have := hvalue f
      obtain ⟨n, rfl⟩ : ∃ n, fuel = n + 1 := ⟨fuel - 1, by omega⟩
      rw [readFields_field acc hf (hnew acc f [] keys) (noNumberAhead_following _ _ _ _ _)
        (by omega), following, readMoreFields]
      simp only [skipBlanks_lineStart, skipBlanks_cons (show isBlank '\x7d' = false by rfl)]
  | cons g gs ih =>
      have := hlength gs
      have := hvalue f
      have := length_following_cons (fieldText (depth + 1)) depth '\x7d' r g gs
      obtain ⟨n, rfl⟩ : ∃ n, fuel = n + 1 := ⟨fuel - 1, by omega⟩
      rw [readFields_field acc hf (hnew acc f _ keys) (noNumberAhead_following _ _ _ _ _)
        (by omega), following, readMoreFields]
      simp only [skipBlanks_cons (show isBlank ',' = false by rfl)]
      rw [readFields_lineStart, ih n (acc ++ [f]) (hfs g List.mem_cons_self)
        (fun x hx => hfs x (List.mem_cons_of_mem g hx)) (by simpa using keys) (by omega)]
      rw [List.append_assoc, List.singleton_append]

/-! ### Whole values -/

theorem isBlank_of_isNumberChar {c : Char} (h : isNumberChar c) : isBlank c = false := by
  simp only [isBlank, Bool.or_eq_false_iff, beq_eq_false_iff_ne]
  refine ⟨⟨⟨?_, ?_⟩, ?_⟩, ?_⟩ <;> rintro rfl <;> simp [isNumberChar] at h

theorem readValue_number {c : Char} {ds : List Char} (hc : isNumberChar c) (n : Nat) :
    readValue (n + 1) (c :: ds) = readNumber (c :: ds) := by
  rw [readValue, skipBlanks_cons (isBlank_of_isNumberChar hc)]
  split
  iterate 6
    next h =>
      cases h
      simp [isNumberChar] at hc
  rfl

theorem expect_append (word : String) (v : Json) (r : List Char) :
    expect word v (word.toList ++ r) = some (v, r) := by
  rw [expect, if_pos (List.isPrefixOf_iff_prefix.2 (List.prefix_append _ _)), ← String.length_toList,
    List.drop_left]

/-- The text starts with a character that is no blank and closes nothing. -/
def Opens (cs : List Char) : Prop := ∃ c ds, cs = c :: ds ∧ isBlank c = false ∧ closes c = false

theorem reads_of_step {c : Char} (hw : ∃ ds, valueText depth v = c :: ds)
    (hblank : isBlank c = false) (hcloses : closes c = false)
    (hstep : ∀ n r, NoNumberAhead r → (valueText depth v).length ≤ n + 1 →
      readValue (n + 1) (valueText depth v ++ r) = some (v, r)) :
    Reads depth v ∧ Opens (valueText depth v) := by
  obtain ⟨ds, hw⟩ := hw
  refine ⟨fun fuel r hr hfuel => ?_, c, ds, hw, hblank, hcloses⟩
  obtain ⟨n, rfl⟩ : ∃ n, fuel = n + 1 :=
    ⟨fuel - 1, by rw [hw, List.length_cons] at hfuel; omega⟩
  exact hstep n r hr hfuel

/-- A word is told from other values by its first letter. -/
theorem reads_word {c : Char} (word : String) (hw : valueText depth v = c :: word.toList)
    (hblank : isBlank c = false) (hcloses : closes c = false)
    (hread : ∀ n cs, readValue (n + 1) (c :: cs) = expect word v cs) :
    Reads depth v ∧ Opens (valueText depth v) :=
  reads_of_step ⟨_, hw⟩ hblank hcloses fun n r _ _ => by
    rw [hw, List.cons_append, hread, expect_append]

theorem reads_number {w : String} (hw : valueText depth v = w.toList)
    (hchars : ∀ c ∈ w.toList, isNumberChar c) (hne : w.toList ≠ [])
    (hread : ∀ r, NoNumberAhead r → readNumber (w.toList ++ r) = some (v, r)) :
    Reads depth v ∧ Opens (valueText depth v) := by
  obtain ⟨c, ds, hcs⟩ := List.exists_cons_of_ne_nil hne
  have hc := hchars c (by rw [hcs]; exact List.mem_cons_self)
  refine reads_of_step ⟨ds, hw.trans hcs⟩ (isBlank_of_isNumberChar hc) (closes_of_isNumberChar hc)
    fun n r hr _ => ?_
  rw [hw, hcs, List.cons_append, readValue_number hc, ← List.cons_append, ← hcs, hread r hr]

theorem reads_list (hvs : ∀ w ∈ vs, Reads (depth + 1) w ∧ Opens (valueText (depth + 1) w)) :
    Reads depth (.list vs) ∧ Opens (valueText depth (.list vs)) := by
  cases vs with
  | nil =>
      have htext : valueText depth (.list []) = ['[', ']'] := by
        simp [valueText, indentedAt, indentedList, block]
      refine reads_of_step ⟨_, htext⟩ rfl rfl fun n r _ _ => ?_
      rw [htext]
      rfl
  | cons v vs =>
      obtain ⟨hv, hvs⟩ := List.forall_mem_cons.1 hvs
      obtain ⟨c, ds, htext, hblank, hcloses⟩ := hv.2
      have hne : c ≠ ']' := by
        rintro rfl
        cases hcloses
      refine reads_of_step ⟨_, by rw [← List.append_nil (valueText _ _), valueText_list]⟩ rfl rfl
        fun n r _ hfuel => ?_
      have hlength := congrArg List.length (valueText_list depth v vs r)
      simp only [List.length_append, List.length_cons] at hlength
      have hitems := readItems_append n r [] hv.1 (fun w hw => (hvs w hw).1)
        (by omega)
      rw [htext, List.cons_append] at hitems
      rw [valueText_list, readValue, skipBlanks_cons (show isBlank '[' = false by rfl)]
      simp only [skipBlanks_lineStart]
      rw [htext, List.cons_append, skipBlanks_cons hblank]
      split
      · next h => exact absurd (List.cons.inj h).1 hne
      · exact hitems

theorem reads_object (keys : (Fields.names fs).Nodup) (hfs : ∀ f ∈ fs, Reads (depth + 1) f.2) :
    Reads depth (.object fs) ∧ Opens (valueText depth (.object fs)) := by
  cases fs with
  | nil =>
      have htext : valueText depth (.object []) = ['\x7b', '\x7d'] := by
        simp [valueText, indentedAt, indentedFields, block]
      refine reads_of_step ⟨_, htext⟩ rfl rfl fun n r _ _ => ?_
      rw [htext]
      rfl
  | cons f fs =>
      obtain ⟨hf, hfs⟩ := List.forall_mem_cons.1 hfs
      obtain ⟨ds, htext⟩ : ∃ ds, fieldText (depth + 1) f = '"' :: ds :=
        ⟨_, by rw [fieldText, quoted, String.toList_ofList]; rfl⟩
      refine reads_of_step ⟨_, by rw [← List.append_nil (valueText _ _), valueText_object]⟩ rfl rfl
        fun n r _ hfuel => ?_
      have hlength := congrArg List.length (valueText_object depth f fs r)
      simp only [List.length_append, List.length_cons] at hlength
      have hfields := readFields_append n r [] hf hfs keys (by omega)
      rw [htext, List.cons_append] at hfields
      rw [valueText_object, readValue, skipBlanks_cons (show isBlank '\x7b' = false by rfl)]
      simp only [skipBlanks_lineStart]
      rw [htext, List.cons_append, skipBlanks_cons (show isBlank '"' = false by rfl)]
      exact hfields

theorem readable_ofInt_of_digits {n : Int} (h : digitCount n.natAbs ≤ Record.maxIntegerText) :
    (ofInt n).readable := by
  rw [readable_iff]
  simp only [adjusted, digits, ofInt, maxReadable, minReadable]
  rw [Record.maxIntegerText] at h
  omega

/-- Any value that has a text is read from it. -/
theorem reads_of_writable (h : v.Writable) (depth : Nat) :
    Reads depth v ∧ Opens (valueText depth v) := by
  induction v using induct generalizing depth with
  | null => exact reads_word "ull" (by rw [valueText, indentedAt]; rfl) rfl rfl fun _ _ => rfl
  | bool b =>
      cases b with
      | true => exact reads_word "rue" (by rw [valueText, indentedAt]; rfl) rfl rfl fun _ _ => rfl
      | false => exact reads_word "alse" (by rw [valueText, indentedAt]; rfl) rfl rfl fun _ _ => rfl
  | int n =>
      cases h with
      | int h =>
          obtain ⟨hchars, hne⟩ := toString_chars n
          exact reads_number (by rw [valueText, indentedAt]) hchars hne
            fun r hr => readNumber_int (readable_ofInt_of_digits h) hr
  | real x =>
      cases h with
      | real h =>
          obtain ⟨hchars, hne⟩ := realText_chars _
          exact reads_number (by rw [valueText, indentedAt]) hchars hne
            fun r hr => readNumber_real h hr
  | text s =>
      have hquote : ∃ ds, valueText depth (.text s) = '"' :: ds :=
        ⟨_, by rw [valueText, indentedAt, quoted, String.toList_ofList]; rfl⟩
      refine reads_of_step hquote rfl rfl fun n r _ _ => ?_
      obtain ⟨rest, hrest, hread⟩ := readText_quoted s r
      rw [valueText, indentedAt, hrest, readValue,
        skipBlanks_cons (show isBlank '"' = false by rfl)]
      simp only [hread]
  | list vs ih =>
      cases h with
      | list h => exact reads_list fun w hw => ih w hw (h w hw) (depth + 1)
  | object fs ih =>
      cases h with
      | object keys h => exact reads_object keys fun f hf => (ih f hf (h f hf) (depth + 1)).1

/-- Whatever is stored as text is found again as it was. -/
theorem ofText?_indented (h : v.Writable) : ofText? v.indented = some v := by
  have hread := (reads_of_writable h 0).1 (2 * (valueText 0 v).length + 2) []
    (by simp [NoNumberAhead]) (by omega)
  rw [List.append_nil] at hread
  rw [ofText?]
  simp only [indented, ← valueText.eq_1, hread]
  rfl

end Payroll.Json
