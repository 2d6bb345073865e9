import Mathlib
import Payroll.Proofs.CommandOutcomes
import Payroll.Proofs.DecimalRange
import Payroll.Proofs.TokenTexts

/-!
What is known of the arguments that a line gives: each is what its reader makes of a word, or the value that
stands in for it.
-/

namespace Payroll.Command

open Result Text

variable {α β : Type}

namespace Arguments

variable {x : Arguments (α → β)} {y : Arguments α} {n : Nat} {g : Given} {P : β → Prop}

/-- The form in which a reader of several arguments is taken apart. -/
theorem exists_of_parse {a : Arguments α} {words : List String} {v : α}
    (h : a.parse words = .accepted v) : ∃ g w, a.read 0 g = some w ∧ w = v := by
  unfold parse at h
  split at h
  · cases h
  · next g _ =>
    split_ifs at h
    split at h
    · next w hw =>
      cases h
      exact ⟨g, _, hw, rfl⟩
    · cases h

theorem exists_read_seq : (∃ b, (x <*> y).read n g = some b ∧ P b) ↔
    ∃ f, x.read n g = some f ∧ ∃ a, y.read (n + x.words.length) g = some a ∧ P (f a) := by
  have hseq : (x <*> y).read n g =
      (x.read n g).bind fun f => (y.read (n + x.words.length) g).bind fun a => some (f a) := rfl
  rw [hseq]
  cases x.read n g <;> cases y.read (n + x.words.length) g <;> simp

theorem exists_read_map {f : α → β} : (∃ b, (f <$> y).read n g = some b ∧ P b) ↔
    ∃ a, y.read n g = some a ∧ P (f a) := by
  have hmap : (f <$> y).read n g = (y.read n g).bind fun a => some (f a) := rfl
  rw [hmap]
  cases y.read n g <;> simp

end Arguments

section Readers

variable {name : String} {texts : List String} {read : String → Option α} {n : Nat} {g : Given}
  {standard a : α}

theorem exists_of_word (h : (word name read).read n g = some a) : ∃ w, read w = some a := by
  obtain ⟨w, -, hw⟩ := Option.bind_eq_some_iff.1 h
  exact ⟨w, hw⟩

theorem exists_of_option (h : (option texts read).read n g = some (some a)) :
    ∃ w, read w = some a := by
  unfold option at h
  dsimp only at h
  split at h
  · next w _ => exact ⟨w, by simpa using h⟩
  · cases h

theorem exists_of_requiredOption (h : (requiredOption texts read).read n g = some a) :
    ∃ w, read w = some a := by
  obtain ⟨w, -, hw⟩ := Option.bind_eq_some_iff.1 h
  exact ⟨w, hw⟩

theorem eq_or_exists_of_defaultedOption (h : (defaultedOption texts standard read).read n g = some a) :
    a = standard ∨ ∃ w, read w = some a := by
  have hexists : ∃ b, (defaultedOption texts standard read).read n g = some b ∧ b = a := ⟨a, h, rfl⟩
  rw [defaultedOption, Arguments.exists_read_map] at hexists
  obtain ⟨b, hb, rfl⟩ := hexists
  cases b with
  | none => exact .inl rfl
  | some a => exact .inr (exists_of_option hb)

theorem suchThat_eq_some {test : α → Bool} {s : String} :
    suchThat test read s = some a ↔ read s = some a ∧ test a = true := by
  rw [suchThat, Option.filter_eq_some_iff]

end Readers

/-! ### Integers -/

theorem foldl_digits_lt {ds : List Nat} (h : ∀ d ∈ ds, d < 10) (m : Nat) :
    ds.foldl (fun n d => 10 * n + d) m < (m + 1) * 10 ^ ds.length := by
  induction ds generalizing m with
  | nil => simp
  | cons d ds ih =>
      have hd := h d List.mem_cons_self
      calc ds.foldl (fun n d => 10 * n + d) (10 * m + d)
          < (10 * m + d + 1) * 10 ^ ds.length := ih (fun d hd => h d (List.mem_cons_of_mem _ hd)) _
        _ ≤ ((m + 1) * 10) * 10 ^ ds.length := Nat.mul_le_mul_right _ (by omega)
        _ = (m + 1) * 10 ^ (d :: ds).length := by rw [List.length_cons, pow_succ]; ring

theorem lt_ten_of_groupedDigitValues {cs : List Char} {ds : List Nat}
    (h : groupedDigitValues cs = some ds) : ∀ d ∈ ds, d < 10 := by
  induction cs using groupedDigitValues.induct generalizing ds with
  | case1 => cases h
  | case2 c =>
      obtain ⟨d, hd, rfl⟩ := Option.map_eq_some_iff.1 h
      exact fun d' hd' => List.mem_singleton.1 hd' ▸ digitValue?_lt hd
  | case3 c cs ih =>
      obtain ⟨d, hd, h⟩ := Option.bind_eq_some_iff.1 h
      obtain ⟨ds, hcs, rfl⟩ := Option.map_eq_some_iff.1 h
      exact List.forall_mem_cons.2 ⟨digitValue?_lt hd, ih hcs⟩
  | case4 c cs hlast hgrouped ih =>
      rw [groupedDigitValues] at h
      · obtain ⟨d, hd, h⟩ := Option.bind_eq_some_iff.1 h
        obtain ⟨ds, hcs, rfl⟩ := Option.map_eq_some_iff.1 h
        exact List.forall_mem_cons.2 ⟨digitValue?_lt hd, ih hcs⟩
      · exact hlast
      · exact hgrouped

theorem digits_of_integerFromText {s : String} {n : Int} (h : integerFromText s = .ok n) :
    digitCount n.natAbs ≤ Record.maxIntegerText := by
  have hpos : 0 < Record.maxIntegerText := by decide
  unfold integerFromText at h
  revert h hpos
  generalize Record.maxIntegerText = most
  intro h hpos
  dsimp only at h
  split at h
  · cases h
  · next ds hds =>
    by_cases hlength : most < ds.length
    · rw [if_pos hlength] at h
      cases h
    rw [if_neg hlength] at h
    have hsmall : ds.foldl (fun n d => 10 * n + d) 0 < pow10 most := by
      refine (foldl_digits_lt (lt_ten_of_groupedDigitValues hds) 0).trans_le ?_
      rw [Nat.zero_add, one_mul]
      exact Nat.pow_le_pow_right (by decide) (by omega)
    refine digitCount_le ?_ hpos
    rw [← Except.ok.inj h]
    split
    · rwa [Int.natAbs_neg, Int.natAbs_natCast]
    · rwa [Int.natAbs_natCast]

/-- Digits alone have no sign. -/
theorem nonneg_of_integerFromText {s : String} {n : Int} (hs : ∀ c ∈ s.toList, isDigit c)
    (h : integerFromText s = .ok n) : 0 ≤ n := by
  have hstrip : strip s.toList = s.toList :=
    strip_eq_self fun c hc => isBlank_of_isDigit (hs c hc)
  have hsign : (Decimal.readSign (strip s.toList)).1 = false := by
    rw [hstrip]
    unfold Decimal.readSign
    split
    · next cs hcs => exact absurd (hs '-' (hcs ▸ List.mem_cons_self)) (by decide)
    · rfl
    · rfl
  unfold integerFromText at h
  dsimp only at h
  split at h
  · cases h
  · next ds _ =>
    rw [hsign] at h
    split at h
    · cases h
    · rw [← Except.ok.inj h]
      exact Int.natCast_nonneg _

theorem digits_of_asInteger {s : String} {n : Int} (h : asInteger s = some n) :
    digitCount n.natAbs ≤ Record.maxIntegerText :=
  digits_of_integerFromText (ok_of_toOption h)

/-! ### Dates -/

theorem digits_of_mapM {cs : List Char} {ds : List Nat} (h : cs.mapM digitValue? = some ds) :
    ds.length = cs.length ∧ ∀ d ∈ ds, d < 10 := by
  induction cs generalizing ds with
  | nil =>
      obtain rfl := Option.some.inj h
      exact ⟨rfl, nofun⟩
  | cons c cs ih =>
      rw [List.mapM_cons] at h
      obtain ⟨d, hd, h⟩ := Option.bind_eq_some_iff.1 h
      obtain ⟨ds, hds, h⟩ := Option.bind_eq_some_iff.1 h
      obtain rfl := Option.some.inj h
      obtain ⟨hlength, hall⟩ := ih hds
      exact ⟨congrArg (· + 1) hlength, List.forall_mem_cons.2 ⟨digitValue?_lt hd, hall⟩⟩

/-- A year is written with four digits. -/
theorem year_le_of_asDate {s : String} {d : Date} (h : asDate s = some d) : d.year ≤ 9999 := by
  unfold asDate at h
  split at h
  · next y _ _ _ =>
    obtain ⟨year, hyear, h⟩ := Option.bind_eq_some_iff.1 h
    obtain ⟨month, -, h⟩ := Option.bind_eq_some_iff.1 h
    obtain ⟨day, -, h⟩ := Option.bind_eq_some_iff.1 h
    have hdate : d.year = year := by
      unfold Date.of? at h
      split at h
      · rw [← Option.some.inj h]
      · cases h
    unfold asYear at hyear
    split at hyear
    · next hlength =>
      obtain ⟨ds, hds, rfl⟩ := Option.map_eq_some_iff.1 hyear
      obtain ⟨hcount, hall⟩ := digits_of_mapM hds
      have hlt := foldl_digits_lt hall 0
      rw [hcount, hlength] at hlt
      omega
    · cases hyear
  · cases h

end Payroll.Command
