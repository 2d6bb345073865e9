import Mathlib
import Payroll.Calendar.Instant
import Payroll.Proofs.DecimalText

/-!
Dates and points in time read back from their texts.
-/

namespace Payroll

open Decimal (NoDigitAhead noDigitAhead_nil noDigitAhead_cons isDigit_of_mem_digitsOf
  isDigit_of_mem_zeros digitsValue_digitsOf digitsValue_zeros length_digitsOf_pos)

namespace Date

theorem isDigit_of_mem_padded {w n : Nat} {c : Char} (h : c ∈ padded w n) : c.isDigit := by
  rcases List.mem_append.1 h with h | h
  · exact isDigit_of_mem_zeros h
  · exact isDigit_of_mem_digitsOf h

@[simp] theorem digitsValue_padded (w n : Nat) : Decimal.digitsValue (padded w n) = n := by
  simp [padded]

theorem length_padded {w n : Nat} (hw : 0 < w) (h : n < 10 ^ w) : (padded w n).length = w := by
  have hlen : (Decimal.digitsOf n).length ≤ w := (Nat.length_toDigits_le_iff (by decide) hw).2 h
  simp only [padded, List.length_append, List.length_replicate]
  omega

theorem readDigits_padded {w n : Nat} (hw : 0 < w) (h : n < 10 ^ w) (cs : List Char) :
    readDigits w (padded w n ++ cs) = some (n, cs) := by
  have hlen := length_padded hw h
  have hall : (padded w n).all Char.isDigit = true :=
    List.all_eq_true.2 fun c hc => isDigit_of_mem_padded hc
  rw [readDigits]
  rw [List.take_left' hlen, List.drop_left' hlen]
  simp [hlen, hall]

theorem bounds (d : Date) : d.month < 10 ^ 2 ∧ d.day < 10 ^ 2 := by
  obtain ⟨y, m, k, h⟩ := d
  have : daysInMonth y m ≤ 31 := by
    simp only [daysInMonth]
    split <;> try split
    all_goals omega
  simp only
  omega

theorem of?_eq (d : Date) : of? d.year d.month d.day = some d := by
  rw [of?]
  rw [dif_pos d.valid]

theorem readFront_text {d : Date} (h : d.year ≤ 9999) (cs : List Char) :
    readFront (d.text.toList ++ cs) = some (d, cs) := by
  obtain ⟨hm, hd⟩ := d.bounds
  rw [readFront, text]
  rw [String.toList_ofList]
  simp only [List.append_assoc, List.cons_append]
  rw [readDigits_padded (by decide) (by omega)]
  simp only
  rw [readDigits_padded (by decide) hm]
  simp only
  rw [readDigits_padded (by decide) hd]
  simp [of?_eq]

/-- Dates with a year of four digits. -/
theorem ofText?_text {d : Date} (h : d.year ≤ 9999) : ofText? d.text = some d := by
  have hf := readFront_text h []
  rw [List.append_nil] at hf
  rw [ofText?, hf]

theorem lt_of_readDigits {w n : Nat} {cs rest : List Char}
    (h : readDigits w cs = some (n, rest)) : n < 10 ^ w := by
  unfold readDigits at h
  simp only at h
  split at h
  · next hds =>
    obtain ⟨hlen, hall⟩ := hds
    cases h
    have hlt := Decimal.digitsValue_lt (List.all_eq_true.1 hall)
    rwa [hlen] at hlt
  · cases h

theorem year_of?_eq {y m k : Nat} {d : Date} (h : of? y m k = some d) : d.year = y := by
  unfold of? at h
  split at h
  · cases h
    rfl
  · cases h

theorem year_le_of_readFront {cs rest : List Char} {d : Date}
    (h : readFront cs = some (d, rest)) : d.year ≤ 9999 := by
  unfold readFront at h
  split at h
  · next hy =>
    split at h
    · split at h
      · obtain ⟨d', hd, he⟩ := Option.map_eq_some_iff.1 h
        cases he
        have := lt_of_readDigits hy
        rw [year_of?_eq hd]
        omega
      · cases h
    · cases h
  · cases h

theorem year_le_of_ofText? {s : String} {d : Date} (h : ofText? s = some d) : d.year ≤ 9999 := by
  unfold ofText? at h
  split at h
  · next hd =>
    cases h
    exact year_le_of_readFront hd
  · cases h

end Date

namespace Instant

open Date

theorem of?_eq (t : Instant) : of? t.date t.hour t.minute t.second t.micro t.offset = some t := by
  rw [of?]
  rw [dif_pos t.valid]

theorem padded_cons {w n : Nat} (hw : 0 < w) (h : n < 10 ^ w) :
    ∃ c cs, padded w n = c :: cs ∧ c.isDigit := by
  obtain ⟨c, cs, hcs⟩ := List.exists_cons_of_length_pos (Nat.lt_of_lt_of_eq hw (length_padded hw h).symm)
  exact ⟨c, cs, hcs, isDigit_of_mem_padded (hcs ▸ List.mem_cons_self)⟩

/-- The fraction as written, none for whole seconds. -/
theorem readFraction_text {micro : Nat} (h : micro < 1000000) {cs : List Char}
    (hc : NoDigitAhead cs) (hp : ∀ c ∈ cs.head?, c ≠ '.' ∧ c ≠ ',') :
    readFraction ((if micro = 0 then [] else '.' :: padded 6 micro) ++ cs) = some (micro, cs) := by
  by_cases hz : micro = 0
  · subst hz
    cases cs with
    | nil => rfl
    | cons c cs =>
        obtain ⟨h1, h2⟩ := hp c rfl
        simp [readFraction, h1, h2]
  · obtain ⟨c, ds, hds, -⟩ := padded_cons (w := 6) (n := micro) (by decide) (by omega)
    have hlen := length_padded (w := 6) (n := micro) (by decide) (by omega)
    have hdigits : ∀ c ∈ padded 6 micro, c.isDigit := fun c hc => isDigit_of_mem_padded hc
    simp only [hz, if_false, List.cons_append, readFraction, true_or, if_true]
    rw [Text.takeWhile_run hdigits hc, Text.dropWhile_run hdigits hc,
      List.take_left' hlen, digitsValue_padded, if_neg (by simp [hds])]

theorem readZone_offsetText {m : Int} (h : m.natAbs < 1440) :
    readZone (offsetText m) = some (some m) := by
  have hh : m.natAbs / 60 < 10 ^ 2 := by omega
  have hm : m.natAbs % 60 < 10 ^ 2 := by omega
  have hread (c : Char) (hc : c = '+' ∨ c = '-') :
      readZone (c :: (padded 2 (m.natAbs / 60) ++ ':' :: padded 2 (m.natAbs % 60))) =
        some (some (if c = '-' then -(m.natAbs : Int) else m.natAbs)) := by
    have hz : c ≠ 'Z' ∧ c ≠ 'z' := by
      rcases hc with rfl | rfl <;> decide
    have hlast := readDigits_padded (w := 2) (by decide) hm []
    rw [List.append_nil] at hlast
    simp only [readZone]
    split
    · next he => cases he
    · next he => exact absurd (List.cons.inj he).1 hz.1
    · next he => exact absurd (List.cons.inj he).1 hz.2
    · next he =>
      cases he
      rw [if_pos hc, readDigits_padded (by decide) hh]
      simp only
      rw [hlast]
      simp only
      rw [if_pos (by omega), Nat.div_add_mod' m.natAbs 60]
  simp only [offsetText]
  split
  · next hneg =>
    rw [hread _ (.inr rfl), if_pos rfl]
    congr 2
    omega
  · next hpos =>
    rw [hread _ (.inl rfl), if_neg (by decide)]
    congr 2
    omega

/-- What stands after the clock: nothing, `Z` or a signed offset. -/
def zoneText (t : Instant) : List Char :=
  match t.offset with
  | some m => if m = 0 then ['Z'] else offsetText m
  | none => []

theorem readZone_zoneText (t : Instant) : readZone t.zoneText = some t.offset := by
  obtain ⟨-, -, -, -, -, ho⟩ := t.valid
  rw [zoneText]
  split
  · next m hm =>
    rw [hm, Option.all_some, decide_eq_true_eq] at ho
    rw [hm]
    split
    · next hz =>
      subst hz
      rfl
    · exact readZone_offsetText ho
  · next hm =>
    rw [hm]
    rfl

theorem head_zoneText (t : Instant) :
    ∀ c ∈ t.zoneText.head?, c.isDigit = false ∧ c ≠ '.' ∧ c ≠ ',' := by
  intro c hc
  unfold zoneText at hc
  split at hc
  · split at hc
    · cases hc
      decide
    · unfold offsetText at hc
      split at hc
      all_goals
        cases hc
        decide
  · cases hc

theorem readClock_text (t : Instant) :
    readClock t.date (t.clockText ++ t.zoneText) = some t := by
  obtain ⟨-, hh, hm, hs, hu, -⟩ := t.valid
  have hfraction := readFraction_text hu (fun c hc => (t.head_zoneText c hc).1)
    (fun c hc => (t.head_zoneText c hc).2)
  have hseconds : readSeconds (':' :: (padded 2 t.second ++
      ((if t.micro = 0 then [] else '.' :: padded 6 t.micro) ++ t.zoneText))) =
      some ((t.second, t.micro), t.zoneText) := by
    unfold readSeconds
    simp only
    rw [readDigits_padded (by decide) (by omega)]
    simp only
    rw [hfraction]
    rfl
  unfold readClock clockText
  simp only [List.append_assoc, List.cons_append]
  rw [readDigits_padded (by decide) (by omega)]
  simp only
  rw [readDigits_padded (by decide) (by omega)]
  simp only
  rw [hseconds]
  simp only
  rw [readZone_zoneText]
  exact t.of?_eq

theorem ofText?_text (t : Instant) : ofText? t.text = some t := by
  have htext : t.text.toList = t.date.text.toList ++ 'T' :: (t.clockText ++ t.zoneText) := by
    rw [text, textWith, String.toList_ofList]
    rfl
  rw [ofText?, htext, readFront_text t.valid.1]
  simp only
  rw [if_pos (by simp), readClock_text]

/-- Noon of a day halfway through a month. -/
def midJanuary : Instant :=
  { date := { year := 2025, month := 1, day := 15 }
    hour := 12, minute := 0, second := 0, micro := 0, offset := some 0 }

end Instant

end Payroll
