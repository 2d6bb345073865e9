import Mathlib
import Payroll.Json.Reader
import Payroll.Json.Writer

/-!
Quoted texts read back. A reader that stands behind the opening quote gets the text and stops behind
the closing one, so a quoted text says by itself where it ends.
-/

namespace Payroll.Json

theorem hexValue?_hexDigit {n : Nat} (h : n < 16) : hexValue? (hexDigit n) = some n := by
  have all : ∀ k : Fin 16, hexValue? (hexDigit k) = some k.1 := by decide
  exact all ⟨n, h⟩

theorem unit?_hexText {n : Nat} (h : n < 0x10000) (r : List Char) :
    unit? (hexText 4 n ++ r) = some (n, r) := by
  have hd (k : Nat) : hexValue? (hexDigit (k % 16)) = some (k % 16) :=
    hexValue?_hexDigit (Nat.mod_lt k (by decide))
  simp only [hexText, List.nil_append, List.cons_append, unit?, hd, Option.bind_eq_bind,
    Option.bind_some]
  change some (_, r) = _
  congr 2
  omega

theorem readText_unitEscape {n m : Nat} {c : Char} (h : n < 0x10000) (acc r r' : List Char)
    (hs : scalar n r = (c, r')) :
    readText (m + 1) acc (unitEscape n ++ r) = readText m (c :: acc) r' := by
  simp only [unitEscape, List.cons_append, readText, unit?_hexText h, hs]

/-- A code point outside the pairs is one unit. -/
theorem scalar_toNat {c : Char} (h : c.toNat < 0x10000) (r : List Char) :
    scalar c.toNat r = (c, r) := by
  have hv : c.toNat < 0xD800 ∨ (0xDFFF < c.toNat ∧ c.toNat < 0x110000) := c.valid
  unfold scalar
  rw [if_neg (by omega), if_neg (by omega), Char.ofNat_toNat]

theorem scalar_units {a b : Nat} (ha : a < 0x400) (hb : b < 0x400) (r : List Char) :
    scalar (0xD800 + a) (unitEscape (0xDC00 + b) ++ r) =
      (Char.ofNat (0x10000 + a * 0x400 + b), r) := by
  unfold scalar
  rw [if_pos (by omega)]
  simp only [unitEscape, List.cons_append, unit?_hexText (show 0xDC00 + b < 0x10000 by omega)]
  rw [if_pos (by omega), Nat.add_sub_cancel_left, Nat.add_sub_cancel_left]

theorem scalar_pair {c : Char} (h : 0x10000 ≤ c.toNat) (r : List Char) :
    scalar (0xD800 + (c.toNat - 0x10000) / 0x400)
      (unitEscape (0xDC00 + (c.toNat - 0x10000) % 0x400) ++ r) = (c, r) := by
  have hv : c.toNat < 0xD800 ∨ (0xDFFF < c.toNat ∧ c.toNat < 0x110000) := c.valid
  have hn : 0x10000 + (c.toNat - 0x10000) / 0x400 * 0x400 + (c.toNat - 0x10000) % 0x400 =
      c.toNat := by omega
  rw [scalar_units (by omega) (by omega), hn, Char.ofNat_toNat]

theorem readText_printable {c : Char} {m : Nat} (acc r : List Char) (hq : c ≠ '"') (hb : c ≠ '\\')
    (h : 32 ≤ c.toNat) : readText (m + 1) acc (c :: r) = readText m (c :: acc) r := by
  rw [readText]
  · rw [if_neg (by omega)]
  all_goals simp [hq, hb]

theorem readText_escaped (c : Char) (m : Nat) (acc r : List Char) :
    readText (m + 1) acc (escaped c ++ r) = readText m (c :: acc) r := by
  unfold escaped
  split
  iterate 7 rfl
  next hq hb _ _ _ _ _ =>
    have hv : c.toNat < 0xD800 ∨ (0xDFFF < c.toNat ∧ c.toNat < 0x110000) := c.valid
    simp only
    split
    · exact readText_unitEscape (by omega) acc r r (scalar_toNat (by omega) r)
    · split
      · exact readText_printable acc r hq hb (by omega)
      · split
        · exact readText_unitEscape (by omega) acc r r (scalar_toNat (by omega) r)
        · rw [List.append_assoc]
          exact readText_unitEscape (by omega) acc _ r (scalar_pair (by omega) r)

/-- Every character takes one unit of fuel, and the closing quote one more. -/
theorem readText_flatMap_escaped (cs acc r : List Char) {fuel : Nat} (h : cs.length < fuel) :
    readText fuel acc (cs.flatMap escaped ++ '"' :: r) =
      some (String.ofList (acc.reverse ++ cs), r) := by
  obtain ⟨m, rfl⟩ : ∃ m, fuel = m + 1 := ⟨fuel - 1, by omega⟩
  induction cs generalizing acc m with
  | nil => simp [readText]
  | cons c cs ih =>
      obtain ⟨k, rfl⟩ : ∃ k, m = k + 1 := ⟨m - 1, by simp at h; omega⟩
      rw [List.flatMap_cons, List.append_assoc, readText_escaped, ih (c :: acc) k (by simpa using h)]
      simp

theorem quoted_unique {s t : String} {r u : List Char}
    (h : (quoted s).toList ++ r = (quoted t).toList ++ u) : s = t ∧ r = u := by
  have hs := readText_flatMap_escaped s.toList [] r
    (Nat.lt_succ_of_le (Nat.le_max_left _ t.toList.length))
  have ht := readText_flatMap_escaped t.toList [] u
    (Nat.lt_succ_of_le (Nat.le_max_right s.toList.length _))
  have hbody : s.toList.flatMap escaped ++ '"' :: r = t.toList.flatMap escaped ++ '"' :: u := by
    simpa [quoted] using h
  rw [hbody, ht] at hs
  simpa [eq_comm] using hs

end Payroll.Json
