import Mathlib
import Payroll.Proofs.RoundingExact
import Payroll.Proofs.TableRecords

/-!
The row of a table that a base belongs to. The lower limits of a table increase, so that the bisection
finds the row that a scan from the first row would find. The rows whose limits are on both sides of a base
are that row and, on a shared limit, the one before it.
-/

namespace Payroll

open Result

namespace Bracket

variable {α : Type} {row next : Bracket α} {b : Decimal}

/-- The next row starts above the row, and not before its end. -/
structure Precedes (row next : Bracket α) : Prop where
  above : row.lower.value < next.lower.value
  ends : ∃ upper ∈ row.upper, upper.value ≤ next.lower.value

theorem contains_iff : row.contains b = true ↔
    row.lower.value ≤ b.value ∧ ∀ upper ∈ row.upper, b.value ≤ upper.value := by
  unfold contains
  rw [Bool.and_eq_true, Decimal.le_iff]
  cases row.upper <;> simp [Decimal.le_iff]

variable [BracketTerms α]

/-- A row that has been read does not end below its start. -/
theorem lower_le_of_load {j : Json} (h : load j = .ok row) {upper : Decimal}
    (hu : upper ∈ row.upper) : row.lower.value ≤ upper.value := by
  obtain ⟨-, -, -, -, hrule⟩ := Record.record_eq_ok.1 (Record.load_eq_ok.1 h)
  unfold rule at hrule
  rw [Option.mem_def.1 hu] at hrule
  simp only [ite_eq_right_iff, reduceCtorEq, imp_false] at hrule
  exact not_lt.1 (mt Decimal.lt_iff.2 hrule)

theorem lower_nonneg_of_load {j : Json} (h : load j = .ok row) : 0 ≤ row.lower.value := by
  obtain ⟨fs, -, -, hrun, -⟩ := Record.record_eq_ok.1 (Record.load_eq_ok.1 h)
  rw [Record.FieldReader.run_eq_ok] at hrun
  unfold fieldReader at hrun
  iterate 2 rw [Record.FieldReader.exists_run_seq] at hrun
  rw [Record.FieldReader.exists_run_map] at hrun
  obtain ⟨_, hlower, _, -, _, -, rfl⟩ := hrun
  obtain ⟨_, -, hlower⟩ := Record.required_eq_ok.1 hlower
  rw [← Decimal.value_zero']
  exact Decimal.le_iff.1 (Record.bounded_eq_ok.1 hlower).2

end Bracket

namespace BracketTable

variable {α : Type} {t : BracketTable α} {row next : Bracket α} {rows : List (Bracket α)}
  {limits : List Decimal} {b : Decimal} {i j : Nat}

theorem precedes_of_issuesBetween (h : issuesBetween i row next = .ok []) : row.Precedes next := by
  unfold issuesBetween at h
  split at h
  · cases h
  · next upper hupper =>
    split at h
    · cases h
    · next habove =>
      split at h
      · cases h
      · next hends =>
        exact ⟨not_le.1 (mt Decimal.le_iff.2 habove), upper, hupper,
          not_lt.1 (mt Decimal.lt_iff.2 hends)⟩

theorem isChain_of_issuesFrom (h : issuesFrom i rows = .ok []) :
    rows.IsChain Bracket.Precedes ∧ ∀ row ∈ rows.getLast?, row.upper = none := by
  fun_induction issuesFrom i rows with
  | case1 => exact ⟨.nil, nofun⟩
  | case2 i row hupper =>
      refine ⟨.singleton _, ?_⟩
      rintro _ ⟨⟩
      exact hupper
  | case3 => cases h
  | case4 i row next rows ih =>
      obtain ⟨here, hhere, h⟩ := bind_eq_ok.1 h
      obtain ⟨after, hafter, h⟩ := bind_eq_ok.1 h
      obtain ⟨rfl, rfl⟩ := List.append_eq_nil_iff.1 (pure_eq_ok.1 h)
      obtain ⟨hchain, hlast⟩ := ih hafter
      refine ⟨.cons_cons (precedes_of_issuesBetween hhere) hchain, ?_⟩
      rwa [List.getLast?_cons_cons]

theorem chain (t : BracketTable α) :
    t.rows.IsChain Bracket.Precedes ∧ ∀ row ∈ t.rows.getLast?, row.upper = none := by
  have h := t.sound
  cases hrows : t.rows with
  | nil => exact absurd hrows t.rows_ne_nil
  | cons row rows =>
      rw [hrows] at h
      obtain ⟨rest, hrest, h⟩ := bind_eq_ok.1 h
      obtain ⟨-, rfl⟩ := List.append_eq_nil_iff.1 (pure_eq_ok.1 h)
      exact isChain_of_issuesFrom hrest

/-- The first row starts at most a cent above zero. -/
theorem first_lower_le (hrow : t.rows[0]? = some row) : row.lower.value ≤ oneCent.value := by
  have h := t.sound
  cases hrows : t.rows with
  | nil => exact absurd hrows t.rows_ne_nil
  | cons first rows =>
      rw [hrows] at h hrow
      obtain rfl : first = row := Option.some.inj hrow
      obtain ⟨rest, -, h⟩ := bind_eq_ok.1 h
      obtain ⟨hstart, -⟩ := List.append_eq_nil_iff.1 (pure_eq_ok.1 h)
      simp only [ite_eq_right_iff, reduceCtorEq, imp_false] at hstart
      exact not_lt.1 (mt Decimal.lt_iff.2 hstart)

theorem precedes (hrow : t.rows[i]? = some row) (hnext : t.rows[i + 1]? = some next) :
    row.Precedes next := by
  obtain ⟨hi, rfl⟩ := List.getElem?_eq_some_iff.1 hnext
  obtain ⟨-, rfl⟩ := List.getElem?_eq_some_iff.1 hrow
  exact List.isChain_iff_getElem.1 t.chain.1 i hi

/-- Only the last row has no end. -/
theorem exists_next (hrow : t.rows[i]? = some row) {upper : Decimal} (hu : upper ∈ row.upper) :
    ∃ next, t.rows[i + 1]? = some next := by
  by_contra hnone
  have hlength := List.getElem?_eq_none_iff.1 (Option.eq_none_iff_forall_ne_some.2
    fun next hnext => hnone ⟨next, hnext⟩)
  obtain ⟨hi, rfl⟩ := List.getElem?_eq_some_iff.1 hrow
  have hlast : t.rows.getLast? = some t.rows[i] := by
    rw [List.getLast?_eq_getElem?, List.getElem?_eq_some_iff]
    exact ⟨by omega, by congr 1; omega⟩
  rw [t.chain.2 _ hlast] at hu
  cases hu

theorem pairwise_lower (t : BracketTable α) :
    t.rows.Pairwise fun row next => row.lower.value < next.lower.value := by
  have htrans : IsTrans (Bracket α) fun row next => row.lower.value < next.lower.value :=
    ⟨fun _ _ _ => lt_trans⟩
  exact List.isChain_iff_pairwise.1 (t.chain.1.imp fun _ _ h => h.above)

theorem pairwise_lowers (t : BracketTable α) :
    t.lowers.Pairwise fun lower next => lower.value < next.value :=
  List.pairwise_map.2 t.pairwise_lower

theorem lower_lt (hrow : t.rows[i]? = some row) (hnext : t.rows[j]? = some next) (h : i < j) :
    row.lower.value < next.lower.value := by
  obtain ⟨hi, rfl⟩ := List.getElem?_eq_some_iff.1 hrow
  obtain ⟨hj, rfl⟩ := List.getElem?_eq_some_iff.1 hnext
  exact List.pairwise_iff_getElem.1 t.pairwise_lower i j hi hj h

/-- All limits before the lower bound are reached and none from the upper bound on, in every round. -/
theorem lt_bisect_iff (hsorted : limits.Pairwise fun lower next => lower.value < next.value)
    {lo hi : Nat} (h : hi ≤ limits.length) (hle : lo ≤ hi)
    (hlow : ∀ (i : Nat) (hi : i < limits.length), i < lo → limits[i].value ≤ b.value)
    (hhigh : ∀ (i : Nat) (hl : i < limits.length), hi ≤ i → b.value < limits[i].value)
    (hi' : i < limits.length) : i < bisect limits b lo hi h ↔ limits[i].value ≤ b.value := by
  have hmono {i j : Nat} (hi : i < limits.length) (hj : j < limits.length) (hij : i ≤ j) :
      limits[i].value ≤ limits[j].value := by
    rcases hij.eq_or_lt with rfl | hlt
    · exact le_rfl
    · exact (List.pairwise_iff_getElem.1 hsorted i j hi hj hlt).le
  fun_induction bisect limits b lo hi h with
  | case1 lo hi h hlt middle hbelow ih =>
      refine ih (by omega) hlow fun i hl hm => ?_
      exact (Decimal.lt_iff.1 hbelow).trans_le (hmono _ hl hm)
  | case2 lo hi h hlt middle hreached ih =>
      refine ih (by omega) (fun i hl hm => ?_) hhigh
      exact (hmono hl (by omega) (by omega)).trans (not_lt.1 (mt Decimal.lt_iff.2 hreached))
  | case3 lo hi h hlt =>
      obtain rfl : lo = hi := by omega
      exact ⟨hlow i hi', fun hreached => not_le.1 fun hge => (hhigh i hi' hge).not_ge hreached⟩

theorem lt_reached_iff (hrow : t.rows[i]? = some row) :
    i < t.reached b ↔ row.lower.value ≤ b.value := by
  obtain ⟨hi, rfl⟩ := List.getElem?_eq_some_iff.1 hrow
  have hi' : i < t.lowers.length := by rwa [lowers, List.length_map]
  have hlower : t.lowers[i] = t.rows[i].lower := List.getElem_map _
  rw [← hlower]
  exact lt_bisect_iff t.pairwise_lowers (Nat.le_refl _) (Nat.zero_le _) nofun
    (fun i hl hge => absurd hl hge.not_gt) hi'

/-- The scan stops at the first row whose lower limit is above the base. -/
theorem takeWhile_eq_take (t : BracketTable α) (b : Decimal) :
    (t.rows.takeWhile fun row => row.lower.le b) = t.rows.take (t.reached b) := by
  have hbefore : ∀ row ∈ t.rows.take (t.reached b), row.lower.le b = true := by
    intro row hrow
    obtain ⟨i, hi⟩ := List.mem_iff_getElem?.1 hrow
    rw [List.getElem?_take] at hi
    split at hi
    · next hlt => exact Decimal.le_iff.2 ((lt_reached_iff hi).1 hlt)
    · cases hi
  have hafter : ((t.rows.drop (t.reached b)).takeWhile fun row => row.lower.le b) = [] := by
    cases hrest : t.rows.drop (t.reached b) with
    | nil => rfl
    | cons row rest =>
        have hrow : t.rows[t.reached b]? = some row := by
          rw [← List.head?_drop, hrest]
          rfl
        refine List.takeWhile_cons_of_neg fun hle => ?_
        exact lt_irrefl _ ((lt_reached_iff hrow).2 (Decimal.le_iff.1 hle))
  conv_lhs => rw [← List.take_append_drop (t.reached b) t.rows]
  rw [List.takeWhile_append_of_pos hbefore, hafter, List.append_nil]

/-- The base is not below the row, unless the row is the first, and it is below the next row. -/
structure Owns (t : BracketTable α) (i : Nat) (b : ℚ) : Prop where
  inside : i < t.rows.length
  from_lower : i = 0 ∨ ∃ row ∈ t.rows[i]?, row.lower.value ≤ b
  below_next : ∀ next ∈ t.rows[i + 1]?, b < next.lower.value

theorem owns_iff (t : BracketTable α) (b : Decimal) (i : Nat) :
    t.Owns i b.value ↔ i = t.position b := by
  have hle := t.reached_le b
  have hlt := t.position_lt b
  unfold position at hlt ⊢
  constructor
  · rintro ⟨hinside, hlower, hnext⟩
    have hend : t.reached b ≤ i + 1 := by
      by_contra hlt
      have hi : i + 1 < t.rows.length := by omega
      have hrow := List.getElem?_eq_getElem hi
      exact ((lt_reached_iff hrow).1 (by omega)).not_gt (hnext _ hrow)
    rcases hlower with rfl | ⟨row, hrow, hlower⟩
    · omega
    · have := (lt_reached_iff hrow).2 hlower
      omega
  · rintro rfl
    refine ⟨hlt, ?_, fun next hnext => ?_⟩
    · rcases Nat.eq_zero_or_pos (t.reached b - 1) with hzero | hpos
      · exact .inl hzero
      · have hrow := List.getElem?_eq_getElem hlt
        exact .inr ⟨_, hrow, (lt_reached_iff hrow).1 (by omega)⟩
    · exact not_le.1 fun hreached => by
        have := (lt_reached_iff hnext).2 hreached
        omega

theorem position_mono (t : BracketTable α) {b b' : Decimal} (h : b.value ≤ b'.value) :
    t.position b ≤ t.position b' := by
  have hlt := t.position_lt b
  have hrow := List.getElem?_eq_getElem hlt
  by_contra hlater
  have hreached : t.position b < t.reached b := by
    unfold position at hlater ⊢
    omega
  have := (lt_reached_iff hrow).2 (((lt_reached_iff hrow).1 hreached).trans h)
  unfold position at hlater this
  omega

theorem getElem?_position (t : BracketTable α) (b : Decimal) :
    t.rows[t.position b]? = some (t.rowFor b) :=
  List.getElem?_eq_getElem (t.position_lt b)

/-- A base reaches its row, or it is in the first. -/
theorem lower_rowFor_le (t : BracketTable α) (b : Decimal) :
    (t.rowFor b).lower.value ≤ max b.value oneCent.value := by
  have hfound := t.getElem?_position b
  rcases ((t.owns_iff b _).2 rfl).from_lower with hzero | ⟨row, hrow, hle⟩
  · rw [hzero] at hfound
    exact (first_lower_le hfound).trans (le_max_right _ _)
  · obtain rfl : t.rowFor b = row := Option.some.inj (hfound.symm.trans hrow)
    exact hle.trans (le_max_left _ _)

theorem mem_matchingRows : i ∈ t.matchingRows b ↔ ∃ row ∈ t.rows[i]?, row.contains b = true := by
  unfold matchingRows
  simp only [List.mem_map, List.mem_filter, Prod.exists, exists_eq_right]
  refine exists_congr fun row => and_congr_left fun _ => ?_
  exact List.mem_zipIdx_iff_getElem?

theorem find_eq_ok_iff {a : Amount} {m : BracketMatch α} (ha : a.toDecimal = .ok b) :
    t.find a = .ok m ↔ 0 ≤ b.value ∧ m = ⟨t.position b, t.rowFor b, b⟩ := by
  simp only [find, ha]
  split
  · next hlt => exact ⟨nofun, fun h => absurd (Decimal.lt_zero_iff.1 hlt) h.1.not_gt⟩
  · next hge =>
    rw [Except.ok.injEq, and_iff_right (not_lt.1 (mt Decimal.lt_zero_iff.2 hge))]
    exact eq_comm

theorem exists_base_of_find {a : Amount} {m : BracketMatch α} (h : t.find a = .ok m) :
    ∃ b, a.toDecimal = .ok b ∧ 0 ≤ b.value ∧ m = ⟨t.position b, t.rowFor b, b⟩ := by
  cases ha : a.toDecimal with
  | error f =>
      simp only [find, ha] at h
      cases h
  | ok b => exact ⟨b, rfl, (find_eq_ok_iff ha).1 h⟩

/-- A base within the limits of a row before its own is their shared limit. -/
theorem shared_limit (hcontains : i ∈ t.matchingRows b) :
    i = t.position b ∨ i + 1 = t.position b ∧ b.value = (t.rowFor b).lower.value := by
  obtain ⟨row, hrow, hcontains⟩ := mem_matchingRows.1 hcontains
  obtain ⟨hlower, hupper⟩ := Bracket.contains_iff.1 hcontains
  have hreached := (lt_reached_iff hrow).2 hlower
  have hfound := t.getElem?_position b
  have hposition : t.position b = t.reached b - 1 := rfl
  rcases (show i ≤ t.position b by omega).eq_or_lt with heq | hlt
  · exact .inl heq
  · have hat := (lt_reached_iff (b := b) hfound).1 (by omega)
    have hnext : i + 1 < t.rows.length := by
      have := t.position_lt b
      omega
    obtain ⟨next, hnext⟩ : ∃ next, t.rows[i + 1]? = some next := ⟨_, List.getElem?_eq_getElem hnext⟩
    obtain ⟨upper, hu, hends⟩ := (precedes hrow hnext).ends
    have hb := (hupper upper hu).trans hends
    rcases (show i + 1 ≤ t.position b by omega).eq_or_lt with heq | hlt
    · rw [heq] at hnext
      obtain rfl : t.rowFor b = next := Option.some.inj (hfound.symm.trans hnext)
      exact .inr ⟨heq, le_antisymm hb hat⟩
    · exact absurd (hb.trans_lt (lower_lt hnext hfound hlt)) hat.not_gt

theorem nodup_matchingRows (t : BracketTable α) (b : Decimal) : (t.matchingRows b).Nodup := by
  have hsub : (t.matchingRows b).Sublist (t.rows.zipIdx.map (·.2)) := List.filter_sublist.map _
  refine hsub.nodup ?_
  rw [List.zipIdx_map_snd]
  exact List.nodup_range' 1

theorem length_matchingRows (t : BracketTable α) (b : Decimal) : (t.matchingRows b).length ≤ 2 := by
  have hsub : t.matchingRows b ⊆ [t.position b - 1, t.position b] := by
    intro i hi
    rcases shared_limit hi with rfl | ⟨heq, -⟩
    · simp
    · simp only [List.mem_cons]
      omega
  exact ((t.nodup_matchingRows b).subperm hsub).length_le

section Around

variable [BracketTerms α] (hrows : ∀ row ∈ t.rows, ∃ j, Bracket.load j = .ok row)

include hrows

theorem position_mem_matchingRows (h : t.matchingRows b ≠ []) : t.position b ∈ t.matchingRows b := by
  obtain ⟨i, hi⟩ := List.exists_mem_of_ne_nil _ h
  rcases shared_limit hi with rfl | ⟨-, heq⟩
  · exact hi
  · have hfound := t.getElem?_position b
    obtain ⟨j, hj⟩ := hrows _ (List.mem_of_getElem? hfound)
    refine mem_matchingRows.2 ⟨_, hfound, Bracket.contains_iff.2 ⟨heq.ge, fun upper hu => ?_⟩⟩
    exact heq.trans_le (Bracket.lower_le_of_load hj hu)

theorem matchingRows_eq_nil_iff : t.matchingRows b = [] ↔
    (∃ first ∈ t.rows[0]?, b.value < first.lower.value) ∨
      ∃ upper ∈ (t.rowFor b).upper, ∃ next ∈ t.rows[t.position b + 1]?,
        upper.value < b.value ∧ b.value < next.lower.value := by
  have howns := (t.owns_iff b _).2 rfl
  have hfound := t.getElem?_position b
  constructor
  · intro hnone
    have hout : ¬(t.rowFor b).contains b = true := fun hin =>
      List.not_mem_nil (hnone ▸ mem_matchingRows.2 ⟨_, hfound, hin⟩)
    rcases lt_or_ge b.value (t.rowFor b).lower.value with hbelow | hreached
    · refine .inl ⟨_, ?_, hbelow⟩
      rcases howns.from_lower with hzero | ⟨row, hrow, hle⟩
      · rwa [hzero] at hfound
      · obtain rfl : t.rowFor b = row := Option.some.inj (hfound.symm.trans hrow)
        exact absurd hle hbelow.not_ge
    · rw [Bracket.contains_iff, and_iff_right hreached] at hout
      push Not at hout
      obtain ⟨upper, hu, hlt⟩ := hout
      obtain ⟨next, hnext⟩ := exists_next hfound hu
      exact .inr ⟨upper, hu, next, hnext, hlt, howns.below_next next hnext⟩
  · intro h
    by_contra hne
    obtain ⟨row, hrow, hin⟩ := mem_matchingRows.1 (position_mem_matchingRows hrows hne)
    obtain rfl : t.rowFor b = row := Option.some.inj (hfound.symm.trans hrow)
    obtain ⟨hlower, hupper⟩ := Bracket.contains_iff.1 hin
    rcases h with ⟨first, hfirst, hlt⟩ | ⟨upper, hu, -, -, hlt, -⟩
    · have hreached := (lt_reached_iff hfound).2 hlower
      have hzero := (lt_reached_iff (b := b) hfirst).1 (by omega)
      exact hzero.not_gt hlt
    · exact (hupper upper hu).not_gt hlt

/-- Every base from zero on has exactly one row, which bisection and a scan from the first row both find.
At most two rows have the base between their limits, and the last of them is that row. There are none if
the base is below the first row, or after the end of its row and before the next one. -/
theorem find_partition {a : Amount} (ha : a.toDecimal = .ok b) (hb : 0 ≤ b.value) :
    t.lowers.Pairwise (fun lower next => lower.value < next.value) ∧
      ∃ m, t.find a = .ok m ∧
        t.rows[m.index]? = some m.row ∧ m.base = b ∧
        (∀ i, t.Owns i b.value ↔ i = m.index) ∧
        m.index = (t.rows.takeWhile fun row => row.lower.le b).length - 1 ∧
        (t.matchingRows b).length ≤ 2 ∧
        (t.matchingRows b ≠ [] → m.index ∈ t.matchingRows b ∧ ∀ i ∈ t.matchingRows b, i ≤ m.index) ∧
        (t.matchingRows b = [] ↔ (∃ first ∈ t.rows[0]?, b.value < first.lower.value) ∨
          ∃ upper ∈ m.row.upper, ∃ next ∈ t.rows[m.index + 1]?,
            upper.value < b.value ∧ b.value < next.lower.value) := by
  have hfind : t.find a = .ok ⟨t.position b, t.rowFor b, b⟩ := (find_eq_ok_iff ha).2 ⟨hb, rfl⟩
  have hscan : t.position b = (t.rows.takeWhile fun row => row.lower.le b).length - 1 := by
    rw [takeWhile_eq_take, List.length_take, min_eq_left (t.reached_le b)]
    rfl
  refine ⟨t.pairwise_lowers, _, hfind, t.getElem?_position b, rfl, t.owns_iff b, hscan,
    t.length_matchingRows b, fun hne => ⟨position_mem_matchingRows hrows hne, fun i hi => ?_⟩,
    matchingRows_eq_nil_iff hrows⟩
  rcases shared_limit hi with rfl | ⟨heq, -⟩
  · exact le_rfl
  · exact Nat.le_of_succ_le heq.le

end Around

/-- Two rows that share a limit, and one that starts a cent above the row before it. -/
def sharedLimit : BracketTable SubsidyTerms where
  name := "SUBSIDY"
  rows := [⟨0, some 100, ⟨10⟩⟩, ⟨100, some 200, ⟨5⟩⟩, ⟨200.01, none, ⟨0⟩⟩]
  sound := ok_of_toOption (by decide +kernel)

/-- The shared limit belongs to the upper row. -/
theorem sharedLimit_upper : ∃ m, sharedLimit.find (.given (.int 100)) = .ok m ∧ m.index = 1 ∧
    sharedLimit.matchingRows 100 = [0, 1] ∧ (∀ i ∈ sharedLimit.matchingRows 100, i ≤ m.index) ∧
      sharedLimit.Owns 1 (100 : Decimal).value ∧ ¬sharedLimit.Owns 0 (100 : Decimal).value := by
  have hrows : ∀ row ∈ sharedLimit.rows, ∃ j, Bracket.load j = .ok row := by
    have hload : ∀ row ∈ sharedLimit.rows, (Bracket.load row.toJson).toOption = some row := by
      decide +kernel
    exact fun row hrow => ⟨row.toJson, ok_of_toOption (hload row hrow)⟩
  have ha : (Amount.given (.int 100)).toDecimal = .ok 100 := ok_of_toOption (by decide +kernel)
  obtain ⟨-, m, hfind, -, -, howns, hscan, -, hlast, -⟩ :=
    find_partition hrows ha (Decimal.value_nonneg rfl)
  have hindex : m.index = 1 := hscan.trans (by decide +kernel)
  have hboth : sharedLimit.matchingRows 100 = [0, 1] := by decide +kernel
  refine ⟨m, hfind, hindex, hboth, (hlast (by rw [hboth]; exact List.cons_ne_nil _ _)).2,
    (howns 1).2 hindex.symm, fun h => ?_⟩
  have := (howns 0).1 h
  omega

end BracketTable

end Payroll
