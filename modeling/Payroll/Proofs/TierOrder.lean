import Mathlib
import Payroll.Proofs.RulesInEffect
import Payroll.Proofs.Timestamps

/-!
The order in which the versions of a tier are preferred. It leaves no two ids equal, so that a
resolution does not depend on the order of the rows.
-/

namespace Payroll.Version

variable {order : FormulaVersion → FormulaVersion → Ordering} {rows rows' : List FormulaVersion}
  {a b c v w : FormulaVersion} {r r' : Resolved} {d : Date} {time time' : Instant → Int}

/-! ### Preferences -/

/-- The higher version, of equal ones the later, of equally late ones the smaller id. -/
def HigherVersion (time : Instant → Int) (a b : FormulaVersion) : Prop :=
  b.version < a.version ∨ b.version = a.version ∧
    (time b.createdAt < time a.createdAt ∨ time b.createdAt = time a.createdAt ∧ a.id < b.id)

/-- A version with a start before one without, of several the one that starts later, and of those that
start together the higher version. -/
def LaterStart (time : Instant → Int) (a b : FormulaVersion) : Prop :=
  (∃ start ∈ a.validFrom, ∀ start' ∈ b.validFrom, start'.rank < start.rank) ∨
    b.validFrom = a.validFrom ∧ HigherVersion time a b

/-- The later one, of equally late ones the higher version, of equal ones the smaller id. -/
def LaterCreation (time : Instant → Int) (a b : FormulaVersion) : Prop :=
  time b.createdAt < time a.createdAt ∨ time b.createdAt = time a.createdAt ∧
    (b.version < a.version ∨ b.version = a.version ∧ a.id < b.id)

/-- A strict order that decides between any two ids. -/
structure Decides (R : FormulaVersion → FormulaVersion → Prop) : Prop where
  asymm : ∀ a b, R a b → ¬R b a
  trans : ∀ a b c, R a b → R b c → R a c
  total : ∀ a b, a.id ≠ b.id → R a b ∨ R b a

theorem Decides.of_key {α : Type} [LinearOrder α] {R : FormulaVersion → FormulaVersion → Prop}
    {key : FormulaVersion → α} (hlt : ∀ a b, R a b ↔ key a < key b)
    (hid : ∀ a b, key a = key b → a.id = b.id) : Decides R where
  asymm := by
    intro a b h h'
    exact lt_asymm ((hlt a b).1 h) ((hlt b a).1 h')
  trans := by
    intro a b c h h'
    exact (hlt a c).2 (((hlt a b).1 h).trans ((hlt b c).1 h'))
  total := by
    intro a b hne
    rw [hlt, hlt]
    exact lt_or_gt_of_ne fun he => hne (hid a b he)

def versionKey (time : Instant → Int) (v : FormulaVersion) : ℤᵒᵈ ×ₗ ℤᵒᵈ ×ₗ String :=
  toLex (.toDual v.version, toLex (.toDual (time v.createdAt), v.id))

def creationKey (time : Instant → Int) (v : FormulaVersion) : ℤᵒᵈ ×ₗ ℤᵒᵈ ×ₗ String :=
  toLex (.toDual (time v.createdAt), toLex (.toDual v.version, v.id))

theorem higherVersion_iff : HigherVersion time a b ↔ versionKey time a < versionKey time b := by
  rw [HigherVersion, @eq_comm _ b.version, @eq_comm _ (time b.createdAt)]
  simp only [versionKey, Prod.Lex.toLex_lt_toLex, OrderDual.toDual_lt_toDual, OrderDual.toDual_inj]

theorem laterCreation_iff : LaterCreation time a b ↔ creationKey time a < creationKey time b := by
  rw [LaterCreation, @eq_comm _ b.version, @eq_comm _ (time b.createdAt)]
  simp only [creationKey, Prod.Lex.toLex_lt_toLex, OrderDual.toDual_lt_toDual, OrderDual.toDual_inj]

theorem startRank_lt_iff : startRank b < startRank a ↔
    ∃ start ∈ a.validFrom, ∀ start' ∈ b.validFrom, start'.rank < start.rank := by
  have hlt (x y : Date) : x.ordinal < y.ordinal ↔ x.rank < y.rank := by
    refine ⟨fun h => ?_, Date.ordinal_lt_of_rank⟩
    rcases lt_trichotomy x.rank y.rank with hr | hr | hr
    · exact hr
    · exact absurd (congrArg Date.ordinal (Date.rank_injective hr)) h.ne
    · exact absurd (Date.ordinal_lt_of_rank hr) h.not_gt
  unfold startRank
  cases a.validFrom <;> cases b.validFrom <;> simp [hlt, Date.ordinal_pos]

theorem startRank_eq_iff : startRank b = startRank a ↔ b.validFrom = a.validFrom := by
  unfold startRank
  cases a.validFrom with
  | none => cases b.validFrom <;> simp [(Date.ordinal_pos _).ne']
  | some start =>
      cases b.validFrom with
      | none => simp [(Date.ordinal_pos _).ne]
      | some start' => simpa using ⟨Date.ordinal_injective, congrArg Date.ordinal⟩

theorem laterStart_iff : LaterStart time a b ↔
    (toLex (.toDual (startRank a), versionKey time a) : ℕᵒᵈ ×ₗ _) <
      toLex (.toDual (startRank b), versionKey time b) := by
  rw [LaterStart, higherVersion_iff, ← startRank_lt_iff, ← startRank_eq_iff,
    @eq_comm _ (startRank b)]
  simp only [Prod.Lex.toLex_lt_toLex, OrderDual.toDual_lt_toDual, OrderDual.toDual_inj]

theorem id_of_versionKey (h : versionKey time a = versionKey time b) : a.id = b.id := by
  simp only [versionKey, EmbeddingLike.apply_eq_iff_eq, Prod.mk.injEq] at h
  exact h.2.2

theorem decides_higherVersion (time : Instant → Int) : Decides (HigherVersion time) :=
  .of_key (fun _ _ => higherVersion_iff) fun _ _ => id_of_versionKey

theorem decides_laterStart (time : Instant → Int) : Decides (LaterStart time) := by
  refine .of_key (fun _ _ => laterStart_iff) fun a b h => ?_
  simp only [EmbeddingLike.apply_eq_iff_eq, Prod.mk.injEq] at h
  exact id_of_versionKey h.2

theorem decides_laterCreation (time : Instant → Int) : Decides (LaterCreation time) := by
  refine .of_key (fun _ _ => laterCreation_iff) fun a b h => ?_
  simp only [creationKey, EmbeddingLike.apply_eq_iff_eq, Prod.mk.injEq] at h
  exact h.2.2

theorem byVersion_eq_lt : byVersion a b = .lt ↔ HigherVersion Instant.timestamp a b := by
  simp [byVersion, HigherVersion, Ordering.then_eq_lt, compare_lt_iff_lt]

theorem byStart_eq_lt : byStart a b = .lt ↔ LaterStart Instant.timestamp a b := by
  rw [byStart, Ordering.then_eq_lt, compare_lt_iff_lt, compare_eq_iff_eq, byVersion_eq_lt,
    startRank_lt_iff, startRank_eq_iff, LaterStart]

theorem byCreation_eq_lt : byCreation a b = .lt ↔ LaterCreation Instant.timestamp a b := by
  simp [byCreation, LaterCreation, Ordering.then_eq_lt, compare_lt_iff_lt]

/-! ### The first version of a tier -/

/-- A version that is preferred to all others. -/
structure First (R : FormulaVersion → FormulaVersion → Prop) (rows : List FormulaVersion)
    (v : FormulaVersion) : Prop where
  mem : v ∈ rows
  before : ∀ w ∈ rows, w ≠ v → R v w

theorem First.unique {R : FormulaVersion → FormulaVersion → Prop} (hR : Decides R)
    (hv : First R rows v) (hw : First R rows w) : v = w := by
  by_contra hne
  exact hR.asymm v w (hv.before w hw.mem (Ne.symm hne)) (hw.before v hv.mem hne)

theorem First.perm {R : FormulaVersion → FormulaVersion → Prop} (h : First R rows v)
    (hp : rows.Perm rows') : First R rows' v :=
  ⟨hp.mem_iff.1 h.mem, fun w hw => h.before w (hp.mem_iff.2 hw)⟩

theorem First.congr {R R' : FormulaVersion → FormulaVersion → Prop}
    (hR : ∀ a ∈ rows, ∀ b ∈ rows, R a b → R' a b) (h : First R rows v) : First R' rows v :=
  ⟨h.mem, fun w hw hne => hR v h.mem w hw (h.before w hw hne)⟩

theorem first_of_least {R : FormulaVersion → FormulaVersion → Prop}
    (horder : ∀ a b, order a b = .lt ↔ R a b) (hR : Decides R) (hid : (rows.map (·.id)).Nodup)
    (h : least order rows = some v) : First R rows v := by
  refine ⟨mem_of_least h, ?_⟩
  induction rows generalizing v with
  | nil => cases h
  | cons u us ih =>
      obtain ⟨hu, hid⟩ := List.nodup_cons.1 hid
      simp only [least] at h
      split at h
      · next hnone =>
        cases h
        cases least_eq_none.1 hnone
        intro w hw hne
        exact absurd (List.mem_singleton.1 hw) hne
      · next l hl =>
        have htail := ih hid hl
        have hmem := mem_of_least hl
        have hne : l.id ≠ u.id := fun he => hu (List.mem_map.2 ⟨l, hmem, he⟩)
        cases h
        split
        · next hlu =>
          have hlu := (horder l u).1 (beq_iff_eq.1 hlu)
          intro w hw hwl
          rcases List.mem_cons.1 hw with rfl | hw
          · exact hlu
          · exact htail w hw hwl
        · next hlu =>
          have hul := (hR.total u l hne.symm).resolve_right fun hlu' =>
            hlu (beq_iff_eq.2 ((horder l u).2 hlu'))
          intro w hw hwu
          rcases List.mem_cons.1 hw with rfl | hw
          · exact absurd rfl hwu
          · by_cases hwl : w = l
            · exact hwl ▸ hul
            · exact hR.trans u l w hul (htail w hw hwl)

/-- What a resolution chooses: from the first tier with any version the one that is preferred. -/
inductive Chosen (time : Instant → Int) (rows : List FormulaVersion) (d : Date) : Resolved → Prop
  | fiscalYear {v : FormulaVersion} (first : First (HigherVersion time) (ofYear rows d) v) :
      Chosen time rows d ⟨v, .fiscalYear⟩
  | dateRange {v : FormulaVersion} (noYear : ofYear rows d = [])
      (first : First (LaterStart time) (ofWindow rows d) v) : Chosen time rows d ⟨v, .dateRange⟩
  | fallback {v : FormulaVersion} (noYear : ofYear rows d = []) (noWindow : ofWindow rows d = [])
      (first : First (LaterCreation time) (rows.filter (·.active)) v) :
      Chosen time rows d ⟨v, .fallback⟩

namespace Chosen

theorem unique (h : Chosen time rows d r) (h' : Chosen time rows d r') : r = r' := by
  cases h with
  | fiscalYear first =>
      cases h' with
      | fiscalYear first' => rw [first.unique (decides_higherVersion time) first']
      | dateRange noYear => exact absurd first.mem (noYear ▸ List.not_mem_nil)
      | fallback noYear => exact absurd first.mem (noYear ▸ List.not_mem_nil)
  | dateRange noYear first =>
      cases h' with
      | fiscalYear first' => exact absurd first'.mem (noYear ▸ List.not_mem_nil)
      | dateRange _ first' => rw [first.unique (decides_laterStart time) first']
      | fallback _ noWindow => exact absurd first.mem (noWindow ▸ List.not_mem_nil)
  | fallback noYear noWindow first =>
      cases h' with
      | fiscalYear first' => exact absurd first'.mem (noYear ▸ List.not_mem_nil)
      | dateRange _ first' => exact absurd first'.mem (noWindow ▸ List.not_mem_nil)
      | fallback _ _ first' => rw [first.unique (decides_laterCreation time) first']

theorem perm (h : Chosen time rows d r) (hp : rows.Perm rows') : Chosen time rows' d r := by
  have hactive := hp.filter (·.active)
  have hyear : (ofYear rows d).Perm (ofYear rows' d) := hactive.filter _
  have hwindow : (ofWindow rows d).Perm (ofWindow rows' d) := hactive.filter _
  cases h with
  | fiscalYear first => exact .fiscalYear (first.perm hyear)
  | dateRange noYear first =>
      exact .dateRange (List.perm_nil.1 (noYear ▸ hyear.symm)) (first.perm hwindow)
  | fallback noYear noWindow first =>
      exact .fallback (List.perm_nil.1 (noYear ▸ hyear.symm))
        (List.perm_nil.1 (noWindow ▸ hwindow.symm)) (first.perm hactive)

/-- Clocks that order the active versions alike lead to the same choice. -/
theorem congr (ht : ∀ a ∈ rows.filter (·.active), ∀ b ∈ rows.filter (·.active),
      (time b.createdAt < time a.createdAt ↔ time' b.createdAt < time' a.createdAt) ∧
        (time b.createdAt = time a.createdAt ↔ time' b.createdAt = time' a.createdAt))
    (h : Chosen time rows d r) : Chosen time' rows d r := by
  have hversion {a b : FormulaVersion} (ha : a ∈ rows.filter (·.active))
      (hb : b ∈ rows.filter (·.active)) (h : HigherVersion time a b) : HigherVersion time' a b := by
    obtain ⟨hlt, heq⟩ := ht a ha b hb
    rwa [HigherVersion, hlt, heq] at h
  cases h with
  | fiscalYear first =>
      refine .fiscalYear (first.congr fun a ha b hb => ?_)
      exact hversion (List.mem_of_mem_filter ha) (List.mem_of_mem_filter hb)
  | dateRange noYear first =>
      refine .dateRange noYear (first.congr fun a ha b hb h => ?_)
      exact h.imp_right (And.imp_right
        (hversion (List.mem_of_mem_filter ha) (List.mem_of_mem_filter hb)))
  | fallback noYear noWindow first =>
      refine .fallback noYear noWindow (first.congr fun a ha b hb h => ?_)
      obtain ⟨hlt, heq⟩ := ht a ha b hb
      rwa [LaterCreation, hlt, heq] at h

end Chosen

theorem chosen_of_resolve (hid : (rows.map (·.id)).Nodup) (h : resolve rows d = some r) :
    Chosen Instant.timestamp rows d r := by
  have hactive : ((rows.filter (·.active)).map (·.id)).Nodup :=
    hid.sublist (List.filter_sublist.map _)
  have htier (p : FormulaVersion → Bool) :
      (((rows.filter (·.active)).filter p).map (·.id)).Nodup :=
    hactive.sublist (List.filter_sublist.map _)
  obtain ⟨v, tier⟩ := r
  rcases resolve_cases h with ⟨rfl, hv⟩ | ⟨rfl, hyear, hv⟩ | ⟨rfl, hyear, hwindow, hv⟩
  · exact .fiscalYear (first_of_least (fun _ _ => byVersion_eq_lt) (decides_higherVersion _)
      (htier _) hv)
  · exact .dateRange hyear (first_of_least (fun _ _ => byStart_eq_lt) (decides_laterStart _)
      (htier _) hv)
  · exact .fallback hyear hwindow (first_of_least (fun _ _ => byCreation_eq_lt)
      (decides_laterCreation _) hactive hv)

theorem Chosen.exists_active (h : Chosen time rows d r) : ∃ v ∈ rows, v.active = true := by
  cases h with
  | fiscalYear first => exact ⟨_, (mem_ofYear.1 first.mem).imp_right And.left⟩
  | dateRange _ first => exact ⟨_, (mem_ofWindow.1 first.mem).imp_right And.left⟩
  | fallback _ _ first => exact ⟨_, List.mem_filter.1 first.mem⟩

theorem resolve_eq_none : resolve rows d = none ↔ ∀ v ∈ rows, v.active = false := by
  rw [← Option.not_isSome_iff_eq_none, isSome_resolve]
  simp

theorem resolve_eq_some_iff (hid : (rows.map (·.id)).Nodup) :
    resolve rows d = some r ↔ Chosen Instant.timestamp rows d r := by
  refine ⟨chosen_of_resolve hid, fun h => ?_⟩
  cases hr : resolve rows d with
  | none =>
      obtain ⟨v, hv, ha⟩ := h.exists_active
      rw [resolve_eq_none.1 hr v hv] at ha
      cases ha
  | some r' => rw [(chosen_of_resolve hid hr).unique h]

theorem resolve_perm (hid : (rows.map (·.id)).Nodup) (hp : rows'.Perm rows) :
    resolve rows' d = resolve rows d := by
  have hid' : (rows'.map (·.id)).Nodup := (hp.map _).nodup_iff.2 hid
  apply Option.ext
  intro r
  rw [resolve_eq_some_iff hid, resolve_eq_some_iff hid']
  exact ⟨fun h => h.perm hp, fun h => h.perm hp.symm⟩

/-- A resolution chooses by tier and preference, whatever the order of the rows. Times count by their
timestamps, and exactly for versions that were created within some centuries of 1970. -/
theorem resolve_chosen (hid : (rows.map (·.id)).Nodup) (d : Date) :
    (resolve rows d = none ↔ ∀ v ∈ rows, v.active = false) ∧
    (∀ r, resolve rows d = some r ↔ Chosen Instant.timestamp rows d r) ∧
    (∀ rows', rows'.Perm rows → resolve rows' d = resolve rows d) ∧
    ((∀ v ∈ rows, v.active = true → v.createdAt.Near) →
      ∀ r, resolve rows d = some r ↔ Chosen Instant.micros rows d r) := by
  refine ⟨resolve_eq_none, fun r => resolve_eq_some_iff hid, fun rows' => resolve_perm hid, ?_⟩
  intro hnear r
  rw [resolve_eq_some_iff hid]
  have hn {v : FormulaVersion} (hv : v ∈ rows.filter (·.active)) : v.createdAt.Near :=
    hnear v (List.mem_filter.1 hv).1 (List.mem_filter.1 hv).2
  constructor <;> refine Chosen.congr fun a ha b hb => ?_
  · exact ⟨(hn hb).timestamp_lt_iff (hn ha), (hn hb).timestamp_eq_iff (hn ha)⟩
  · exact ⟨((hn hb).timestamp_lt_iff (hn ha)).symm, ((hn hb).timestamp_eq_iff (hn ha)).symm⟩

/-- Two bonuses for the last day. -/
def bonusesOf (t t' : Instant) : List FormulaVersion :=
  [{ FormulaStore.bonus with id := "f1", createdAt := t, validFrom := some .latest },
    { FormulaStore.bonus with id := "f2", createdAt := t', validFrom := some .latest }]

/-- A microsecond between them decides in this century, but not in the last second there is. -/
theorem bonuses_chosen :
    let now : Instant := { Instant.midJanuary with micro := 1, valid := by decide }
    let last : Instant := { Instant.latest with micro := 1, valid := by decide }
    let day : Date := { year := 2025, month := 1, day := 1 }
    (∀ t t', ((bonusesOf t t').map (·.id)).Nodup) ∧
    (∀ v ∈ bonusesOf .midJanuary now, v.active = true → v.createdAt.Near) ∧
    Chosen Instant.micros (bonusesOf .midJanuary now) day
      ⟨{ FormulaStore.bonus with id := "f2", createdAt := now, validFrom := some .latest },
        .fallback⟩ ∧
    Instant.latest.micros < last.micros ∧
    Chosen Instant.timestamp (bonusesOf .latest last) day
      ⟨{ FormulaStore.bonus with id := "f1", createdAt := .latest, validFrom := some .latest },
        .fallback⟩ := by
  intro now last day
  have hid (t t' : Instant) : ((bonusesOf t t').map (·.id)).Nodup := by simp [bonusesOf]
  have hnear : ∀ v ∈ bonusesOf .midJanuary now, v.active = true → v.createdAt.Near := by decide
  refine ⟨hid, hnear, ?_, by decide, ?_⟩
  · exact ((resolve_chosen (hid _ _) day).2.2.2 hnear _).1 (by decide +kernel)
  · exact ((resolve_chosen (hid _ _) day).2.1 _).1 (by decide +kernel)

end Payroll.Version
