import Mathlib
import Payroll.Configuration
import Payroll.Proofs.RecordFields

/-!
The tables of a year as records: whatever tables take effect, all that is written of them reads back
as it was.
-/

namespace Payroll

open Record Result

namespace RoundingMethod

theorem ofName?_name (m : RoundingMethod) : ofName? m.name = some m := by
  cases m <;> rfl

end RoundingMethod

namespace RoundingPolicy

theorem load_toJson (p : RoundingPolicy) : load p.toJson = .ok p := by
  obtain ⟨method, places, bounded⟩ := p
  have hmethod : (defaulted "method" RoundingMethod.round (choice RoundingMethod.ofName?)).run
      (toFields ⟨method, places, bounded⟩) = .ok method := by
    apply defaulted_eq_ok.2
    change choice RoundingMethod.ofName? (.text method.name) = .ok method
    simp only [choice, RoundingMethod.ofName?_name]
  have hplaces : (defaulted "precision" 2 readPlaces).run (toFields ⟨method, places, bounded⟩) =
      .ok ⟨places, Nat.lt_succ_of_le bounded⟩ := by
    apply defaulted_eq_ok.2
    change readPlaces (.int places) = .ok ⟨places, Nat.lt_succ_of_le bounded⟩
    have hread : integerAtLeast 0 (integerAtMost maxPlaces integer) (.int places) =
        .ok (places : Int) := by
      refine bounded_eq_ok.2 ⟨bounded_eq_ok.2 ⟨rfl, ?_⟩, ?_⟩
      · exact decide_eq_true (Int.ofNat_le.2 bounded)
      · exact decide_eq_true (Int.natCast_nonneg places)
    refine map_eq_ok.2 ⟨_, hread, ?_⟩
    apply Fin.ext
    exact Nat.mod_eq_of_lt (Nat.lt_succ_of_le bounded)
  refine load_eq_ok.2 (record_eq_ok.2 ⟨_, rfl, ?_, ?_, rfl⟩)
  · intro f hf
    have hn : f.1 ∈ Fields.names (toFields ⟨method, places, bounded⟩) := List.mem_map_of_mem hf
    exact hn
  · rw [FieldReader.run_eq_ok]
    rw [fieldReader]
    rw [FieldReader.exists_run_seq, FieldReader.exists_run_map]
    exact ⟨_, hmethod, _, hplaces, rfl⟩

end RoundingPolicy

namespace FiscalValues

theorem lossless_read : Lossless read toJson := by
  apply lossless_record (fun _ => rfl)
  intro fs v h
  rw [FieldReader.run_eq_ok] at h ⊢
  rw [fieldReader] at h ⊢
  iterate 8 rw [FieldReader.exists_run_seq] at h ⊢
  rw [FieldReader.exists_run_map] at h ⊢
  obtain ⟨_, h1, _, h2, _, h3, _, h4, _, h5, _, h6, _, h7, _, h8, _, h9, rfl⟩ := h
  have hamount : Lossless (above 0 decimal) .ofDecimal := lossless_bounded lossless_decimal
  have hpremium : Lossless (atLeast 0.25 (atMost 1 decimal)) .ofDecimal :=
    lossless_bounded (lossless_bounded lossless_decimal)
  exact ⟨_, required_rewritten lossless_integer h1 rfl,
    _, required_rewritten hamount h2 rfl,
    _, required_rewritten hamount h3 rfl,
    _, required_rewritten hamount h4 rfl,
    _, required_rewritten hamount h5 rfl,
    _, optional_rewritten hamount (fun _ => Json.noConfusion) h6 rfl,
    _, defaulted_rewritten (lossless_bounded lossless_integer) rfl h7 rfl,
    _, defaulted_rewritten hpremium (hpremium (.text "0.25") 0.25 (by decide +kernel)) h8 rfl,
    _, defaulted_rewritten (lossless_bounded lossless_integer) rfl h9 rfl, rfl⟩

theorem readable_of_load {j : Json} {v : FiscalValues} (h : load j = .ok v) :
    v.umaDaily.readable ∧ v.umaMonthly.readable ∧ v.smgDaily.readable := by
  obtain ⟨fs, -, -, hrun, -⟩ := record_eq_ok.1 (Record.load_eq_ok.1 h)
  rw [FieldReader.run_eq_ok] at hrun
  unfold fieldReader at hrun
  iterate 8 rw [FieldReader.exists_run_seq] at hrun
  rw [FieldReader.exists_run_map] at hrun
  obtain ⟨_, -, _, h2, _, h3, _, -, _, h5, _, -, _, -, _, -, _, -, rfl⟩ := hrun
  have hamount {name : String} {d : Decimal}
      (hr : (required name (above 0 decimal)).run fs = .ok d) : d.readable := by
    obtain ⟨i, -, hi⟩ := required_eq_ok.1 hr
    exact readable_of_decimal (bounded_eq_ok.1 hi).1
  exact ⟨hamount h2, hamount h3, hamount h5⟩

end FiscalValues

namespace ImssBase

theorem ofName?_name (b : ImssBase) : ofName? b.name = some b := by
  cases b <;> rfl

end ImssBase

namespace ImssRate

theorem lossless_read : Lossless read toJson := by
  apply lossless_record (fun _ => rfl)
  intro fs r h
  rw [FieldReader.run_eq_ok] at h ⊢
  rw [fieldReader] at h ⊢
  iterate 3 rw [FieldReader.exists_run_seq] at h ⊢
  rw [FieldReader.exists_run_map] at h ⊢
  obtain ⟨_, h1, _, h2, _, h3, _, h4, rfl⟩ := h
  have hrate : Lossless (atLeast 0 (atMost 1 decimal)) .ofDecimal :=
    lossless_bounded (lossless_bounded lossless_decimal)
  have hnone : atLeast 0 (atMost 1 decimal) (.ofDecimal 0) = .ok 0 :=
    hrate (.text "0") 0 (by decide +kernel)
  exact ⟨_, required_rewritten lossless_text h1 rfl,
    _, defaulted_rewritten hrate hnone h2 rfl,
    _, defaulted_rewritten hrate hnone h3 rfl,
    _, defaulted_rewritten (lossless_oneOf ImssBase.ofName?_name) rfl h4 rfl, rfl⟩

end ImssRate

namespace Bracket

variable {α : Type} [BracketTerms α]

/-- The terms of a row are read from among its fields as they are from their own. -/
theorem lossless_read
    (hnames : ∀ b : Bracket α, Fields.names b.toFields = (fieldReader (α := α)).names)
    (hterms : ∀ fs (b : Bracket α), BracketTerms.reader.run fs = .ok b.terms →
      BracketTerms.reader.run b.toFields = .ok b.terms) :
    Lossless (read (α := α)) toJson := by
  apply lossless_record hnames
  intro fs b h
  rw [FieldReader.run_eq_ok] at h ⊢
  rw [fieldReader] at h ⊢
  iterate 2 rw [FieldReader.exists_run_seq] at h ⊢
  rw [FieldReader.exists_run_map] at h ⊢
  obtain ⟨_, h1, _, h2, _, h3, rfl⟩ := h
  exact ⟨_, required_rewritten (lossless_bounded lossless_decimal) h1 rfl,
    _, optional_rewritten lossless_decimal (fun _ => Json.noConfusion) h2 rfl,
    _, hterms fs _ h3, rfl⟩

theorem lossless_isr : Lossless (read (α := IsrTerms)) toJson := by
  apply lossless_read (fun _ => rfl)
  rintro fs ⟨lower, upper, terms⟩ h
  rw [FieldReader.run_eq_ok] at h ⊢
  rw [BracketTerms.reader, instBracketTermsIsrTerms] at h ⊢
  simp only at h ⊢
  rw [FieldReader.exists_run_seq, FieldReader.exists_run_map] at h ⊢
  obtain ⟨_, h1, _, h2, rfl⟩ := h
  exact ⟨_, required_rewritten (lossless_bounded lossless_decimal) h1 rfl,
    _, required_rewritten (lossless_bounded (lossless_bounded lossless_decimal)) h2 rfl, rfl⟩

theorem lossless_subsidy : Lossless (read (α := SubsidyTerms)) toJson := by
  apply lossless_read (fun _ => rfl)
  rintro fs ⟨lower, upper, terms⟩ h
  rw [FieldReader.run_eq_ok] at h ⊢
  rw [BracketTerms.reader, instBracketTermsSubsidyTerms] at h ⊢
  simp only at h ⊢
  rw [FieldReader.exists_run_map] at h ⊢
  obtain ⟨_, h1, rfl⟩ := h
  exact ⟨_, required_rewritten (lossless_bounded lossless_decimal) h1 rfl, rfl⟩

theorem readable_of_load {j : Json} {b : Bracket α} (h : load j = .ok b) :
    b.lower.readable ∧ ∃ fs, BracketTerms.reader.run fs = .ok b.terms := by
  obtain ⟨fs, -, -, hrun, -⟩ := record_eq_ok.1 (Record.load_eq_ok.1 h)
  rw [FieldReader.run_eq_ok] at hrun
  unfold fieldReader at hrun
  iterate 2 rw [FieldReader.exists_run_seq] at hrun
  rw [FieldReader.exists_run_map] at hrun
  obtain ⟨_, hlower, _, -, _, hterms, rfl⟩ := hrun
  obtain ⟨i, -, hi⟩ := required_eq_ok.1 hlower
  exact ⟨readable_of_decimal (bounded_eq_ok.1 hi).1, fs, hterms⟩

theorem readable_fixedFee {j : Json} {b : IsrBracket} (h : load j = .ok b) :
    b.terms.fixedFee.readable := by
  obtain ⟨-, fs, hrun⟩ := readable_of_load h
  rw [FieldReader.run_eq_ok] at hrun
  unfold BracketTerms.reader instBracketTermsIsrTerms at hrun
  simp only at hrun
  rw [FieldReader.exists_run_seq, FieldReader.exists_run_map] at hrun
  obtain ⟨_, hfee, _, -, he⟩ := hrun
  obtain ⟨i, -, hi⟩ := required_eq_ok.1 hfee
  rw [← he]
  exact readable_of_decimal (bounded_eq_ok.1 hi).1

end Bracket

/-- All that is written of the tables reads back. -/
structure TableSet.ReadsBack (s : TableSet) : Prop where
  values : FiscalValues.load s.values.toJson = .ok s.values
  isr : ∀ t ∈ s.isr, ∀ row ∈ t.2, Bracket.load row.toJson = .ok row
  subsidy : ∀ t ∈ s.subsidy, ∀ row ∈ t.2, Bracket.load row.toJson = .ok row
  imss : ∀ r ∈ s.imss, ImssRate.load r.toJson = .ok r
  riskRates : ∀ r ∈ s.riskRates, r.2.readable

theorem TableSet.readsBack_of_load {j : Json} {s : TableSet} (h : load j = .ok s) :
    s.ReadsBack := by
  obtain ⟨fs, -, -, hrun, -⟩ := record_eq_ok.1 (Record.load_eq_ok.1 h)
  rw [FieldReader.run_eq_ok] at hrun
  iterate 5 rw [FieldReader.exists_run_seq] at hrun
  rw [FieldReader.exists_run_map] at hrun
  obtain ⟨_, -, _, hvalues, _, hisr, _, hsubsidy, _, himss, _, hrisk, rfl⟩ := hrun
  obtain ⟨jv, -, hvalues⟩ := required_eq_ok.1 hvalues
  obtain ⟨jt, -, hisr⟩ := required_eq_ok.1 hisr
  obtain ⟨ji, -, himss⟩ := required_eq_ok.1 himss
  constructor
  case values => exact Record.load_eq_ok.2 (FiscalValues.lossless_read jv _ hvalues)
  case isr =>
    intro t ht row hrow
    obtain ⟨jr, hr⟩ := exists_of_mem_mapOf hisr t ht
    obtain ⟨i, hi⟩ := exists_of_mem_listOf hr row hrow
    exact Record.load_eq_ok.2 (Bracket.lossless_isr i row hi)
  case subsidy =>
    rcases eq_or_read_of_defaulted hsubsidy with rfl | ⟨js, hs⟩
    · intro t ht
      cases ht
    · intro t ht row hrow
      obtain ⟨jr, hr⟩ := exists_of_mem_mapOf hs t ht
      obtain ⟨i, hi⟩ := exists_of_mem_listOf hr row hrow
      exact Record.load_eq_ok.2 (Bracket.lossless_subsidy i row hi)
  case imss =>
    intro r hr
    obtain ⟨i, hi⟩ := exists_of_mem_listOf himss r hr
    exact Record.load_eq_ok.2 (ImssRate.lossless_read i r hi)
  case riskRates =>
    rcases eq_or_read_of_defaulted hrisk with rfl | ⟨js, hs⟩
    · intro r hr
      cases hr
    · intro r hr
      obtain ⟨i, hi⟩ := exists_of_mem_mapOf hs r hr
      exact readable_of_decimal hi

namespace Published

-- The published tables are constants, whose texts are read here one by one.
theorem read_values : FiscalValues.read values2024.toJson = .ok values2024 ∧
    FiscalValues.read values2025.toJson = .ok values2025 := by
  decide +kernel

theorem read_isr : ∀ t ∈ tables2025.isr, ∀ row ∈ t.2, Bracket.read row.toJson = .ok row := by
  decide +kernel

theorem read_subsidy : ∀ t ∈ tables2024.subsidy ++ tables2025.subsidy, ∀ row ∈ t.2,
    Bracket.read row.toJson = .ok row := by
  decide +kernel

theorem read_imssRates : ∀ r ∈ imssRates, ImssRate.read r.toJson = .ok r := by
  decide +kernel

theorem readable_riskRates : ∀ r ∈ riskRates, r.2.readable := by
  decide +kernel

theorem readsBack_of_mem {t : Nat × TableSet} (h : t ∈ all) : t.2.ReadsBack := by
  rcases List.mem_cons.1 h with rfl | h
  · exact {
      values := Record.load_eq_ok.2 read_values.2
      isr := fun t ht row hrow => Record.load_eq_ok.2 (read_isr t ht row hrow)
      subsidy := fun t ht row hrow =>
        Record.load_eq_ok.2 (read_subsidy t (List.mem_append_right _ ht) row hrow)
      imss := fun r hr => Record.load_eq_ok.2 (read_imssRates r hr)
      riskRates := readable_riskRates }
  · cases List.mem_singleton.1 h
    exact {
      values := Record.load_eq_ok.2 read_values.1
      isr := fun t ht row hrow => Record.load_eq_ok.2 (read_isr t ht row hrow)
      subsidy := fun t ht row hrow =>
        Record.load_eq_ok.2 (read_subsidy t (List.mem_append_left _ ht) row hrow)
      imss := fun r hr => Record.load_eq_ok.2 (read_imssRates r hr)
      riskRates := readable_riskRates }

end Published

theorem TableFiles.readsBack_of_load {files : TableFiles} {directory : String} {year : Int}
    {s : TableSet} (h : files.load directory year = .ok s) : s.ReadsBack := by
  obtain ⟨years, -, h⟩ := bind_eq_ok.1 h
  simp only at h
  split at h
  · cases h
  · split at h
    · next tables hfound =>
      subst h
      obtain ⟨y, -, hy⟩ := List.exists_of_findSome?_eq_some hfound
      unfold tablesOf? at hy
      split at hy
      · exact TableSet.readsBack_of_load (Option.some.inj hy)
      · obtain ⟨t, ht, he⟩ := Option.map_eq_some_iff.1 hy
        cases he
        exact Published.readsBack_of_mem (List.mem_of_find?_eq_some ht)
    · cases h

theorem BracketTable.of?_eq_ok {α : Type} {name : String} {rows : List (Bracket α)}
    {t : BracketTable α} : of? name rows = .ok t ↔ t.name = name ∧ t.rows = rows := by
  constructor
  · intro h
    unfold of? at h
    split at h
    · cases h
      exact ⟨rfl, rfl⟩
    · cases h
    · cases h
  · rintro ⟨rfl, rfl⟩
    unfold of?
    split
    · rfl
    · next is hne hissues =>
      rw [t.sound] at hissues
      cases hissues
      exact absurd rfl hne
    · next f hissues =>
      rw [t.sound] at hissues
      cases hissues

namespace FiscalTables

theorem rows_of_soundTables {α : Type} {kind : String} {year : Int}
    {ts : List (PeriodKind × List (Bracket α))} {tables : List (PeriodKind × BracketTable α)}
    (h : soundTables kind year ts = .ok tables) : ∀ t ∈ tables, ∃ u ∈ ts, t.2.rows = u.2 := by
  induction ts generalizing tables with
  | nil =>
      cases h
      intro t ht
      cases ht
  | cons u ts ih =>
      obtain ⟨table, htable, h⟩ := bind_eq_ok.1 h
      obtain ⟨rest, hrest, h⟩ := bind_eq_ok.1 h
      cases h
      intro t ht
      rcases List.mem_cons.1 ht with rfl | ht
      · exact ⟨u, List.mem_cons_self, (BracketTable.of?_eq_ok.1 htable).2⟩
      · obtain ⟨v, hv, he⟩ := ih hrest t ht
        exact ⟨v, List.mem_cons_of_mem _ hv, he⟩

/-- All that is written of the tables, the checked ones included, reads back. -/
structure ReadsBack (t : FiscalTables) : Prop where
  published : t.published.ReadsBack
  isr : ∀ u ∈ t.isr, ∀ row ∈ u.2.rows, Bracket.load row.toJson = .ok row
  subsidy : ∀ u ∈ t.subsidy, ∀ row ∈ u.2.rows, Bracket.load row.toJson = .ok row

theorem readsBack_of_ofSet {s : TableSet} {t : FiscalTables} (hs : s.ReadsBack)
    (h : ofSet s = .ok t) : t.ReadsBack := by
  obtain ⟨isr, hisr, h⟩ := bind_eq_ok.1 h
  obtain ⟨subsidy, hsubsidy, h⟩ := bind_eq_ok.1 h
  cases h
  refine ⟨hs, ?_, ?_⟩
  · intro u hu row hrow
    obtain ⟨v, hv, he⟩ := rows_of_soundTables hisr u hu
    exact hs.isr v hv row (he ▸ hrow)
  · intro u hu row hrow
    obtain ⟨v, hv, he⟩ := rows_of_soundTables hsubsidy u hu
    exact hs.subsidy v hv row (he ▸ hrow)

variable {t : FiscalTables} {period : String}

theorem exists_of_tableFor {α : Type} {tables : List (PeriodKind × BracketTable α)}
    {table : BracketTable α} (h : tableFor tables period = some table) : ∃ u ∈ tables, u.2 = table := by
  obtain ⟨u, hu, he⟩ := Option.map_eq_some_iff.1 h
  exact ⟨u, List.mem_of_find?_eq_some hu, he⟩

theorem ReadsBack.of_isrTable (h : t.ReadsBack) {table : BracketTable IsrTerms}
    (ht : t.isrTable period = .ok table) :
    ∀ row ∈ table.rows, Bracket.load row.toJson = .ok row := by
  unfold isrTable at ht
  split at ht
  · next hfound =>
    cases ht
    obtain ⟨u, hu, rfl⟩ := exists_of_tableFor hfound
    exact h.isr u hu
  · cases ht

theorem ReadsBack.of_subsidyTable (h : t.ReadsBack) {table : BracketTable SubsidyTerms}
    (ht : t.subsidyTable period = some table) :
    ∀ row ∈ table.rows, Bracket.load row.toJson = .ok row := by
  obtain ⟨u, hu, rfl⟩ := exists_of_tableFor ht
  exact h.subsidy u hu

end FiscalTables

theorem Configuration.readsBack_of_loadTables {c : Configuration} {year : Int} {t : FiscalTables}
    (h : c.loadTables year = .ok t) : t.ReadsBack := by
  obtain ⟨s, hs, h⟩ := bind_eq_ok.1 h
  exact FiscalTables.readsBack_of_ofSet (TableFiles.readsBack_of_load hs) h

end Payroll
