import Mathlib
import Payroll.Proofs.CommandOutcomes
import Payroll.Proofs.CommandStates
import Payroll.Proofs.TypedArguments
import Payroll.Proofs.UnexplainedFaults

/-!
How the commands for the configuration end. The configuration that they leave behind is a written one.
-/

namespace Payroll

open Result

namespace Command.Settings

variable {i : Installation} {F : Fault → Prop} {o : Occasion} {words : List String}

theorem path_ends (h : i.Kept) : Ends Installation.Kept F i (path.run o words) := by
  refine ends_taking h fun _ _ =>
    Looks.ends (Q := fun _ => True) ?_ h
  refine looks_config.bind fun c _ => looks_get.bind fun s hs => (looks_sayAll _).bind fun _ _ => ?_
  subst hs
  obtain ⟨p, hp⟩ := Installation.exists_dataPath h.config
  exact (looks_expecting (Q := fun _ => True) (hp ▸ trivial)).bind fun _ _ => looks_say _

theorem show_ends (h : i.Kept) :
    Ends Installation.Kept (Unexplained i.config words "config" "show") i («show».run o words) := by
  refine ends_taking h fun (company, asJson) hl => Looks.ends (Q := fun _ => True) ?_ h
  have hall : Looks i (Unexplained i.config words "config" "show") (showAll asJson) fun _ => True := by
    refine looks_config.bind fun c hc => ?_
    subst hc
    have hyears : i.config.years = .ok (TableFiles.descending (Published.all.map (·.1))) := by
      rw [Configuration.years, h.config.tableFiles]
      rfl
    refine (looks_expecting (Q := fun _ => True) (hyears ▸ trivial)).bind fun _ _ => ?_
    exact .ite (fun _ => looks_say _) fun _ => looks_sayAll _
  have hcompany (id : String) (hl : showArguments.parse words = .accepted (some id, asJson)) :
      Looks i (Unexplained i.config words "config" "show") (showCompany id asJson) fun _ => True := by
    refine looks_config.bind fun c hc => ?_
    subst hc
    refine (looks_expecting ((Configuration.roundingPolicy_fails h.config id).mono
      fun f hf => .rounding (.configuration hl) (by simp) hf).endsIn).bind fun p _ => ?_
    refine (looks_expecting (Q := fun _ => True)
      (Configuration.company_eq h.config.sectioned id ▸ trivial)).bind fun own _ => ?_
    exact .ite (fun _ => looks_say _) fun _ => looks_sayAll _
  dsimp only
  split
  · exact hall
  · exact hall
  · exact hcompany _ hl

theorem withRounding_written {c : Configuration} (h : c.Written) (id : String)
    (method : Option RoundingMethod) {places : Option Int}
    (hplaces : ∀ n ∈ places, isPlaces n = true) : (withRounding c id method places).Written := by
  have hmethod : (withRounding c id method none).Written := by
    cases method with
    | none => exact h
    | some m => exact h.setProfileValue id (by decide) (fun _ => ⟨m, rfl⟩) (absurd · (by decide))
  cases places with
  | none => exact hmethod
  | some n =>
      refine hmethod.setProfileValue id (by decide) (absurd · (by decide))
        fun _ => ⟨n.toNat, ?_, ?_⟩
      all_goals
        have hn := hplaces n rfl
        simp only [isPlaces, Bool.and_eq_true, decide_eq_true_eq] at hn
      · omega
      · rw [Int.toNat_of_nonneg hn.1]

theorem setRounding_ends (h : i.Kept) :
    Ends Installation.Kept (Unexplained i.config words "config" "set-rounding") i
      (setRounding.run o words) := by
  refine ends_taking h fun (id, method, places) hl => ?_
  have hplaces : ∀ n ∈ places, isPlaces n = true := by
    rintro n rfl
    obtain ⟨g, hread⟩ := Arguments.exists_of_parse hl
    unfold roundingArguments at hread
    iterate 2 rw [Arguments.exists_read_seq] at hread
    rw [Arguments.exists_read_map] at hread
    obtain ⟨_, -, _, -, places, hplaces, he⟩ := hread
    simp only [Prod.mk.injEq] at he
    obtain ⟨-, -, rfl⟩ := he
    obtain ⟨w, hw⟩ := exists_of_option hplaces
    exact (suchThat_eq_some.1 hw).2
  have hwritten := withRounding_written h.config id method hplaces
  refine Ends.refusing h (looks_refuse _) fun _ => ?_
  refine looks_config.endsBind h fun c hc => ?_
  subst hc
  refine ends_setConfig (Looks.ends (Q := fun _ => True) ?_ (h.setConfig hwritten))
  refine (looks_expecting ((Configuration.roundingPolicy_fails hwritten id).mono
    fun f hf => .roundingSet hl hf).endsIn).bind fun p _ => looks_sayAll _

theorem setRiskClass_ends (h : i.Kept) : Ends Installation.Kept F i (setRiskClass.run o words) := by
  refine ends_taking h fun (id, risk) _ => ?_
  refine looks_config.endsBind h fun c hc => ?_
  subst hc
  have hwritten : (i.config.setProfileValue (companyKey id "risk_class") (.text risk.name)).Written :=
    h.config.setProfileValue id (by decide) (absurd · (by decide)) (absurd · (by decide))
  exact ends_setConfig (Looks.ends (looks_sayAll _) (h.setConfig hwritten))

theorem getValue_ends (h : i.Kept) : Ends Installation.Kept F i (getValue.run o words) := by
  refine ends_taking h fun key _ =>
    Looks.ends (Q := fun _ => True) ?_ h
  refine looks_config.bind fun c _ => ?_
  split
  · exact looks_fail _
  · exact looks_fail _
  · exact looks_say _

/-- A setting is written in its form. Only the places of the rounding are read by the conversion of
integers, whose digits need not be decimal. -/
theorem looks_settingValue {key : SettingKey} {word : String}
    (hl : valueArguments.parse words = .accepted (key, word)) :
    Looks i (Unexplained i.config words "config" "set") (settingValue key word)
      (Configuration.Admits key) := by
  cases key with
  | dataDirectory => exact .pure ⟨word, rfl⟩
  | roundingMethod =>
      unfold settingValue
      dsimp only
      split
      · next m _ => exact .pure ⟨m, rfl⟩
      · exact looks_refuse _
  | roundingPlaces =>
      refine Looks.refusing (looks_refuse _) fun hdigits => ?_
      have hread : FailsIn (Unexplained i.config words "config" "set") (integerFromText word) :=
        fun f hf => .places hl hf
      refine (looks_expecting hread.endsIn).bind fun n hn => ?_
      have hall : ∀ c ∈ word.toList, Text.isDigit c := by
        simpa only [Bool.not_eq_true', Bool.not_eq_false, List.all_eq_true] using (not_or.1 hdigits).2
      have hnonneg := nonneg_of_integerFromText hall hn
      refine Looks.refusing (looks_refuse _) fun hmost => .pure ⟨n.toNat, by omega, ?_⟩
      rw [Int.toNat_of_nonneg hnonneg]

theorem setValue_ends (h : i.Kept) :
    Ends Installation.Kept (Unexplained i.config words "config" "set") i (setValue.run o words) := by
  refine ends_taking h fun (key, word) hl => ?_
  refine (looks_settingValue hl).endsBind h fun v hv => ?_
  refine looks_config.endsBind h fun c hc => ?_
  subst hc
  exact ends_setConfig (Looks.ends (looks_sayAll _) (h.setConfig (h.config.setSetting hv)))

end Command.Settings

end Payroll
