import Mathlib
import Payroll.Command.Program
import Payroll.Proofs.CommandRuns
import Payroll.Proofs.CompanyRounding

/-!
The command that sets the rounding of a company. With both options it takes effect for that company, and
for no other, if the identifier has no points.
-/

namespace Payroll.Command

open Settings (roundingArguments roundingText)

variable {i : Installation} {id : String} {p : RoundingPolicy} {line : List String}

section Line

theorem given_options (method places id : String) :
    given (roundingArguments.spellings ++ [helpFlag])
      ["--method", method, "--precision", places, "--", id] =
      some ⟨[("--method", method), ("--precision", places)], [id]⟩ := by
  have hmethod : openOption (roundingArguments.spellings ++ [helpFlag]) "--method" =
      some ([], some "--method") := by decide +kernel
  have hplaces : openOption (roundingArguments.spellings ++ [helpFlag]) "--precision" =
      some ([], some "--precision") := by decide +kernel
  simp [given, Scan.step, isOption, hmethod, hplaces]

theorem oneOf_methodName (m : RoundingMethod) :
    oneOf RoundingMethod.all RoundingMethod.name m.name = some m := by
  cases m <;> decide +kernel

theorem places_toString (n : Fin (maxPlaces + 1)) :
    suchThat Settings.isPlaces asInteger (toString (n : Nat)) = some (n : Int) := by
  revert n
  decide +kernel

/-- A line that sets both parts of a company's rounding. -/
def Sets (line : List String) (id : String) (p : RoundingPolicy) : Prop :=
  roundingArguments.parse line = .accepted (id, some p.method, some p.places)

/-- Such a line for every company, also for one whose identifier begins with a hyphen. -/
def settingLine (id : String) (p : RoundingPolicy) : List String :=
  ["--method", p.method.name, "--precision", toString p.places, "--", id]

theorem sets_settingLine (id : String) (p : RoundingPolicy) : Sets (settingLine id p) id p := by
  have hplaces := places_toString ⟨p.places, Nat.lt_succ_of_le p.bounded⟩
  have hread : roundingArguments.read 0
      ⟨[("--method", p.method.name), ("--precision", toString p.places)], [id]⟩ =
        some (id, some p.method, some (p.places : Int)) := by
    rw [roundingArguments]
    exact Arguments.read_seq (f := fun n => (id, some p.method, n))
      (Arguments.read_seq (f := fun m n => (id, m, n)) rfl (read_option rfl (oneOf_methodName _)))
      (read_option rfl hplaces)
  rw [Sets, Arguments.parse, settingLine, given_options]
  dsimp only
  rw [hread]
  rfl

end Line

/-- What is printed about the rounding that a company has now. -/
def announced (c : Configuration) (id : String) (p : RoundingPolicy) : String :=
  s!"Rounding for {id}: {roundingText p}\n" ++ s!"Saved to: {c.profilePath}\n"

theorem run_setRounding (o : Occasion) (h : Sets line id p) : Settings.setRounding.run o line = (do
    let c ← config
    setConfig (c.rounded id p)
    let q ← expecting ((c.rounded id p).roundingPolicy id)
    sayAll [s!"Rounding for {id}: {roundingText q}",
      s!"Saved to: {(c.rounded id p).profilePath}"]) := by
  unfold Sets at h
  unfold Settings.setRounding taking
  simp only [h]
  rfl

/-- The rounding is set before it is read back, and stays set if it cannot be read. -/
theorem outcome_setRounding (o : Occasion) (typed : List String) (h : Sets line id p) :
    outcome (Settings.setRounding.run o line) { installation := i, typed } =
      match (i.config.rounded id p).roundingPolicy id with
      | .ok q => (.ok (), {
          installation := { i with config := i.config.rounded id p }
          typed
          printed := announced i.config id q })
      | .error f => (.error (.fault f), {
          installation := { i with config := i.config.rounded id p }
          typed }) := by
  rw [run_setRounding o h, outcome_bind_ok (outcome_config _),
    outcome_bind_ok (outcome_setConfig _ _), outcome_bind, outcome_expecting]
  cases (i.config.rounded id p).roundingPolicy id with
  | error f => rfl
  | ok q =>
      change outcome (sayAll _) _ = _
      rw [outcome_sayAll]
      simp only [List.foldl_cons, List.foldl_nil, String.empty_append]
      rfl

theorem program_setRounding (o : Occasion) (line : List String) :
    ∃ help, program o ("config" :: "set-rounding" :: line) =
      tryCatch (Settings.setRounding.run o line) fun
        | .help => sayAll help
        | stop => throw stop := ⟨_, rfl⟩

theorem answer_setRounding (o : Occasion) (typed : String) (h : Sets line id p) :
    answer i o typed ("config" :: "set-rounding" :: line) =
      (match (i.config.rounded id p).roundingPolicy id with
        | .ok q => .exited 0 (some (announced i.config id q))
        | .error f => .broke f,
       { i with config := i.config.rounded id p }) := by
  obtain ⟨help, hprogram⟩ := program_setRounding o line
  have hanswer : answer i o typed ("config" :: "set-rounding" :: line) =
      (fun r : Except Stop Unit × Session => (endingOf r.2.printed r.1, r.2.installation))
        (outcome (program o ("config" :: "set-rounding" :: line))
          { installation := i, typed := typedLines typed }) := rfl
  rw [hanswer, hprogram, outcome_tryCatch, outcome_setRounding o _ h]
  cases (i.config.rounded id p).roundingPolicy id <;> rfl

/-- The end of the command and the installation after it. -/
def settingRounding (i : Installation) (o : Occasion) (typed : String) (line : List String) :
    Ending × Installation :=
  answer i o typed ("config" :: "set-rounding" :: line)

/-- Both options set the rounding of a company whose identifier has no points, and of no other. An
identifier with points leads below the section of the company that its first part names: no rounding
changes, but if the second part names one of the options, the rounding of that company is lost. -/
theorem setRounding_policies (i : Installation) (o : Occasion) (typed id : String) (p : RoundingPolicy)
    (h : i.config.Sectioned) :
    (∃ line, Sets line id p) ∧
    ∀ line, Sets line id p →
      (settingRounding i o typed line).2.config.Sectioned ∧
      ('.' ∉ id.toList →
        (settingRounding i o typed line).1 = .exited 0 (some (announced i.config id p)) ∧
        (settingRounding i o typed line).2.config.roundingPolicy id = .ok p ∧
        ∀ other, other ≠ id → (settingRounding i o typed line).2.config.roundingPolicy other =
          i.config.roundingPolicy other) ∧
      ('.' ∈ id.toList → ∃ first second rest, keyPath id = first :: second :: rest ∧ id ≠ first ∧
        (∀ other, other ≠ first → (settingRounding i o typed line).2.config.roundingPolicy other =
          i.config.roundingPolicy other) ∧
        if second = "rounding_method" ∨ second = "rounding_precision" then
          ∃ f, (settingRounding i o typed line).2.config.roundingPolicy first = .error f
        else (settingRounding i o typed line).2.config.roundingPolicy first =
          i.config.roundingPolicy first) := by
  refine ⟨⟨_, sets_settingLine id p⟩, fun line hline => ?_⟩
  rw [settingRounding, answer_setRounding o typed hline]
  refine ⟨h.rounded id p, fun hpoint => ?_, fun hpoint => ?_⟩
  · have hpath := keyPath_of_notMem hpoint
    have hset := Configuration.roundingPolicy_rounded (p := p) h hpath
    refine ⟨?_, hset, fun other => Configuration.roundingPolicy_rounded_other h hpath⟩
    rw [hset]
  · obtain ⟨first, second, rest, hpath, hne⟩ := keyPath_of_mem hpoint
    refine ⟨first, second, rest, hpath, hne,
      fun other => Configuration.roundingPolicy_rounded_other h hpath, ?_⟩
    split
    · next hsecond => exact Configuration.roundingPolicy_rounded_broken h hpath hsecond
    · next hsecond =>
      obtain ⟨hmethod, hplaces⟩ := not_or.1 hsecond
      exact Configuration.roundingPolicy_rounded_first h hpath hmethod hplaces

/-- An installation in which a company has a rounding of its own. -/
def registered : Installation :=
  { Installation.below "srv" none with
    config := {
      directory := "srv/config"
      profile? := some [("companies", .object [("acme", .object [
        ("rounding_method", .text "FLOOR"), ("rounding_precision", .int 4)])])] } }

theorem sectioned_registered : registered.config.Sectioned where
  companies j hj _ := ⟨_, (Option.some.inj hj).symm⟩
  company id j hj _ := by
    change (if "acme" = id then some _ else none) = some j at hj
    split at hj
    · exact ⟨_, (Option.some.inj hj).symm⟩
    · cases hj

theorem acme_registered : registered.config.roundingPolicy "acme" = .ok ⟨.floor, 4, by decide⟩ :=
  Configuration.roundingPolicy_own (p := ⟨.floor, 4, by decide⟩) sectioned_registered rfl rfl

def northern : List String := ["norte", "-m", "half_even", "-p", "0"]

theorem sets_northern : Sets northern "norte" ⟨.halfEven, 0, by decide⟩ := by cbv

def pointed : List String := settingLine "acme.rounding_method" .standard

theorem sets_pointed : Sets pointed "acme.rounding_method" .standard :=
  sets_settingLine _ _

/-- A second company gets its rounding beside the first. An identifier that leads to the first one's method
ends its rounding. -/
theorem registered_policies :
    registered.config.Sectioned ∧
    registered.config.roundingPolicy "acme" = .ok ⟨.floor, 4, by decide⟩ ∧
    (Key.isSafe "norte" = true ∧ Sets northern "norte" ⟨.halfEven, 0, by decide⟩ ∧
      (settingRounding registered ⟨.latest, "c1"⟩ "" northern).2.config.roundingPolicy "norte" =
        .ok ⟨.halfEven, 0, by decide⟩ ∧
      (settingRounding registered ⟨.latest, "c1"⟩ "" northern).2.config.roundingPolicy "acme" =
        .ok ⟨.floor, 4, by decide⟩) ∧
    (Key.isSafe "acme.rounding_method" = true ∧
      Sets pointed "acme.rounding_method" .standard ∧
      ∃ f, (settingRounding registered ⟨.latest, "c2"⟩ "" pointed).2.config.roundingPolicy "acme" =
        .error f) := by
  obtain ⟨-, hplain⟩ := setRounding_policies registered ⟨.latest, "c1"⟩ "" "norte"
    ⟨.halfEven, 0, by decide⟩ sectioned_registered
  obtain ⟨-, hpoints⟩ := setRounding_policies registered ⟨.latest, "c2"⟩ "" "acme.rounding_method"
    .standard sectioned_registered
  obtain ⟨-, hset, -⟩ := hplain northern sets_northern
  obtain ⟨-, -, hlost⟩ := hpoints pointed sets_pointed
  obtain ⟨-, hnorte, hothers⟩ := hset (by decide)
  obtain ⟨first, second, rest, hpath, -, -, hbroken⟩ := hlost (by decide)
  refine ⟨sectioned_registered, acme_registered, ⟨by decide +kernel, sets_northern, hnorte, ?_⟩,
    ⟨by decide +kernel, sets_pointed, ?_⟩⟩
  · rw [hothers "acme" (by decide), acme_registered]
  · have hparts : keyPath "acme.rounding_method" = ["acme", "rounding_method"] := by cbv
    rw [hparts] at hpath
    cases hpath
    exact hbroken

end Payroll.Command
