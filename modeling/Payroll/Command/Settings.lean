import Payroll.Command.Basic
import Payroll.Yaml.Block

/-!
Commands that show and change the configuration.
-/

namespace Payroll.Command.Settings

def presence (o : Option α) : String := if o.isSome then "exists" else "not found"

def path : Command :=
  taking "path" "Show configuration and data paths." (pure ()) fun _ _ => do
    let c ← config
    let i := (← get).installation
    sayAll ["Configuration paths:", "", s!"  Config directory: {c.directory}",
      if c.named then "    (from NOMINA_CALC_CONFIG_PATH)" else "    (XDG default)",
      s!"  Settings file:    {c.settingsPath} [{presence c.settings?}]",
      s!"  Profile file:     {c.profilePath} [{presence c.profile?}]",
      s!"  Fiscal tables:    {c.tablesDirectory} (overrides)"]
    say s!"  Data directory:   {← expecting i.dataPath}"

def roundingText (p : RoundingPolicy) : String := s!"{p.method.name} to {p.places} places"

/-- The risk class of a section, if it counts as set. -/
def riskText (own : Fields) : String :=
  match Configuration.set? own "risk_class" with
  | some j => j.plain
  | none => "(not set)"

def showCompany (company : String) (asJson : Bool) : Action Unit := do
  let c ← config
  let p ← expecting (c.roundingPolicy company)
  let own ← expecting (c.company company)
  if asJson then
    say (Json.object [
      ("company_id", .text company),
      ("config", .object own),
      ("effective_rounding", p.toJson)]).indented
  else
    sayAll [s!"Company: {company}", s!"  Rounding: {roundingText p}",
      s!"  Risk class: {riskText own}"]

def settingLines (fields : Fields) : List String :=
  if fields.isEmpty then ["  (defaults)"] else fields.map fun f => s!"  {f.1}: {f.2.plain}"

def profileLines (fields : Fields) : List String :=
  if fields.isEmpty then ["  (empty)"]
  else ((Yaml.text (.object fields)).splitOn "\n").map ("  " ++ ·)

def yearsText (years : List Nat) : String :=
  if years.isEmpty then "none" else String.intercalate ", " (years.map toString)

def showAll (asJson : Bool) : Action Unit := do
  let c ← config
  let years ← expecting c.years
  if asJson then
    say (Json.object [
      ("settings", .object c.settings),
      ("profile", .object c.profile),
      ("fiscal_years", .list (years.map Json.ofNat))]).indented
  else
    sayAll ([s!"Settings ({c.settingsPath}):"] ++ settingLines c.settings
      ++ ["", s!"Profile ({c.profilePath}):"] ++ profileLines c.profile
      ++ ["", s!"Fiscal tables available for: {yearsText years}"])

def «show» : Command :=
  taking "show" "Show settings, company configuration and available fiscal years."
    (Prod.mk <$> option ["--company"] asText <*> flag ["--json"])
    fun _ (company, asJson) =>
      match company with
      | none | some "" => showAll asJson
      | some id => showCompany id asJson

def companyKey (company field : String) : String := s!"companies.{company}.{field}"

def isPlaces (n : Int) : Bool := 0 ≤ n && n ≤ maxPlaces

/-- The company, and what of its rounding is to be set. -/
def roundingArguments : Arguments (String × Option RoundingMethod × Option Int) :=
  (·, ·, ·) <$> word "COMPANY_ID" asText
    <*> option ["--method", "-m"] (oneOf RoundingMethod.all RoundingMethod.name)
    <*> option ["--precision", "-p"] (suchThat isPlaces asInteger)

def withRounding (c : Configuration) (company : String) (method : Option RoundingMethod)
    (places : Option Int) : Configuration :=
  let c := match method with
    | some m => c.setProfileValue (companyKey company "rounding_method") (.text m.name)
    | none => c
  match places with
  | some n => c.setProfileValue (companyKey company "rounding_precision") (.int n)
  | none => c

def setRounding : Command :=
  taking "set-rounding" "Set the rounding policy of a company." roundingArguments
    fun _ (company, method, places) => do
      if method.isNone && places.isNone then refuse "Give --method, --precision or both"
      let c := withRounding (← config) company method places
      setConfig c
      let p ← expecting (c.roundingPolicy company)
      sayAll [s!"Rounding for {company}: {roundingText p}", s!"Saved to: {c.profilePath}"]

def setRiskClass : Command :=
  taking "set-risk-class" "Set the IMSS work-risk class of a company (CLASE_I..CLASE_V)."
    (Prod.mk <$> word "COMPANY_ID" asText
      <*> word "RISK_CLASS" (oneOf RiskClass.all RiskClass.name))
    fun _ (company, risk) => do
      let c ← config
      setConfig (c.setProfileValue (companyKey company "risk_class") (.text risk.name))
      sayAll [s!"Risk class for {company}: {risk.name}", s!"Saved to: {c.profilePath}"]

/-- A key with a point names a value of the profile, any other a setting. -/
def valueOf (c : Configuration) (key : String) : Option Json :=
  if key.toList.contains '.' then c.profileValue? key else c.setting? key

/-- A document with sorted keys and without blank space at its end. -/
def document (j : Json) : String :=
  String.ofList ((Yaml.text j.sorted).toList.reverse.dropWhile Text.isBlank).reverse

def valueText : Json → String
  | .list items => document (.list items)
  | .object fields => document (.object fields)
  | j => j.plain

def getValue : Command :=
  taking "get" "Get a setting, or a profile value by dot-notation KEY."
    (word "KEY" asText) fun _ key => do
    match valueOf (← config) key with
    | none | some .null => fail s!"'{key}' is not set"
    | some j => say (valueText j)

inductive SettingKey
  | dataDirectory
  | roundingMethod
  | roundingPlaces
  deriving DecidableEq, Repr

namespace SettingKey

def name : SettingKey → String
  | .dataDirectory => "data_dir"
  | .roundingMethod => "default_rounding_method"
  | .roundingPlaces => "default_rounding_precision"

def all : List SettingKey := [.dataDirectory, .roundingMethod, .roundingPlaces]

def ofName? (s : String) : Option SettingKey := all.find? fun k => k.name == s

end SettingKey

def settingValue (key : SettingKey) (word : String) : Action Json :=
  match key with
  | .dataDirectory => pure (.text word)
  | .roundingMethod =>
    match RoundingMethod.ofName? (Text.upper word) with
    | some m => pure (.text m.name)
    | none => refuse s!"Invalid value for VALUE: Unknown rounding method {word}"
  | .roundingPlaces => do
    let bounds := s!"Invalid value for VALUE: Precision must be 0-{maxPlaces}"
    if word = "" ∨ !word.toList.all Text.isDigit then refuse bounds
    let n ← expecting (integerFromText word)
    if (maxPlaces : Int) < n then refuse bounds
    pure (.int n)

def setValue : Command :=
  taking "set" "Set a machine setting."
    (Prod.mk <$> word "KEY" SettingKey.ofName? <*> word "VALUE" asText) fun _ (key, word) => do
    let v ← settingValue key word
    let c ← config
    setConfig (c.setSetting key.name v)
    sayAll [s!"{key.name}: {v.plain}", s!"Saved to: {c.settingsPath}"]

def all : List Command := [path, «show», setRounding, setRiskClass, getValue, setValue]

end Payroll.Command.Settings
