import Payroll.Fiscal.TableSet

/-!
The published tables. Amounts are in pesos, and rates are fractions.
-/

namespace Payroll.Published

-- The tariffs of both years are the same.
def weeklyIsr : List IsrBracket := [
  ⟨0.01, some 171.78, ⟨0.0, 0.0192⟩⟩,
  ⟨171.79, some 1458.03, ⟨3.29, 0.064⟩⟩,
  ⟨1458.04, some 2562.35, ⟨85.61, 0.1088⟩⟩,
  ⟨2562.36, some 2978.64, ⟨205.8, 0.16⟩⟩,
  ⟨2978.65, some 3566.22, ⟨272.37, 0.1792⟩⟩,
  ⟨3566.23, some 7192.64, ⟨377.65, 0.2136⟩⟩,
  ⟨7192.65, some 11336.57, ⟨1152.27, 0.2352⟩⟩,
  ⟨11336.58, some 21643.3, ⟨2126.95, 0.3⟩⟩,
  ⟨21643.31, some 28857.78, ⟨5218.92, 0.32⟩⟩,
  ⟨28857.79, some 86573.34, ⟨7527.59, 0.34⟩⟩,
  ⟨86573.35, none, ⟨27150.83, 0.35⟩⟩]

def biweeklyIsr : List IsrBracket := [
  ⟨0.01, some 368.1, ⟨0.0, 0.0192⟩⟩,
  ⟨368.11, some 3124.35, ⟨7.05, 0.064⟩⟩,
  ⟨3124.36, some 5490.75, ⟨183.45, 0.1088⟩⟩,
  ⟨5490.76, some 6382.8, ⟨441.0, 0.16⟩⟩,
  ⟨6382.81, some 7641.9, ⟨583.65, 0.1792⟩⟩,
  ⟨7641.91, some 15412.8, ⟨809.25, 0.2136⟩⟩,
  ⟨15412.81, some 24292.65, ⟨2469.15, 0.2352⟩⟩,
  ⟨24292.66, some 46378.5, ⟨4557.75, 0.3⟩⟩,
  ⟨46378.51, some 61838.1, ⟨11183.4, 0.32⟩⟩,
  ⟨61838.11, some 185514.3, ⟨16130.55, 0.34⟩⟩,
  ⟨185514.31, none, ⟨58180.35, 0.35⟩⟩]

def monthlyIsr : List IsrBracket := [
  ⟨0.01, some 746.04, ⟨0.0, 0.0192⟩⟩,
  ⟨746.05, some 6332.05, ⟨14.32, 0.064⟩⟩,
  ⟨6332.06, some 11128.01, ⟨371.83, 0.1088⟩⟩,
  ⟨11128.02, some 12935.82, ⟨893.63, 0.16⟩⟩,
  ⟨12935.83, some 15487.71, ⟨1182.88, 0.1792⟩⟩,
  ⟨15487.72, some 31236.49, ⟨1640.18, 0.2136⟩⟩,
  ⟨31236.5, some 49233.0, ⟨5004.12, 0.2352⟩⟩,
  ⟨49233.01, some 93993.9, ⟨9236.89, 0.3⟩⟩,
  ⟨93993.91, some 125325.2, ⟨22665.17, 0.32⟩⟩,
  ⟨125325.21, some 375975.61, ⟨32691.18, 0.34⟩⟩,
  ⟨375975.62, none, ⟨117912.32, 0.35⟩⟩]

def imssRates : List ImssRate := [
  ⟨"em_cuota_fija", 0.204, 0, .uma⟩,
  ⟨"em_excedente", 0.011, 0.004, .excess⟩,
  ⟨"em_prestaciones_dinero", 0.007, 0.0025, .sbc⟩,
  ⟨"em_gastos_medicos", 0.0105, 0.00375, .sbc⟩,
  ⟨"invalidez_vida", 0.0175, 0.00625, .sbc⟩,
  ⟨"guarderias", 0.01, 0, .sbc⟩,
  ⟨"retiro", 0.02, 0, .sbc⟩,
  ⟨"cesantia_vejez", 0.0315, 0.01125, .sbc⟩,
  ⟨"infonavit", 0.05, 0, .sbc⟩]

def riskRates : List (RiskClass × Decimal) :=
  [(.i, 0.0054355), (.ii, 0.0113065), (.iii, 0.025984), (.iv, 0.0465325), (.v, 0.0758875)]

def weeklySubsidy2024 : List SubsidyBracket := [
  ⟨0.01, some 2091.02, ⟨89.83⟩⟩,
  ⟨2091.03, none, ⟨0⟩⟩]

def biweeklySubsidy2024 : List SubsidyBracket := [
  ⟨0.01, some 4480.76, ⟨192.49⟩⟩,
  ⟨4480.77, none, ⟨0⟩⟩]

def monthlySubsidy2024 : List SubsidyBracket := [
  ⟨0.01, some 9081.0, ⟨390.12⟩⟩,
  ⟨9081.01, none, ⟨0⟩⟩]

def values2024 : FiscalValues where
  year := 2024
  umaDaily := 108.57
  umaMonthly := 3300.53
  umaYearly := 39606.36
  smgDaily := 248.93
  smgBorderDaily := some 374.89
  aguinaldoDays := 15
  vacationPremium := 0.25
  sbcCap := 25

def tables2024 : TableSet where
  year := 2024
  values := values2024
  isr := [(.weekly, weeklyIsr), (.biweekly, biweeklyIsr), (.monthly, monthlyIsr)]
  subsidy :=
    [(.weekly, weeklySubsidy2024), (.biweekly, biweeklySubsidy2024), (.monthly, monthlySubsidy2024)]
  imss := imssRates
  riskRates := riskRates

def weeklySubsidy2025 : List SubsidyBracket := [
  ⟨0.01, some 2342.01, ⟨109.38⟩⟩,
  ⟨2342.02, none, ⟨0⟩⟩]

def biweeklySubsidy2025 : List SubsidyBracket := [
  ⟨0.01, some 5018.59, ⟨234.38⟩⟩,
  ⟨5018.6, none, ⟨0⟩⟩]

def monthlySubsidy2025 : List SubsidyBracket := [
  ⟨0.01, some 10171.0, ⟨475.0⟩⟩,
  ⟨10171.01, none, ⟨0⟩⟩]

def values2025 : FiscalValues where
  year := 2025
  umaDaily := 113.14
  umaMonthly := 3439.46
  umaYearly := 41273.52
  smgDaily := 278.8
  smgBorderDaily := some 419.88
  aguinaldoDays := 15
  vacationPremium := 0.25
  sbcCap := 25

def tables2025 : TableSet where
  year := 2025
  values := values2025
  isr := [(.weekly, weeklyIsr), (.biweekly, biweeklyIsr), (.monthly, monthlyIsr)]
  subsidy :=
    [(.weekly, weeklySubsidy2025), (.biweekly, biweeklySubsidy2025), (.monthly, monthlySubsidy2025)]
  imss := imssRates
  riskRates := riskRates

/-- The published table sets, the newest first. -/
def all : List (Nat × TableSet) := [(2025, tables2025), (2024, tables2024)]

end Payroll.Published
