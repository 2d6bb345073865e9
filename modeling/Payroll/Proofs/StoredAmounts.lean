import Mathlib
import Payroll.Proofs.StoredRecords

/-!
Amounts in stored data. A decimal is written as its text, and whatever document it stands in, the
text of the document gives back its sign, its coefficient and its exponent.
-/

namespace Payroll

open Record Result

namespace Json

/-- A step into nested data. -/
inductive Step
  | key (k : String)
  | item (n : Nat)

/-- The value at the end of a path of keys and positions. -/
def at? : List Step → Json → Option Json
  | [], j => some j
  | .key k :: path, j => (j.field? k).bind (at? path)
  | .item n :: path, .list items => items[n]?.bind (at? path)
  | .item _ :: _, _ => none

/-- The amount at the end of a path as it is taken from the text of the data. -/
def amountAgain? (path : List Step) (j : Json) : Option (Except Fault Decimal) :=
  ((ofText? j.indented).bind (at? path)).map toDecimal

variable {j : Json} {d : Decimal} {path : List Step}

theorem at?_key {k : String} {v : Json} (h : j.field? k = some v) :
    at? (.key k :: path) j = at? path v := by
  rw [at?, h, Option.bind_some]

/-- The numbers that come back are those whose exponents text can denote. -/
theorem toDecimal_ofDecimal_iff : (ofDecimal d).toDecimal = .ok d ↔
    d.adjusted ≤ Decimal.maxReadable ∧ Decimal.minReadable ≤ d.exponent :=
  ⟨fun h => Decimal.readable_iff.1 (readable_of_toDecimal h),
    fun h => Json.toDecimal_ofDecimal (Decimal.readable_iff.2 h)⟩

theorem Writable.amountAgain? (hj : j.Writable) (hd : d.readable)
    (h : at? path j = some (ofDecimal d)) : j.amountAgain? path = some (.ok d) := by
  rw [Json.amountAgain?, ofText?_indented hj, Option.bind_some, h, Option.map_some,
    toDecimal_ofDecimal hd]

end Json

namespace AuditEntry

/-- The amounts of an entry with the names of their fields. -/
def amounts (e : AuditEntry) : List (String × Decimal) :=
  [("calculation_base", some e.base), ("limit_inferior", e.lower), ("excedente", e.excess),
    ("impuesto_marginal", e.marginal), ("cuota_fija", e.fixedFee),
    ("result_amount", some e.result)].filterMap fun a => a.2.map (a.1, ·)

variable {e : AuditEntry}

theorem Readable.amounts (h : e.Readable) : ∀ a ∈ e.amounts, a.2.readable := by
  intro a ha
  obtain ⟨⟨name, o⟩, hmem, ho⟩ := List.mem_filterMap.1 ha
  obtain ⟨d, hd, rfl⟩ := Option.map_eq_some_iff.1 ho
  simp only [List.mem_cons, List.not_mem_nil, or_false, Prod.mk.injEq] at hmem
  rcases hmem with ⟨-, rfl⟩ | ⟨-, rfl⟩ | ⟨-, rfl⟩ | ⟨-, rfl⟩ | ⟨-, rfl⟩ | ⟨-, rfl⟩
  · exact Option.some.inj hd ▸ h.base
  · exact h.lower d hd
  · exact h.excess d hd
  · exact h.marginal d hd
  · exact h.fixedFee d hd
  · exact Option.some.inj hd ▸ h.result

/-- Each amount stands under its name. -/
theorem at?_amount : ∀ a ∈ e.amounts, Json.at? [.key a.1] e.toJson = some (.ofDecimal a.2) := by
  intro a ha
  obtain ⟨⟨name, o⟩, hmem, ho⟩ := List.mem_filterMap.1 ha
  obtain ⟨d, hd, rfl⟩ := Option.map_eq_some_iff.1 ho
  simp only at hd
  subst hd
  have hoption {o : Option Decimal} (h : some d = o) :
      Json.optional Json.ofDecimal o = .ofDecimal d := h ▸ rfl
  simp only [List.mem_cons, List.not_mem_nil, or_false, Prod.mk.injEq] at hmem
  rcases hmem with ⟨rfl, h⟩ | ⟨rfl, h⟩ | ⟨rfl, h⟩ | ⟨rfl, h⟩ | ⟨rfl, h⟩ | ⟨rfl, h⟩
  · exact congrArg (some ∘ Json.ofDecimal) (Option.some.inj h).symm
  · exact congrArg some (hoption h)
  · exact congrArg some (hoption h)
  · exact congrArg some (hoption h)
  · exact congrArg some (hoption h)
  · exact congrArg (some ∘ Json.ofDecimal) (Option.some.inj h).symm

theorem Given.amounts_again (h : e.Given) :
    ∀ a ∈ e.amounts, e.toJson.amountAgain? [.key a.1] = some (.ok a.2) := by
  obtain ⟨hreadable, hwritable⟩ := given_iff.1 h
  exact fun a ha => hwritable.amountAgain? (hreadable.amounts a ha) (at?_amount a ha)

end AuditEntry

theorem FormulaVersion.Given.limit_again {v : FormulaVersion} (h : v.Given) :
    ∀ d ∈ v.exemptLimit, v.toJson.amountAgain? [.key "exempt_limit"] = some (.ok d) := by
  intro d hd
  obtain ⟨hvalid, hwritable⟩ := given_iff.1 h
  obtain ⟨j, hj⟩ := exists_read_of_optional (hvalid.fields.exemptLimit.trans (congrArg _ hd))
  refine hwritable.amountAgain? (readable_of_decimal (bounded_eq_ok.1 hj).1) ?_
  rw [Json.at?_key (v := .optional .ofDecimal v.exemptLimit) rfl, Option.mem_def.1 hd]
  rfl

/-- The documents of a trail that was given entries with texts have texts. -/
theorem AuditTrail.writable_runCalls {cs : List Call} (h : ∀ c ∈ cs, c.Given) :
    ∀ doc ∈ (runCalls {} cs).2.documents, doc.content.Writable := by
  have hreadable (c : Call) (hc : c ∈ cs) : c.entry.Readable :=
    (AuditEntry.given_iff.1 (h c hc).entry).1
  intro doc hdoc
  rw [(Keeps.empty.runCalls hreadable).documents] at hdoc
  obtain ⟨e, he, rfl⟩ := List.mem_map.1 hdoc
  obtain ⟨c, hc, rfl⟩ := mem_returned_runCalls he
  exact (AuditEntry.given_iff.1 (h c hc).entry).2

theorem FormulaStore.writable_of_reachable {store : FormulaStore} (h : Reachable store)
    (company concept : String)
    (hrevision : digitCount (store.scope company concept).revision.natAbs ≤ maxIntegerText)
    (hversions : ∀ v ∈ (store.scope company concept).rows,
      digitCount v.version.natAbs ≤ maxIntegerText) :
    (store.scope company concept).toJson.Writable :=
  Scope.writable_toJson hrevision fun v hv => (FormulaVersion.given_iff.1
    ((valid_of_reachable h company concept v hv).given (hversions v hv))).2

/-- A decimal within the exponents that text can denote comes back from its text as it was written,
zeros of either sign and final zeros included, and no other does. So does one at any place of a
document: of an entry of the audit trail with its snapshots, of a scope of formulas, or of any other
data that has a text. The amounts of entries and the limits of versions are within the range. -/
theorem amounts_readBack :
    (∀ d : Decimal, (Json.ofDecimal d).toDecimal = .ok d ↔
      d.adjusted ≤ Decimal.maxReadable ∧ Decimal.minReadable ≤ d.exponent) ∧
    (∀ (d : Decimal) (j : Json) (path : List Json.Step), d.readable → j.Writable →
      Json.at? path j = some (.ofDecimal d) → j.amountAgain? path = some (.ok d)) ∧
    (∀ e : AuditEntry, e.Given →
      ∀ a ∈ e.amounts, e.toJson.amountAgain? [.key a.1] = some (.ok a.2)) ∧
    (∀ v : FormulaVersion, v.Given →
      ∀ d ∈ v.exemptLimit, v.toJson.amountAgain? [.key "exempt_limit"] = some (.ok d)) ∧
    (∀ cs : List AuditTrail.Call, (∀ c ∈ cs, c.Given) →
      ∀ doc ∈ (AuditTrail.runCalls {} cs).2.documents, ∀ (d : Decimal) (path : List Json.Step),
        d.readable → Json.at? path doc.content = some (.ofDecimal d) →
          doc.content.amountAgain? path = some (.ok d)) ∧
    ∀ store : FormulaStore, FormulaStore.Reachable store → ∀ company concept : String,
      digitCount (store.scope company concept).revision.natAbs ≤ maxIntegerText →
      (∀ v ∈ (store.scope company concept).rows, digitCount v.version.natAbs ≤ maxIntegerText) →
      ∀ (d : Decimal) (path : List Json.Step), d.readable →
        Json.at? path (store.scope company concept).toJson = some (.ofDecimal d) →
          (store.scope company concept).toJson.amountAgain? path = some (.ok d) :=
  ⟨fun _ => Json.toDecimal_ofDecimal_iff, fun _ _ _ hd hj => hj.amountAgain? hd,
    fun _ => AuditEntry.Given.amounts_again, fun _ => FormulaVersion.Given.limit_again,
    fun _ h doc hdoc _ _ hd => (AuditTrail.writable_runCalls h doc hdoc).amountAgain? hd,
    fun _ h company concept hrevision hversions _ _ hd =>
      (FormulaStore.writable_of_reachable h company concept hrevision hversions).amountAgain? hd⟩

/-! Zeros with a sign, final zeros and exponents, in snapshots and in the scope of a bonus -/

/-- Negative zeros, and fifteen thousand in three spellings. -/
def spellings : List Decimal :=
  [⟨true, 0, -2⟩, ⟨true, 0, -7⟩, ⟨false, 1500000, -2⟩, ⟨false, 15000, 0⟩, ⟨false, 15, 3⟩]

example : spellings.map Decimal.text = ["-0.00", "-0E-7", "15000.00", "15000", "1.5E+4"] := by
  decide +kernel

def spelled : Fields := [("amounts", .list (spellings.map .ofDecimal))]

theorem writable_spelled : (Json.object spelled).Writable := by
  refine .object (by decide) (List.forall_mem_singleton.2 (.list fun v hv => ?_))
  obtain ⟨d, -, rfl⟩ := List.mem_map.1 hv
  exact .text _

def spelledCall : AuditTrail.Call := .recordWithSnapshots workedEntry spelled [] spelled

theorem given_spelledCall : spelledCall.Given :=
  ⟨given_workedEntry, writable_spelled, Json.writable_nil, writable_spelled⟩

theorem stored_spelledCall :
    Recording.document spelledCall.entry ∈ (AuditTrail.runCalls {} [spelledCall]).2.documents := by
  have hdetail : spelledCall.entry.detail = "d1" := rfl
  have hid : spelledCall.entry.id = "e1" := rfl
  have hrecord : ({} : AuditTrail).record spelledCall.entry =
      .ok ⟨([] ++ [spelledCall.entry]).map Recording.document⟩ :=
    AuditTrail.Keeps.empty.record_iff.2
      ⟨by rw [hdetail]; decide, by rw [hid]; decide, fun _ he => (nomatch he), rfl⟩
  rw [AuditTrail.runCalls, AuditTrail.Call.run_of_ok hrecord]
  exact List.mem_singleton_self _

def limitedGrant : FormulaStore.Operation := .create "f1" FormulaStore.noon {
  company := .text "ACME"
  concept := .text "P010"
  kind := .text "PERCEPTION"
  name := .text "Bono"
  expression := .text "custom1"
  fields := [("exempt_limit", .text "1.5E+2"), ("exempt_limit_type", .text "UMA")] }

def grantedLimit : FormulaVersion :=
  { FormulaStore.bonus with exemptLimit := some ⟨false, 15, 1⟩, limitUnit := some .uma }

def grantedStore : FormulaStore := ⟨[⟨"ACME", "P010", 1, [grantedLimit]⟩]⟩

theorem limitedGrant_after : limitedGrant.after {} = grantedStore := by decide +kernel

theorem reachable_grantedStore : FormulaStore.Reachable grantedStore := by
  rw [← limitedGrant_after]
  refine .step limitedGrant .empty ?_
  intro id _ company concept v hv
  cases hv

/-- The negative zero of seven places and fifteen thousand with its exponent come back from a
document and from a snapshot, and so do the amount of an entry and the limit of a bonus. -/
theorem spellings_readBack :
    ((Json.ofDecimal ⟨true, 0, -7⟩).toDecimal = .ok ⟨true, 0, -7⟩ ∧
      (Json.ofDecimal ⟨false, 15, 3⟩).toDecimal = .ok ⟨false, 15, 3⟩) ∧
    ((Json.object spelled).Writable ∧
      (Json.object spelled).amountAgain? [.key "amounts", .item 1] = some (.ok ⟨true, 0, -7⟩)) ∧
    (workedEntry.Given ∧ ("result_amount", ⟨true, 50, -2⟩) ∈ workedEntry.amounts ∧
      workedEntry.toJson.amountAgain? [.key "result_amount"] = some (.ok ⟨true, 50, -2⟩)) ∧
    (limitedBonus.Given ∧
      limitedBonus.toJson.amountAgain? [.key "exempt_limit"] = some (.ok ⟨false, 15, 1⟩)) ∧
    (spelledCall.Given ∧
      Recording.document spelledCall.entry ∈ (AuditTrail.runCalls {} [spelledCall]).2.documents ∧
      (Recording.document spelledCall.entry).content.amountAgain?
        [.key "input_snapshot", .key "amounts", .item 4] = some (.ok ⟨false, 15, 3⟩)) ∧
    FormulaStore.Reachable grantedStore ∧
      (grantedStore.scope "ACME" "P010").toJson.amountAgain?
        [.key "rows", .item 0, .key "exempt_limit"] = some (.ok ⟨false, 15, 1⟩) := by
  obtain ⟨hdecimal, hdocument, hentry, hversion, htrail, hstore⟩ := amounts_readBack
  have hzero : (⟨true, 0, -7⟩ : Decimal).readable := by decide +kernel
  have hthousands : (⟨false, 15, 3⟩ : Decimal).readable := by decide +kernel
  have hlimit : (⟨false, 15, 1⟩ : Decimal).readable := by decide +kernel
  have hresult : ("result_amount", (⟨true, 50, -2⟩ : Decimal)) ∈ workedEntry.amounts := by decide
  have hamount := hentry _ given_workedEntry _ hresult
  have hscope : grantedStore.scope "ACME" "P010" = ⟨"ACME", "P010", 1, [grantedLimit]⟩ := rfl
  have hone : digitCount 1 ≤ maxIntegerText :=
    digitCount_le_maxIntegerText (k := 1) (by decide) (by decide)
  refine ⟨⟨(hdecimal _).2 (Decimal.readable_iff.1 hzero),
      (hdecimal _).2 (Decimal.readable_iff.1 hthousands)⟩,
    ⟨writable_spelled, hdocument _ _ _ hzero writable_spelled rfl⟩,
    ⟨given_workedEntry, hresult, hamount⟩,
    ⟨given_limitedBonus, hversion _ given_limitedBonus _ rfl⟩,
    ⟨given_spelledCall, stored_spelledCall,
      htrail _ (List.forall_mem_singleton.2 given_spelledCall) _ stored_spelledCall _ _
        hthousands rfl⟩,
    reachable_grantedStore, ?_⟩
  refine hstore _ reachable_grantedStore "ACME" "P010" ?_ ?_ _ _ hlimit rfl
  · rw [hscope]
    exact hone
  · rw [hscope]
    exact List.forall_mem_singleton.2 hone

end Payroll
