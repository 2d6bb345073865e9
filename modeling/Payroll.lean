import Payroll.Amount
import Payroll.Audit.Entry
import Payroll.Audit.Recorder
import Payroll.Audit.Replay
import Payroll.Audit.Snapshot
import Payroll.Audit.Trail
import Payroll.Calculation
import Payroll.Calendar.Date
import Payroll.Calendar.Instant
import Payroll.Calls
import Payroll.Command.Action
import Payroll.Command.Arguments
import Payroll.Command.Audits
import Payroll.Command.Basic
import Payroll.Command.Formulas
import Payroll.Command.Line
import Payroll.Command.Program
import Payroll.Command.Runs
import Payroll.Command.Settings
import Payroll.Command.Taxes
import Payroll.Command.Value
import Payroll.Configuration
import Payroll.Decimal.Basic
import Payroll.Decimal.Context
import Payroll.Decimal.Fixed
import Payroll.Decimal.Meaning
import Payroll.Decimal.Text
import Payroll.Digest
import Payroll.Employee
import Payroll.Engine
import Payroll.Event
import Payroll.Fault
import Payroll.Fiscal.Lookup
import Payroll.Fiscal.Published
import Payroll.Fiscal.TableSet
import Payroll.Fiscal.Values
import Payroll.Formula.Bindings
import Payroll.Formula.Catalog
import Payroll.Formula.Evaluate
import Payroll.Formula.Exemption
import Payroll.Formula.Expr
import Payroll.Formula.Grammar
import Payroll.Formula.Listing
import Payroll.Formula.Parser
import Payroll.Formula.Reference
import Payroll.Formula.Rejection
import Payroll.Formula.Template
import Payroll.Formula.Token
import Payroll.Formula.Vocabulary
import Payroll.Installation
import Payroll.Json.Basic
import Payroll.Json.Display
import Payroll.Json.Edit
import Payroll.Json.Number
import Payroll.Json.Reader
import Payroll.Json.Writer
import Payroll.Key
import Payroll.Main
import Payroll.Path
import Payroll.Period
import Payroll.Proofs.AmountBounds
import Payroll.Proofs.Anniversaries
import Payroll.Proofs.AuditCommands
import Payroll.Proofs.AuditReplay
import Payroll.Proofs.AuditedFormulas
import Payroll.Proofs.BindingsRange
import Payroll.Proofs.BoundedTaxes
import Payroll.Proofs.BracketLookup
import Payroll.Proofs.CalculatedConcepts
import Payroll.Proofs.CalendarOrder
import Payroll.Proofs.CalendarText
import Payroll.Proofs.CanonicalText
import Payroll.Proofs.CommandFaults
import Payroll.Proofs.CommandOutcomes
import Payroll.Proofs.CommandRuns
import Payroll.Proofs.CommandStates
import Payroll.Proofs.CompanyRounding
import Payroll.Proofs.ConceptCoverage
import Payroll.Proofs.ConfigurationCommands
import Payroll.Proofs.ConfigurationStates
import Payroll.Proofs.ContextRounding
import Payroll.Proofs.CurrentEntries
import Payroll.Proofs.DatedCalls
import Payroll.Proofs.DecimalExact
import Payroll.Proofs.DecimalQuotient
import Payroll.Proofs.DecimalRange
import Payroll.Proofs.DecimalText
import Payroll.Proofs.DecimalValue
import Payroll.Proofs.DistributedSigns
import Payroll.Proofs.DistributedTotals
import Payroll.Proofs.EngineSteps
import Payroll.Proofs.EntryRecord
import Payroll.Proofs.EntryReplay
import Payroll.Proofs.EvaluationOutcomes
import Payroll.Proofs.ExemptionSplit
import Payroll.Proofs.FailingConcepts
import Payroll.Proofs.Faults
import Payroll.Proofs.FormulaCommands
import Payroll.Proofs.FormulaExact
import Payroll.Proofs.FormulaRecord
import Payroll.Proofs.FormulaReplay
import Payroll.Proofs.GrammarAcceptance
import Payroll.Proofs.GrammarParsing
import Payroll.Proofs.GrammarReading
import Payroll.Proofs.GrammarRejections
import Payroll.Proofs.HashedSnapshots
import Payroll.Proofs.IndentedText
import Payroll.Proofs.LengthOfService
import Payroll.Proofs.NumberText
import Payroll.Proofs.OverriddenBindings
import Payroll.Proofs.PendingReplay
import Payroll.Proofs.PeriodRuns
import Payroll.Proofs.PeriodSummaries
import Payroll.Proofs.ProfilePaths
import Payroll.Proofs.ProfileValues
import Payroll.Proofs.PublishedTariffs
import Payroll.Proofs.PublishedYears
import Payroll.Proofs.QuotaOrder
import Payroll.Proofs.QuotedText
import Payroll.Proofs.RecordFields
import Payroll.Proofs.RecordedEntries
import Payroll.Proofs.RecordingSteps
import Payroll.Proofs.RejectedTexts
import Payroll.Proofs.Resolution
import Payroll.Proofs.Results
import Payroll.Proofs.RoundedAmounts
import Payroll.Proofs.RoundedValues
import Payroll.Proofs.RoundingCommand
import Payroll.Proofs.RoundingExact
import Payroll.Proofs.RoundingOrder
import Payroll.Proofs.RoundingOutcomes
import Payroll.Proofs.RulesInEffect
import Payroll.Proofs.RunCalls
import Payroll.Proofs.RunCommand
import Payroll.Proofs.RunLines
import Payroll.Proofs.RunOutcomes
import Payroll.Proofs.RunningSums
import Payroll.Proofs.SafePaths
import Payroll.Proofs.SerialWriters
import Payroll.Proofs.SettlementBalance
import Payroll.Proofs.SettlementOutcomes
import Payroll.Proofs.SettlementParts
import Payroll.Proofs.ShortestReals
import Payroll.Proofs.StoreFaults
import Payroll.Proofs.StoreSteps
import Payroll.Proofs.StoredAmounts
import Payroll.Proofs.StoredRecords
import Payroll.Proofs.StoredScopes
import Payroll.Proofs.SubsidyCredit
import Payroll.Proofs.SucceedingVersions
import Payroll.Proofs.SummaryTotals
import Payroll.Proofs.TableRecords
import Payroll.Proofs.TaxBreakdown
import Payroll.Proofs.TaxCommands
import Payroll.Proofs.TaxProgression
import Payroll.Proofs.TierOrder
import Payroll.Proofs.Timestamps
import Payroll.Proofs.TokenCover
import Payroll.Proofs.TokenTexts
import Payroll.Proofs.TrailHistory
import Payroll.Proofs.TrailQuestions
import Payroll.Proofs.TypedAmounts
import Payroll.Proofs.TypedArguments
import Payroll.Proofs.UnexplainedFaults
import Payroll.Proofs.VerifiedEntries
import Payroll.Proofs.VersionChains
import Payroll.Proofs.VersionHistory
import Payroll.Proofs.WholePlaces
import Payroll.Proofs.WritableRecords
import Payroll.Real64
import Payroll.Record.Issue
import Payroll.Record.Reader
import Payroll.Record.Scalar
import Payroll.Recording
import Payroll.Rounding
import Payroll.RunFile
import Payroll.Service
import Payroll.Tax.Bracket
import Payroll.Tax.BracketTable
import Payroll.Tax.Imss
import Payroll.Tax.Isr
import Payroll.Tax.Settlement
import Payroll.Text.CharClass
import Payroll.Text.CharTables
import Payroll.Text.Columns
import Payroll.Version.Basic
import Payroll.Version.Conflict
import Payroll.Version.Operation
import Payroll.Version.Overlap
import Payroll.Version.Resolution
import Payroll.Version.Store
import Payroll.Version.Writers
import Payroll.Yaml.Block
import Payroll.Yaml.Scalar
