import TradingRules.Builtin.Collection
import TradingRules.Builtin.Function
import TradingRules.Builtin.Library
import TradingRules.Builtin.Math
import TradingRules.Builtin.Price
import TradingRules.Builtin.Text
import TradingRules.Builtin.Time
import TradingRules.Builtin.Trade
import TradingRules.Cache.Counted
import TradingRules.Cache.Recency
import TradingRules.Calendar.Basic
import TradingRules.Calendar.Reading
import TradingRules.Candle.Basic
import TradingRules.Candle.Fault
import TradingRules.Candle.Series
import TradingRules.Candle.Table
import TradingRules.Command.Arguments
import TradingRules.Command.Basic
import TradingRules.Command.Report
import TradingRules.Command.Run
import TradingRules.Config.Basic
import TradingRules.Config.Checks
import TradingRules.Decimal.Layout
import TradingRules.Decimal.Power
import TradingRules.Decimal.Reading
import TradingRules.Decimal.Shortest
import TradingRules.Dict
import TradingRules.Disk.Basic
import TradingRules.Disk.Path
import TradingRules.Double.Basic
import TradingRules.Double.Magnitude
import TradingRules.Double.Order
import TradingRules.Double.Remainder
import TradingRules.Double.Whole
import TradingRules.Eval.Context
import TradingRules.Eval.Evaluator
import TradingRules.Eval.Failure
import TradingRules.Eval.Operators
import TradingRules.Eval.Strict
import TradingRules.Expr.Basic
import TradingRules.Expr.Cache
import TradingRules.Expr.Compiled
import TradingRules.Expr.Names
import TradingRules.Expr.Parser
import TradingRules.Expr.Text
import TradingRules.Indicator.Basic
import TradingRules.Indicator.Running
import TradingRules.Json.Basic
import TradingRules.Json.Reader
import TradingRules.Json.Record
import TradingRules.Json.Writer
import TradingRules.Main
import TradingRules.Project.Basic
import TradingRules.Project.Document
import TradingRules.Project.Store
import TradingRules.Regime.CandleFeed
import TradingRules.Regime.Classifier
import TradingRules.Regime.Monitor
import TradingRules.Regime.Rule
import TradingRules.Regime.RuleFile
import TradingRules.Session.Basic
import TradingRules.Session.Trouble
import TradingRules.Source.Assembly
import TradingRules.Source.Bot
import TradingRules.Source.Chart
import TradingRules.Source.Field
import TradingRules.Source.OpenTrade
import TradingRules.Source.Strategy
import TradingRules.Text.AlphabeticTable
import TradingRules.Text.Blank
import TradingRules.Text.Case
import TradingRules.Text.CaseTable
import TradingRules.Text.CasedTable
import TradingRules.Text.CharClass
import TradingRules.Text.NumericTable
import TradingRules.Text.PrintableTable
import TradingRules.Text.Quoted
import TradingRules.Text.Search
import TradingRules.Token.Basic
import TradingRules.Token.Lexer
import TradingRules.Validation.Checks
import TradingRules.Validation.EditDistance
import TradingRules.Validation.Problem
import TradingRules.Value.Basic
import TradingRules.Value.Json
import TradingRules.Value.Text
import TradingRules.Proofs.Cache.Recency
import TradingRules.Proofs.Outcome
import TradingRules.Proofs.Disk.Put
import TradingRules.Proofs.Project.History
import TradingRules.Proofs.Project.Freshness
import TradingRules.Proofs.Token.Recovery
import TradingRules.Proofs.Validation.Soundness
import TradingRules.Proofs.Expr.Height
import TradingRules.Proofs.Expr.Levels
import TradingRules.Proofs.Builtin.Reads
import TradingRules.Proofs.Eval.NonInterference
import TradingRules.Proofs.Cache.Latest
import TradingRules.Proofs.Session.History
import TradingRules.Proofs.Session.Transparency
import TradingRules.Proofs.Expr.Grammar
import TradingRules.Proofs.Expr.Derivation
import TradingRules.Proofs.Expr.Follow
import TradingRules.Proofs.Expr.Completeness
import TradingRules.Proofs.Expr.Fuel
import TradingRules.Proofs.Expr.Unambiguous
import TradingRules.Proofs.Expr.Acceptance
import TradingRules.Proofs.Validation.Completeness
import TradingRules.Proofs.Decimal.Digits
import TradingRules.Proofs.Decimal.ReadBack
import TradingRules.Proofs.Expr.Formed
import TradingRules.Proofs.Expr.Printed
import TradingRules.Proofs.Expr.Reprint
import TradingRules.Proofs.Regime.BarClose
import TradingRules.Proofs.Dict
import TradingRules.Proofs.Project.Edits
import TradingRules.Proofs.Indicator.Causality
import TradingRules.Proofs.Indicator.Locality
import TradingRules.Proofs.Regime.Repaint
import TradingRules.Proofs.Json.Numbers
import TradingRules.Proofs.Json.ReadBack
import TradingRules.Proofs.Value.ReadBack
import TradingRules.Proofs.Project.ReadBack
import TradingRules.Proofs.Project.Coherence
import TradingRules.Proofs.Cache.UseOrder
import TradingRules.Proofs.Project.RoundTrip
import TradingRules.Proofs.Project.Change
import TradingRules.Proofs.Double.Comparing
import TradingRules.Proofs.Double.Operations
import TradingRules.Proofs.Double.Exact
import TradingRules.Proofs.Eval.Runs
import TradingRules.Proofs.Eval.Verdicts
import TradingRules.Proofs.Eval.Visits
import TradingRules.Proofs.Builtin.Careful
import TradingRules.Proofs.Builtin.Aborts
import TradingRules.Proofs.Session.Aborts
import TradingRules.Proofs.Eval.Called
import TradingRules.Proofs.Validation.Registered
import TradingRules.Proofs.Regime.Repeat
import TradingRules.Proofs.Regime.Ranking
import TradingRules.Proofs.Source.Origin
import TradingRules.Proofs.Source.Layers
import TradingRules.Proofs.Json.InRange
import TradingRules.Proofs.Project.Reread
import TradingRules.Proofs.Command.Variables
import TradingRules.Proofs.Session.Variables
import TradingRules.Proofs.Expr.Paths
import TradingRules.Proofs.Eval.Paths
import TradingRules.Proofs.Eval.Folding
import TradingRules.Proofs.Eval.Indexing
import TradingRules.Proofs.Session.Undefined
import TradingRules.Proofs.Expr.Renaming
import TradingRules.Proofs.Eval.Renaming
import TradingRules.Proofs.Value.Integers
import TradingRules.Proofs.Eval.Comprehensions
import TradingRules.Proofs.Double.Order
import TradingRules.Proofs.Double.Integers
import TradingRules.Proofs.Builtin.Ordering
import TradingRules.Proofs.Builtin.Distinct
import TradingRules.Proofs.Eval.Arithmetic
import TradingRules.Proofs.Validation.Tokens
import TradingRules.Proofs.Token.Places
import TradingRules.Proofs.Expr.Places
import TradingRules.Proofs.Token.Joined
import TradingRules.Proofs.Expr.Sugar
import TradingRules.Proofs.Builtin.Duration
import TradingRules.Proofs.Builtin.Trade
import TradingRules.Proofs.Source.Parameters
import TradingRules.Proofs.Text.Search
import TradingRules.Proofs.Eval.Membership
import TradingRules.Proofs.Validation.Nesting
import TradingRules.Proofs.Validation.Distance
import TradingRules.Proofs.Indicator.WarmUp
import TradingRules.Proofs.Regime.Entries
