import DeskCalc.Api.Answer
import DeskCalc.Completion
import DeskCalc.Currency
import DeskCalc.Expression.Evaluate
import DeskCalc.Json.Plain
import DeskCalc.Json.Reader
import DeskCalc.Json.Writer
import DeskCalc.Main
import DeskCalc.Measure.Category
import DeskCalc.Measure.MixedSum
import DeskCalc.Number.Radix
import DeskCalc.Proofs.Expression.Grammar
import DeskCalc.Query.BaseSum
import DeskCalc.Query.Outcome
import DeskCalc.Query.Resolve
import DeskCalc.Session.Snapshot
import DeskCalc.Session.Submit
import DeskCalc.Settings
import DeskCalc.Shell.Run
import DeskCalc.Store
import DeskCalc.Text.Printable
import DeskCalc.Text.Replace
import DeskCalc.Text.Word
import DeskCalc.Proofs.Expression.Literal
import DeskCalc.Proofs.Expression.Chain
import DeskCalc.Proofs.Expression.Reading
import DeskCalc.Proofs.Number.Doubles
import DeskCalc.Proofs.Number.Nearest
import DeskCalc.Proofs.Number.Arithmetic
import DeskCalc.Proofs.Number.Digits
import DeskCalc.Proofs.Number.Texts
import DeskCalc.Proofs.Query.Answers
import DeskCalc.Proofs.Json.Members
import DeskCalc.Proofs.Query.Rules
import DeskCalc.Proofs.Session.Run
import DeskCalc.Proofs.Session.Safety
import DeskCalc.Proofs.Number.Readback
import DeskCalc.Proofs.Json.Numbers
import DeskCalc.Proofs.Json.Strings
import DeskCalc.Proofs.Json.RoundTrip
import DeskCalc.Proofs.Json.Plain
import DeskCalc.Proofs.Text.Shapes
import DeskCalc.Proofs.Expression.Messages
import DeskCalc.Proofs.Session.Substitution
import DeskCalc.Proofs.Session.Storable
import DeskCalc.Proofs.Session.Reload
import DeskCalc.Proofs.Json.Readable
import DeskCalc.Proofs.Session.Mirror
import DeskCalc.Proofs.Api.Calls
import DeskCalc.Proofs.Settings
import DeskCalc.Proofs.Store.Rows
import DeskCalc.Proofs.Api.Refinement
import DeskCalc.Proofs.Session.Log
import DeskCalc.Proofs.Text.Words
import DeskCalc.Proofs.Expression.Spelling
import DeskCalc.Proofs.Expression.Degrees
import DeskCalc.Proofs.Session.Terms
import DeskCalc.Proofs.Session.Printing
import DeskCalc.Proofs.Session.Splicing
import DeskCalc.Proofs.Query.Characters
import DeskCalc.Proofs.Query.Quantities
import DeskCalc.Proofs.Query.Dimensions
import DeskCalc.Proofs.Query.Telltales
import DeskCalc.Proofs.Session.Queries
import DeskCalc.Proofs.Text.Order
import DeskCalc.Proofs.Session.Variables
import DeskCalc.Proofs.Api.Atomicity
import DeskCalc.Proofs.Json.Refusals
import DeskCalc.Proofs.Session.Restoring
import DeskCalc.Proofs.Shell.Bookkeeping
import DeskCalc.Proofs.Session.Assignments
import DeskCalc.Proofs.Api.Assignments
import DeskCalc.Proofs.Expression.Groups
import DeskCalc.Proofs.Query.Calls
import DeskCalc.Proofs.Session.Calls
import DeskCalc.Proofs.Number.Values
import DeskCalc.Proofs.Expression.Readback
import DeskCalc.Proofs.Number.Fixed
import DeskCalc.Proofs.Session.Integers
import DeskCalc.Proofs.Number.Shown
import DeskCalc.Proofs.Number.Significant
import DeskCalc.Proofs.Number.Conversions
import DeskCalc.Proofs.Number.Sums
import DeskCalc.Proofs.Number.Display
import DeskCalc.Proofs.Number.Fractions
import DeskCalc.Proofs.Query.Numerals
import DeskCalc.Proofs.Session.Numerals
import DeskCalc.Proofs.Number.Integers
import DeskCalc.Proofs.Query.BaseSums
import DeskCalc.Proofs.Query.BaseExpressions
import DeskCalc.Proofs.Measure.Fractions
import DeskCalc.Proofs.Measure.Sums
import DeskCalc.Proofs.Measure.PlainSums
import DeskCalc.Proofs.Query.SumArithmetic
import DeskCalc.Proofs.Query.SumConversions
import DeskCalc.Proofs.Expression.Angles
import DeskCalc.Proofs.Measure.Lookup
import DeskCalc.Proofs.Measure.Pairs
import DeskCalc.Proofs.Query.Arguments
import DeskCalc.Proofs.Query.SumSpacing
import DeskCalc.Proofs.Session.Simultaneous
import DeskCalc.Proofs.Expression.Tables
import DeskCalc.Proofs.Number.Beginnings
import DeskCalc.Proofs.Api.Payloads
import DeskCalc.Proofs.Shell.AnyWorkspace
