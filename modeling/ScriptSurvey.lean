import ScriptSurvey.Import.Rebase
import ScriptSurvey.Main
import ScriptSurvey.Storage.Disk
import ScriptSurvey.Proofs.Lexical.Sealed
import ScriptSurvey.Proofs.Text.Identifier
import ScriptSurvey.Proofs.Lexical.Level
import ScriptSurvey.Proofs.Lexical.Pieces
import ScriptSurvey.Proofs.Argument.Canonical
import ScriptSurvey.Proofs.Argument.Written
import ScriptSurvey.Proofs.Argument.Shapes
import ScriptSurvey.Proofs.Argument.ReadBack
import ScriptSurvey.Proofs.Argument.RoundTrip
import ScriptSurvey.Proofs.Lexical.Automaton
import ScriptSurvey.Proofs.Lexical.Scan
import ScriptSurvey.Proofs.Argument.Balance
import ScriptSurvey.Proofs.Import.Declarations
import ScriptSurvey.Proofs.Import.Comments
import ScriptSurvey.Proofs.Plan.Slots
import ScriptSurvey.Proofs.Plan.Rebuild
import ScriptSurvey.Proofs.Plan.Growth
import ScriptSurvey.Proofs.Plan.Paths
import ScriptSurvey.Proofs.Survey.Directories
import ScriptSurvey.Proofs.Survey.OneModule
import ScriptSurvey.Proofs.Survey.ExportName
import ScriptSurvey.Proofs.Resolution.OneByOne
import ScriptSurvey.Proofs.Resolution.FirstMatch
import ScriptSurvey.Proofs.Call.Parentheses
import ScriptSurvey.Proofs.Plan.Quote
import ScriptSurvey.Proofs.Survey.Accounts
import ScriptSurvey.Proofs.Resolution.Requests
import ScriptSurvey.Proofs.Resolution.Children
import ScriptSurvey.Proofs.Plan.Table
import ScriptSurvey.Proofs.Lexical.Segments
import ScriptSurvey.Proofs.Argument.Chained
import ScriptSurvey.Proofs.Argument.Shorthand
import ScriptSurvey.Proofs.Plan.NamingRule
import ScriptSurvey.Proofs.Plan.Lookup
import ScriptSurvey.Proofs.Call.LookBehind
import ScriptSurvey.Proofs.Call.Tied
import ScriptSurvey.Proofs.Call.Alongside
import ScriptSurvey.Proofs.Call.Comments
import ScriptSurvey.Proofs.Import.Unclosed
import ScriptSurvey.Proofs.Import.RuleForms
import ScriptSurvey.Proofs.Plan.Effects
import ScriptSurvey.Proofs.Path.Follow
import ScriptSurvey.Proofs.Path.Kind
import ScriptSurvey.Proofs.Path.Relative
import ScriptSurvey.Proofs.Import.QuotedNames
import ScriptSurvey.Proofs.Text.Location
import ScriptSurvey.Proofs.Import.Moved
import ScriptSurvey.Proofs.Lexical.Slices
import ScriptSurvey.Proofs.Lexical.Progress
import ScriptSurvey.Proofs.Lexical.Paired
import ScriptSurvey.Proofs.Lexical.ByOffset
import ScriptSurvey.Proofs.Argument.ByOffset
import ScriptSurvey.Proofs.Lexical.Overflow
import ScriptSurvey.Proofs.Import.Words
import ScriptSurvey.Proofs.Call.ByOffset
