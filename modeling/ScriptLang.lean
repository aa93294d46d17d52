import ScriptLang.Diagnostic
import ScriptLang.Journal
import ScriptLang.Text.Backspace
import ScriptLang.Text.Blank
import ScriptLang.Text.BreakClass
import ScriptLang.Text.Decimal
import ScriptLang.Text.Escaped
import ScriptLang.Text.Grapheme
import ScriptLang.Text.Lines
import ScriptLang.Text.Name
import ScriptLang.Token
import ScriptLang.Token.Cursor
import ScriptLang.Syntax.Node
import ScriptLang.Syntax.Printed
import ScriptLang.Syntax.Parser
import ScriptLang.Syntax.Grammar
import ScriptLang.Table
import ScriptLang.Value
import ScriptLang.Scopes
import ScriptLang.FileStore
import ScriptLang.Text.Bytes
import ScriptLang.Host
import ScriptLang.Builtin
import ScriptLang.Builtin.Call
import ScriptLang.Eval.Flow
import ScriptLang.Eval.Operator
import ScriptLang.Eval.Node
import ScriptLang.Session
import ScriptLang.ReadLoop
import ScriptLang.CommandLine
import ScriptLang.Main
import ScriptLang.Proofs.Relined
import ScriptLang.Proofs.Derivation
import ScriptLang.Proofs.Acceptance
import ScriptLang.Proofs.Composition
import ScriptLang.Proofs.Advance
import ScriptLang.Proofs.Lexing
import ScriptLang.Proofs.Soundness
import ScriptLang.Proofs.Language
import ScriptLang.Proofs.Canonical
import ScriptLang.Proofs.Survivors
import ScriptLang.Proofs.Indent
import ScriptLang.Proofs.Lexeme
import ScriptLang.Proofs.Spelling
import ScriptLang.Proofs.RoundTrip
import ScriptLang.Proofs.Grouping
import ScriptLang.Proofs.Faithful
import ScriptLang.Proofs.Spotless
import ScriptLang.Proofs.FixedPoint
import ScriptLang.Proofs.Following
import ScriptLang.Proofs.Running
import ScriptLang.Proofs.Depth
import ScriptLang.Proofs.Displaced
import ScriptLang.Proofs.Layout
import ScriptLang.Proofs.Batch
import ScriptLang.Proofs.Keeping
import ScriptLang.Proofs.ScopeDiscipline
import ScriptLang.Proofs.Roles
import ScriptLang.Proofs.Inside
import ScriptLang.Proofs.Provenance
import ScriptLang.Proofs.Guarantee
import ScriptLang.Proofs.Reporting
import ScriptLang.Proofs.Confinement
import ScriptLang.Proofs.Accounting
import ScriptLang.Proofs.Congruence
import ScriptLang.Proofs.Correspondence
import ScriptLang.Proofs.Visibility
import ScriptLang.Proofs.Tiling
import ScriptLang.Proofs.History
import ScriptLang.Proofs.Handles
import ScriptLang.Proofs.Contents
import ScriptLang.Proofs.CallLimit
import ScriptLang.Proofs.Termination
import ScriptLang.Proofs.EmptyScopes
import ScriptLang.Proofs.BareLoop
import ScriptLang.Proofs.Locality
import ScriptLang.Proofs.Concatenation
import ScriptLang.Proofs.Resumption
import ScriptLang.Proofs.ClosingBrace
import ScriptLang.Proofs.ReadBack
import ScriptLang.Proofs.Bindings
import ScriptLang.Proofs.NestedScope
import ScriptLang.Proofs.Scanning
import ScriptLang.Proofs.Arithmetic
import ScriptLang.Proofs.Listing
import ScriptLang.Proofs.Unread
import ScriptLang.Proofs.Transcript
import ScriptLang.Proofs.BlankLines
