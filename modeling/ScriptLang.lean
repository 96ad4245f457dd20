import ScriptLang.CommandLine.Request
import ScriptLang.CommandLine.Response
import ScriptLang.Eval.Basic
import ScriptLang.Eval.Builtin
import ScriptLang.Eval.Expr
import ScriptLang.Eval.Operator
import ScriptLang.Expr.Basic
import ScriptLang.Expr.Precedence
import ScriptLang.Expr.Printer
import ScriptLang.Integer
import ScriptLang.Interpreter
import ScriptLang.Main
import ScriptLang.Parser.Program
import ScriptLang.Parser.Routine
import ScriptLang.Parser.State
import ScriptLang.Parser.Statement
import ScriptLang.Proofs.CommandLine.SyntaxErrors
import ScriptLang.Proofs.Eval.Arithmetic
import ScriptLang.Proofs.Eval.Calling
import ScriptLang.Proofs.Eval.Fragment
import ScriptLang.Proofs.Eval.Frame
import ScriptLang.Proofs.Eval.HashLiteral
import ScriptLang.Proofs.Eval.HashOrder
import ScriptLang.Proofs.Eval.Integrity
import ScriptLang.Proofs.Eval.Invariant
import ScriptLang.Proofs.Eval.Lookup
import ScriptLang.Proofs.Eval.Renaming
import ScriptLang.Proofs.Eval.Returning
import ScriptLang.Proofs.Eval.Run
import ScriptLang.Proofs.Eval.Scoping
import ScriptLang.Proofs.Eval.Simulation
import ScriptLang.Proofs.Grammar.Acceptance
import ScriptLang.Proofs.Grammar.Completeness
import ScriptLang.Proofs.Grammar.Nesting
import ScriptLang.Proofs.Grammar.Phrase
import ScriptLang.Proofs.Grammar.Soundness
import ScriptLang.Proofs.Parser.Binding
import ScriptLang.Proofs.Parser.Braces
import ScriptLang.Proofs.Parser.Construction
import ScriptLang.Proofs.Parser.Coupling
import ScriptLang.Proofs.Parser.Discipline
import ScriptLang.Proofs.Parser.Isolation
import ScriptLang.Proofs.Parser.KnownTerminals
import ScriptLang.Proofs.Parser.LaidOut
import ScriptLang.Proofs.Parser.LexicalErrors
import ScriptLang.Proofs.Parser.Lockstep
import ScriptLang.Proofs.Parser.Moves
import ScriptLang.Proofs.Parser.Ordering
import ScriptLang.Proofs.Parser.Outlook
import ScriptLang.Proofs.Parser.OwnBrace
import ScriptLang.Proofs.Parser.Recovery
import ScriptLang.Proofs.Parser.Recursion
import ScriptLang.Proofs.Parser.Relocation
import ScriptLang.Proofs.Parser.Remaining
import ScriptLang.Proofs.Parser.StringLiteral
import ScriptLang.Proofs.Parser.Termination
import ScriptLang.Proofs.Printing.Canonical
import ScriptLang.Proofs.Printing.Limit
import ScriptLang.Proofs.Printing.Printed
import ScriptLang.Proofs.Printing.RoundTrip
import ScriptLang.Proofs.Printing.Spelling
import ScriptLang.Proofs.Session.LineByLine
import ScriptLang.Proofs.Store.Agreement
import ScriptLang.Proofs.Store.Frame
import ScriptLang.Proofs.Store.Handles
import ScriptLang.Proofs.Store.Integrity
import ScriptLang.Proofs.Store.Log
import ScriptLang.Proofs.Store.Lookup
import ScriptLang.Proofs.Store.Renaming
import ScriptLang.Proofs.Text.Lines
import ScriptLang.Proofs.Text.StringUnit
import ScriptLang.Proofs.Token.Layout
import ScriptLang.Proofs.Token.Places
import ScriptLang.Proofs.Token.Scanned
import ScriptLang.Proofs.Token.Seam
import ScriptLang.Proofs.Token.Tiling
import ScriptLang.Proofs.Value.Correspondence
import ScriptLang.Proofs.Value.Equality
import ScriptLang.Proofs.Value.Filing
import ScriptLang.Proofs.Value.Hashing
import ScriptLang.Proofs.Value.Integrity
import ScriptLang.Proofs.Value.LastWins
import ScriptLang.Proofs.Value.Likeness
import ScriptLang.Proofs.Value.Renaming
import ScriptLang.Repl
import ScriptLang.Report
import ScriptLang.RuntimeError
import ScriptLang.Store.Basic
import ScriptLang.Store.Handle
import ScriptLang.Store.Inspect
import ScriptLang.SyntaxError
import ScriptLang.Text.Basic
import ScriptLang.Text.Shown
import ScriptLang.Token.Basic
import ScriptLang.Token.Scan
import ScriptLang.Value.Basic
import ScriptLang.Value.Display
import ScriptLang.Value.Equality
import ScriptLang.Value.Inspect
import ScriptLang.Value.Key
