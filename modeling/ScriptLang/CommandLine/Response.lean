import ScriptLang.CommandLine.Request
import ScriptLang.Expr.Printer
import ScriptLang.Repl

/-!
What the commands answer: the text on standard output, the text on standard error
and the exit code. A file with syntax errors is not run, and its errors are all
reported; the listing of its tokens ends at the first one that is no token.
-/

namespace ScriptLang.CommandLine

inductive Status
  | success
  /-- The input cannot be read or is no text. -/
  | unreadable
  | wrongUsage
  | rejected
  | failed
  deriving DecidableEq

def Status.exitCode : Status → UInt32
  | .success => 0
  | .unreadable => 1
  | .wrongUsage => 2
  | .rejected => 65
  | .failed => 70

structure Response where
  status : Status
  output : String
  complaint : String

def nameAndVersion : String := "nishimia 0.1.0"

def usage : String :=
  "The nishimia scripting language\n\n"
    ++ "Usage: nishimia [COMMAND]\n\n"
    ++ "Commands:\n"
    ++ "  tokenize  Print the tokens of a file, one per line\n"
    ++ "  parse     Print a file's syntax tree in canonical form\n"
    ++ "  run       Evaluate a file and print its result\n"
    ++ "  repl      Start the interactive prompt (the default)\n"
    ++ "  help      Print this message or the help of the given subcommand(s)\n\n"
    ++ "Options:\n"
    ++ "  -h, --help     Print help\n"
    ++ "  -V, --version  Print version\n"

def greeting : String := nameAndVersion ++ ", type `exit` to leave\n"

def complaints (reports : List Report) : String :=
  String.join (reports.map fun r => r.line ++ "\n")

/-- Lists the tokens of a source text up to the first error. -/
def listTokens : List Item → Response
  | [] => ⟨.success, TokenKind.endOfInput.name ++ "\n", ""⟩
  | .error e :: _ => ⟨.rejected, "", complaints [e.report]⟩
  | .token t :: rest =>
    let answer := listTokens rest
    { answer with output := t.listing ++ "\n" ++ answer.output }

def printProgram (source : String) : Response :=
  let (program, errors) := parse source
  if errors.isEmpty then ⟨.success, Program.print program ++ "\n", ""⟩
  else ⟨.rejected, "", complaints (errors.map SyntaxError.report)⟩

/-- Runs a source text and prints its value unless that is null. -/
def runProgram (settings : Settings) (source : String) : Response :=
  let (outcome, last) := Interpreter.start.runSource settings source
  let printed := printedText settings.order last.store.printed.toList
  match outcome with
  | .rejected errors => ⟨.rejected, "", complaints (errors.map SyntaxError.report)⟩
  | .finished (.error e) => ⟨.failed, printed, complaints [e.report]⟩
  | .finished .tooManyCalls => ⟨.failed, printed, "the calls are nested too deeply\n"⟩
  | .finished (.value v) =>
    let shown := if v.isNull then "" else v.display settings.order ++ "\n"
    ⟨.success, printed ++ shown, ""⟩

/-- Answers about a file with this content; none if it cannot be read. -/
def onContent (answer : String → Response) (content : Option (List UInt8)) : Response :=
  match content.bind Text.ofBytes? with
  | some source => answer source
  | none => ⟨.unreadable, "", "the file cannot be read as text\n"⟩

/-- Holds a session over an input that is known from the start. -/
def holdSession (settings : Settings) (prompt : String) (input : List UInt8) : Response :=
  let s := Repl.session settings .start (Text.lines input)
  let output := greeting ++ s.transcript settings.order prompt
  match s.ending with
  | .regular => ⟨.success, output, ""⟩
  | .unreadable => ⟨.unreadable, output, "the input cannot be read as text\n"⟩

/-- Answers a request. `file` is the content of a file by its name, and `input` is
the standard input. -/
def respond (settings : Settings) (file : String → Option (List UInt8))
    (input : List UInt8) : Request → Response
  | .version => ⟨.success, nameAndVersion ++ "\n", ""⟩
  | .help => ⟨.success, usage, ""⟩
  | .wrongUsage => ⟨.wrongUsage, "", usage⟩
  | .command (.tokenize name) => onContent (fun source => listTokens (scan source)) (file name)
  | .command (.parse name) => onContent printProgram (file name)
  | .command (.run name) => onContent (runProgram settings) (file name)
  | .command (.repl prompt) => holdSession settings prompt input

end ScriptLang.CommandLine
