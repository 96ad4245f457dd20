import ScriptLang.Interpreter
import ScriptLang.Text.Basic

/-!
Interactive sessions. Each line that the user enters is a program of its own, run
in the scope that all of them share. The session writes a prompt before each line
and after that either the value of the line, unless it is null, or what is wrong
with it. The line `exit` ends the session, and so does a line that is no text.
-/

namespace ScriptLang.Repl

structure Turn where
  printed : List Value
  /-- What the session wrote after that. -/
  written : String

inductive Ending
  /-- With `exit`, or because there are no more lines. -/
  | regular
  /-- At a line that is no text. -/
  | unreadable
  deriving DecidableEq

structure Session where
  turns : List Turn
  ending : Ending
  /-- What is bound in the end. -/
  last : Interpreter

def isExit (line : String) : Bool :=
  Text.trim line = "exit"

def reply (order : HashOrder) : SourceOutcome → String
  | .rejected errors =>
    "Parsing failed:\n" ++ String.join (errors.map fun e => e.report.line ++ "\n")
  | .finished (.value v) => if v.isNull then "" else v.display order ++ "\n"
  | .finished (.error e) => e.report.line ++ "\n"
  | .finished .tooManyCalls => "the calls are nested too deeply\n"

def turn (settings : Settings) (i : Interpreter) (line : String) : Turn × Interpreter :=
  let (outcome, next) := i.runSource settings line
  (⟨i.store.printedSince next.store, reply settings.order outcome⟩, next)

def session (settings : Settings) (i : Interpreter) : List (Option String) → Session
  | [] => ⟨[], .regular, i⟩
  | none :: _ => ⟨[], .unreadable, i⟩
  | some line :: lines =>
    if isExit line then ⟨[], .regular, i⟩
    else
      let (t, next) := turn settings i line
      let rest := session settings next lines
      { rest with turns := t :: rest.turns }

namespace Session

/-- What a session wrote, apart from what its programs printed. -/
def output (prompt : String) (s : Session) : String :=
  prompt ++ String.join (s.turns.map fun t => t.written ++ prompt)

def printed (s : Session) : List Value :=
  s.turns.flatMap Turn.printed

/-- All that appears on the screen in a session. -/
def transcript (order : HashOrder) (prompt : String) (s : Session) : String :=
  prompt ++ String.join (s.turns.map fun t =>
    printedText order t.printed ++ t.written ++ prompt)

end Session

end ScriptLang.Repl
