import ScriptLang.Parser.State

/-!
Parsing routines. A routine reads part of a program and yields its tree. When the
program is broken there, the routine records what is wrong and stops, and so does
every routine that it is a part of, up to the statement that they all belong to.
-/

namespace ScriptLang

/-- Why a routine stopped without a result: what is wrong has been recorded. -/
inductive Stopped
  | recorded
  deriving DecidableEq

/-- A routine of the parser. It leaves a state behind whether it stops or not. -/
abbrev Parse := EStateM Stopped Parser

namespace Parse

def fail {α : Type} (e : SyntaxError) : Parse α := fun p =>
  .error .recorded (p.record e)

def advance : Parse Unit := modify Parser.advance

def current : Parse Token := return (← get).current

def nextKind : Parse TokenKind := return (← get).next.kind

/-- Moves on to the next token, which has to be of this kind. -/
def expect (kind : TokenKind) : Parse Unit := do
  let p ← get
  if p.next.kind = kind then advance
  else fail (.unexpectedToken kind p.next.kind p.next.span)

def skipSemicolon : Parse Unit := do
  if (← nextKind) = .semicolon then advance

def attempt {α : Type} (routine : Parse α) : Parse (Option α) := fun p =>
  match routine p with
  | .ok a q => .ok (some a) q
  | .error _ q => .ok none q

def nested {α : Type} (routine : Parse α) : Parse α := fun p =>
  match routine { p with depth := p.depth + 1 } with
  | .ok a q => .ok a { q with depth := q.depth - 1 }
  | .error e q => .error e { q with depth := q.depth - 1 }

end Parse

end ScriptLang
