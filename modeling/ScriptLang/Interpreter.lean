import ScriptLang.Eval.Expr
import ScriptLang.Parser.Program
import ScriptLang.Store.Inspect

/-!
Running programs. A program is run in a scope of a store, and what it bound there
is still bound when the next program is run; so programs can be given one at a
time. A source text is run only if nothing is wrong with it.
-/

namespace ScriptLang

/-- What a run depends on besides the program and the store. -/
structure Settings where
  /-- The order in which texts of hashes list their entries. -/
  order : HashOrder
  /-- How many calls may be nested inside one another. -/
  callDepth : Nat

def Settings.standard : Settings := ⟨HashOrder.byKey, 10000⟩

inductive Outcome
  | value (v : Value)
  | error (e : RuntimeError)
  | tooManyCalls

/-- How a program ends in a scope, and the store after it. The value is that of
its last statement, or of the `return` that ended it. -/
def Program.run (settings : Settings) (s : ScopeId) (p : Program) (st : Store) :
    Outcome × Store :=
  match Stmt.evalBlock (Eval.caller settings.order settings.callDepth) s p st with
  | .ok v st' => (.value v, st')
  | .error (.returned v) st' => (.value v, st')
  | .error (.failed e) st' => (.error e, st')
  | .error .tooManyCalls st' => (.tooManyCalls, st')

inductive SourceOutcome
  | finished (outcome : Outcome)
  /-- Something is wrong with the text, so nothing was run. -/
  | rejected (errors : List SyntaxError)

def runSource (settings : Settings) (s : ScopeId) (source : String) (st : Store) :
    SourceOutcome × Store :=
  let (program, errors) := parse source
  if errors.isEmpty then
    let (outcome, st') := Program.run settings s program st
    (.finished outcome, st')
  else (.rejected errors, st)

/-- A store with the scope that programs are run in. -/
structure Interpreter where
  scope : ScopeId
  store : Store

namespace Interpreter

def start : Interpreter :=
  let (scope, store) := Store.empty.newScope none
  ⟨scope, store⟩

def run (settings : Settings) (i : Interpreter) (p : Program) : Outcome × Interpreter :=
  let (outcome, store) := Program.run settings i.scope p i.store
  (outcome, { i with store := store })

def runSource (settings : Settings) (i : Interpreter) (source : String) :
    SourceOutcome × Interpreter :=
  let (outcome, store) := ScriptLang.runSource settings i.scope source i.store
  (outcome, { i with store := store })

end Interpreter

end ScriptLang
