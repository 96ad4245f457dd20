import ScriptLang.Store.Basic

/-!
Running. A step of a run reads and changes the store. It ends with a result, or
it stops early: a `return` hands its value to the nearest call around it, an error
ends the whole run, and a run that nests more calls than it may is cut off. What
the step did to the store until then stays done in every case.
-/

namespace ScriptLang

/-- Why a step stopped without a result. -/
inductive Stop
  /-- A `return` with this value is on its way to the call that it ends. -/
  | returned (v : Value)
  | failed (e : RuntimeError)
  /-- The calls are nested too deeply to go on. -/
  | tooManyCalls

abbrev Eval := EStateM Stop Store

namespace Eval

/-- The result of a computation that does not touch the store. -/
def ofExcept {α : Type} : Except RuntimeError α → Eval α
  | .ok a => pure a
  | .error e => throw (.failed e)

def fail {α : Type} (e : RuntimeError) : Eval α := throw (.failed e)

def enclose (s : ScopeId) : Eval ScopeId := fun st =>
  let (new, st') := st.newScope (some s)
  .ok new st'

def define (s : ScopeId) (x : String) (v : Value) : Eval Unit := fun st =>
  match st.define s x v with
  | .ok st' => .ok () st'
  | .error e => .error (.failed e) st

def newClosure (params : List String) (body : Block) (s : ScopeId) : Eval Value := fun st =>
  let (f, st') := st.newClosure params body s
  .ok (.func f) st'

def print (v : Value) : Eval Unit := modify (·.print v)

/-- Runs what a `return` ends. Without a `return` the value is null, whatever the
step itself results in. -/
def untilReturn {α : Type} (step : Eval α) : Eval Value := fun st =>
  match step st with
  | .ok _ st' => .ok .null st'
  | .error (.returned v) st' => .ok v st'
  | .error stop st' => .error stop st'

end Eval

end ScriptLang
