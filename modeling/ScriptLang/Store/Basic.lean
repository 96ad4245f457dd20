import ScriptLang.RuntimeError

/-!
Scopes and what else a running program changes. A scope binds names to values,
each name once and for all, and may lie inside an outer scope; a name that a scope
does not bind is looked up outward from there. Scopes are shared: a closure keeps
the number of its scope, and sees what is bound there later on.

Scopes are numbered as they are made, so an outer scope has a smaller number than
the scopes inside it. Looking a name up goes outward as long as the numbers fall.
-/

namespace ScriptLang

structure Scope where
  outer : Option ScopeId
  /-- Names with their values; the latest is in front. -/
  bindings : List (String × Value)

/-- What a running program has made and printed so far. -/
structure Store where
  scopes : Array Scope
  /-- How many closures have been made. -/
  closures : Nat
  printed : Array Value

/-- The value that a scope itself binds to a name. -/
def Scope.value? (scope : Scope) (x : String) : Option Value :=
  scope.bindings.lookup x

namespace Store

def empty : Store := ⟨#[], 0, #[]⟩

def newScope (outer : Option ScopeId) (st : Store) : ScopeId × Store :=
  (st.scopes.size, { st with scopes := st.scopes.push ⟨outer, []⟩ })

def local? (st : Store) (s : ScopeId) (x : String) : Option Value := do
  (← st.scopes[s]?).value? x

/-- The value of a name in a scope: the one that the nearest scope binds to it,
from this one outward. -/
def get? (st : Store) (s : ScopeId) (x : String) : Option Value :=
  match st.scopes[s]? with
  | none => none
  | some scope =>
    match scope.value? x, scope.outer with
    | some v, _ => some v
    | none, none => none
    | none, some outer => if outer < s then st.get? outer x else none
  termination_by s

/-- Binds a name in a scope. A name that the scope binds already keeps its value,
and the attempt fails; what outer scopes bind does not matter. -/
def define (st : Store) (s : ScopeId) (x : String) (v : Value) :
    Except RuntimeError Store :=
  match st.local? s x with
  | some _ => .error (.alreadyDefined x)
  | none =>
    .ok { st with
      scopes := st.scopes.modify s fun scope =>
        { scope with bindings := (x, v) :: scope.bindings } }

def print (st : Store) (v : Value) : Store :=
  { st with printed := st.printed.push v }

/-- Makes a closure that differs from every one made before. -/
def newClosure (params : List String) (body : Block) (s : ScopeId) (st : Store) :
    Closure × Store :=
  (⟨st.closures, params, body, s⟩, { st with closures := st.closures + 1 })

end Store

end ScriptLang
