import ScriptLang.Store.Basic
import ScriptLang.Text.Shown
import ScriptLang.Value.Display

/-!
What can be seen of a store: the values that were printed, each on a line of its
own, and its scopes for inspection. The text of a scope names what it binds and
what the scopes around it bind, but shows no values: closures can hold the very
scopes that bind them.
-/

namespace ScriptLang

def printedText (order : HashOrder) (vs : List Value) : String :=
  String.join (vs.mapIdx fun i v => v.display (order.inside (.printed i)) ++ "\n")

namespace Store

/-- The values printed after a store was as it was before. -/
def printedSince (before after : Store) : List Value :=
  after.printed.toList.drop before.printed.size

/-- The names that a scope itself binds, in ascending order. -/
def names (st : Store) (s : ScopeId) : List String :=
  match st.scopes[s]? with
  | some scope => (scope.bindings.map Prod.fst).mergeSort fun x y => decide (x ≤ y)
  | none => []

def inspect (st : Store) (s : ScopeId) : String :=
  let outer :=
    match (st.scopes[s]?).bind Scope.outer with
    | none => "None"
    | some outer => if outer < s then "Some(" ++ st.inspect outer ++ ")" else "None"
  "Environment \x7b names: [" ++ Text.separated ", " ((st.names s).map Text.quoted)
    ++ "], outer: " ++ outer ++ " \x7d"
  termination_by s

end Store

end ScriptLang
