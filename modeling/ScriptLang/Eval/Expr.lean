import ScriptLang.Eval.Builtin
import ScriptLang.Eval.Operator

/-!
Evaluation. Expressions are evaluated in a scope, operands and arguments from left
to right, and both operands of every operator. A block has no scope of its own: it
binds names in the scope around it, and its value is that of its last statement.

Evaluation follows the tree of the program, and only a call goes on to another
tree. So the definitions on trees are given the function that calls a closure
(`Caller`), and `Eval.call` ties the knot: it counts the calls that may still be
nested inside one another.
-/

namespace ScriptLang

/-- What the evaluation of a tree depends on besides the tree: the order in which
texts of hashes list their entries, and how closures are called. -/
structure Caller where
  order : HashOrder
  call : Closure → List Value → Eval Value

/-- The value of a name in a scope. Where no scope binds it, it may be the name of
a builtin. -/
def Eval.lookUp (s : ScopeId) (x : String) : Eval Value := do
  match (← get).get? s x with
  | some v => pure v
  | none =>
    match Builtin.named? x with
    | some b => pure (.builtin b)
    | none => Eval.fail (.unknownIdentifier x)

mutual

def Expr.eval (c : Caller) (s : ScopeId) : Expr → Eval Value
  | .name x => Eval.lookUp s x
  | .int n => pure (.int n)
  | .str t => pure (.str t)
  | .bool b => pure (.bool b)
  | .unary op e => do
    let v ← e.eval c s
    Eval.ofExcept (op.apply c.order v)
  | .binary op l r => do
    -- Both operands are evaluated, also those of `&&` and `||`.
    let v ← l.eval c s
    let w ← r.eval c s
    Eval.ofExcept (op.apply c.order v w)
  | .cond e consequence alternative => do
    match ← e.eval c s with
    -- A branch is run in the scope around the conditional: only calls make scopes.
    | .bool true => Stmt.evalBlock c s consequence
    | .bool false =>
      match alternative with
      | some block => Stmt.evalBlock c s block
      | none => pure .null
    | v => Eval.fail (.nonBooleanCondition (v.display c.order) v.type)
  | .func params body => Eval.newClosure params body s
  | .call e arguments => do
    match ← e.eval c s with
    | .builtin b => do
      let vs ← Expr.evalEach c s arguments
      b.call vs
    | .func f =>
      -- The number of arguments is checked before any of them is evaluated.
      if f.params.length = arguments.length then do
        let vs ← Expr.evalEach c s arguments
        c.call f vs
      else Eval.fail (.arityMismatch f.params.length arguments.length)
    | v => Eval.fail (.notCallable (v.display c.order) v.type)
  | .array items => do
    let vs ← Expr.evalEach c s items
    pure (.array vs)
  | .index e i => do
    let collection ← e.eval c s
    let index ← i.eval c s
    Eval.ofExcept (Value.atIndex c.order collection index)
  | .hash pairs => do
    let entries ← Expr.evalPairs c s pairs []
    pure (.hash entries)

def Expr.evalEach (c : Caller) (s : ScopeId) : List Expr → Eval (List Value)
  | [] => pure []
  | e :: es => do
    let v ← e.eval c s
    let vs ← Expr.evalEach c s es
    pure (v :: vs)

/-- The entries of a hash, from left to right, added to those of the pairs before
them. A key is checked before its value is evaluated. -/
def Expr.evalPairs (c : Caller) (s : ScopeId) :
    List (Expr × Expr) → Table Value → Eval (Table Value)
  | [], entries => pure entries
  | (k, e) :: pairs, entries => do
    let v ← k.eval c s
    let key ← Eval.ofExcept v.asKey
    let value ← e.eval c s
    Expr.evalPairs c s pairs (entries.insert key value)

/-- Runs a statement. A declaration has the value null. -/
def Stmt.eval (c : Caller) (s : ScopeId) : Stmt → Eval Value
  | .var x e => do
    let v ← e.eval c s
    Eval.define s x v
    pure .null
  | .ret e => do
    let v ← e.eval c s
    throw (.returned v)
  | .expr e => e.eval c s

/-- Runs the statements of a block. The value is that of the last one; a block
without statements has the value null. -/
def Stmt.evalBlock (c : Caller) (s : ScopeId) : List Stmt → Eval Value
  | [] => pure .null
  | [stmt] => stmt.eval c s
  | stmt :: next :: block => do
    let _ ← stmt.eval c s
    Stmt.evalBlock c s (next :: block)

end

namespace Eval

def bindParams (s : ScopeId) : List String → List Value → Eval Unit
  | x :: xs, v :: vs => do
    define s x v
    bindParams s xs vs
  | _, _ => pure ()

/-- Calls a closure: its body runs in a new scope inside the one that the closure
was made in. At most `depth` calls, this one included, may be nested. -/
def call (order : HashOrder) (depth : Nat) (f : Closure) (arguments : List Value) :
    Eval Value :=
  match depth with
  | 0 => throw .tooManyCalls
  | depth + 1 => do
    let s ← enclose f.scope
    bindParams s f.params arguments
    untilReturn (Stmt.evalBlock ⟨order, call order depth⟩ s f.body)

/-- How a tree is evaluated when at most `depth` calls may be nested. -/
def caller (order : HashOrder) (depth : Nat) : Caller :=
  ⟨order, call order depth⟩

end Eval

end ScriptLang
