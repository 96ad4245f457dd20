import ScriptLang.Eval.Basic

/-!
The functions that come with the language. Each of them checks the number of its
arguments first and then their types. Arrays are never changed: a function that
adds or leaves out an item makes a new one.
-/

namespace ScriptLang.Builtin

/-- The argument of a builtin that takes one. -/
def one (b : Builtin) : List Value → Except RuntimeError Value
  | [v] => .ok v
  | vs => .error (.builtinArgumentCount b 1 vs.length)

def two (b : Builtin) : List Value → Except RuntimeError (Value × Value)
  | [v, w] => .ok (v, w)
  | vs => .error (.builtinArgumentCount b 2 vs.length)

def itemsOf (b : Builtin) : Value → Except RuntimeError (List Value)
  | .array items => .ok items
  | v => .error (.builtinArgumentType b v.type)

/-- The number of bytes of a string, of items of an array or of entries of a
hash. -/
def length (vs : List Value) : Except RuntimeError Value := do
  match ← one .len vs with
  | .str s => pure (.int (Int64.ofNat s.utf8ByteSize))
  | .array items => pure (.int (Int64.ofNat items.length))
  | .hash entries => pure (.int (Int64.ofNat entries.length))
  | v => .error (.builtinArgumentType .len v.type)

/-- The first item of an array; null if there is none. -/
def firstItem (vs : List Value) : Except RuntimeError Value := do
  let items ← itemsOf .first (← one .first vs)
  pure (items.head?.getD .null)

def lastItem (vs : List Value) : Except RuntimeError Value := do
  let items ← itemsOf .last (← one .last vs)
  pure (items.getLast?.getD .null)

def otherItems (vs : List Value) : Except RuntimeError Value := do
  match ← itemsOf .rest (← one .rest vs) with
  | [] => pure .null
  | _ :: items => pure (.array items)

def withItem (vs : List Value) : Except RuntimeError Value := do
  let (collection, item) ← two .push vs
  let items ← itemsOf .push collection
  pure (.array (items ++ [item]))

def printAll : List Value → Eval Unit
  | [] => pure ()
  | v :: vs => do
    Eval.print v
    printAll vs

def call : Builtin → List Value → Eval Value
  | .len, vs => Eval.ofExcept (length vs)
  | .first, vs => Eval.ofExcept (firstItem vs)
  | .last, vs => Eval.ofExcept (lastItem vs)
  | .rest, vs => Eval.ofExcept (otherItems vs)
  | .push, vs => Eval.ofExcept (withItem vs)
  | .puts, vs => do
    printAll vs
    pure .null

end ScriptLang.Builtin
