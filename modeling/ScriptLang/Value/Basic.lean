import ScriptLang.Expr.Basic
import ScriptLang.Value.Key

/-!
Values: what expressions evaluate to. A function value keeps its parameters and
its body together with the scope it was made in, and it has an identity of its
own; the functions that come with the language are values too.
-/

namespace ScriptLang

/-- Scopes are numbered in the order in which they are made. -/
abbrev ScopeId := Nat

structure Closure where
  /-- Tells this closure from every other one. -/
  id : Nat
  params : List String
  body : Block
  scope : ScopeId
  deriving DecidableEq

inductive Builtin
  | len
  | first
  | last
  | rest
  | push
  | puts
  deriving DecidableEq

def Builtin.name : Builtin → String
  | .len => "len"
  | .first => "first"
  | .last => "last"
  | .rest => "rest"
  | .push => "push"
  | .puts => "puts"

def Builtin.all : List Builtin := [.len, .first, .last, .rest, .push, .puts]

def Builtin.named? (name : String) : Option Builtin :=
  Builtin.all.find? (·.name = name)

inductive Value
  | int (n : Int64)
  | str (s : String)
  | bool (b : Bool)
  /-- What has no other value, such as a declaration. -/
  | null
  | func (f : Closure)
  | builtin (b : Builtin)
  | array (items : List Value)
  /-- The entries have different hash keys. -/
  | hash (entries : List (Key × Value))

instance : Inhabited Value := ⟨.null⟩

inductive ValueType
  | integer
  | string
  | boolean
  | null
  | function
  | builtin
  | array
  | hash
  deriving DecidableEq

def ValueType.name : ValueType → String
  | .integer => "INTEGER"
  | .string => "STRING"
  | .boolean => "BOOLEAN"
  | .null => "NULL"
  | .function => "FUNCTION"
  | .builtin => "BUILTIN"
  | .array => "ARRAY"
  | .hash => "HASH"

namespace Value

def type : Value → ValueType
  | .int _ => .integer
  | .str _ => .string
  | .bool _ => .boolean
  | .null => .null
  | .func _ => .function
  | .builtin _ => .builtin
  | .array _ => .array
  | .hash _ => .hash

def isNull : Value → Bool
  | .null => true
  | _ => false

def key? : Value → Option Key
  | .int n => some (.int n)
  | .bool b => some (.bool b)
  | .str s => some (.str s)
  | _ => none

end Value

def Key.value : Key → Value
  | .int n => .int n
  | .bool b => .bool b
  | .str s => .str s

theorem Value.key?_eq_some_iff {v : Value} {k : Key} :
    v.key? = some k ↔ v = k.value := by
  cases v <;> cases k <;> simp [Value.key?, Key.value]

end ScriptLang
