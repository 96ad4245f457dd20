import ScriptLang.Text.Shown
import ScriptLang.Value.Display

/-!
Values for inspection: the text shows of each value what it is, and of a hash also
what its entries are filed under. Functions show their parameters only, because
their bodies can be long and their scopes can hold the functions themselves.
-/

namespace ScriptLang

def labelled (name content : String) : String :=
  name ++ "(" ++ content ++ ")"

def HashKey.inspect (h : HashKey) : String :=
  "HashKey \x7b kind: " ++ h.kind.name ++ ", value: " ++ Nat.repr h.value.toNat ++ " \x7d"

def Closure.inspect (f : Closure) : String :=
  labelled "Function" ("Function \x7b params: ["
    ++ Text.separated ", " (f.params.map fun x => labelled "Identifier" (Text.quoted x))
    ++ "], .. \x7d")

def Builtin.inspect (b : Builtin) : String :=
  labelled "Builtin" (labelled "Builtin" (Text.quoted b.name))

def Key.inspect : Key → String
  | .int n => labelled "Integer" (Text.decimal n.toInt)
  | .bool b => labelled "Boolean" (truthText b)
  | .str s => labelled "String" (Text.quoted s)

mutual

def Value.inspect (order : HashOrder) : Value → String
  | .int n => labelled "Integer" (Text.decimal n.toInt)
  | .str s => labelled "String" (Text.quoted s)
  | .bool b => labelled "Boolean" (truthText b)
  | .null => "Null"
  | .func f => f.inspect
  | .builtin b => b.inspect
  | .array vs =>
    labelled "Array" ("[" ++ Text.separated ", " (Value.inspectItems order 0 vs) ++ "]")
  | .hash es =>
    labelled "Hash" ("\x7b" ++ order.listing (Value.inspectEntries order 0 es) ++ "\x7d")

def Value.inspectItems (order : HashOrder) (i : Nat) : List Value → List String
  | [] => []
  | v :: vs => v.inspect (order.inside (.item i)) :: Value.inspectItems order (i + 1) vs

def Value.inspectEntries (order : HashOrder) (i : Nat) :
    List (Key × Value) → List (HashKey × String)
  | [] => []
  | (k, v) :: es =>
    (k.hashKey,
      k.hashKey.inspect ++ ": HashPair \x7b key: " ++ k.inspect ++ ", value: "
        ++ v.inspect (order.inside (.item i)) ++ " \x7d") :: Value.inspectEntries order (i + 1) es

end

end ScriptLang
