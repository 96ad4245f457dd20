import ScriptLang.RuntimeError
import ScriptLang.Integer
import ScriptLang.Value.Display

/-!
Operators and indexing on values. Arithmetic is exact: a result that is no integer
is an error, and so is division by zero. No value is ever converted to another
type.
-/

namespace ScriptLang

/-- The value of a result of integer arithmetic, which has to be an integer. -/
def exactly (expression : String) (n : Int) : Except RuntimeError Value :=
  match integer? n with
  | some i => .ok (.int i)
  | none => .error (.integerOverflow expression)

def operationText (op : BinaryOp) (l r : Int64) : String :=
  Text.decimal l.toInt ++ " " ++ op.text ++ " " ++ Text.decimal r.toInt

namespace UnaryOp

def apply (order : HashOrder) : UnaryOp → Value → Except RuntimeError Value
  | .not, .bool b => .ok (.bool !b)
  | .not, .null => .ok (.bool true)
  | .minus, .int n => exactly ("-" ++ Text.decimal n.toInt) (-n.toInt)
  | .plus, .int n => .ok (.int n)
  | op, v => .error (.unknownUnaryOperator op (v.display order) v.type)

end UnaryOp

namespace BinaryOp

/-- Applies an operator to two integers; `none` if it is not defined on them.
Division rounds toward zero. -/
def onIntegers? (op : BinaryOp) (l r : Int64) : Option (Except RuntimeError Value) :=
  let text := operationText op l r
  match op with
  | .plus => some (exactly text (l.toInt + r.toInt))
  | .minus => some (exactly text (l.toInt - r.toInt))
  | .times => some (exactly text (l.toInt * r.toInt))
  | .divide =>
    if r = 0 then some (.error (.divisionByZero l))
    else some (exactly text (l.toInt.tdiv r.toInt))
  | .less => some (.ok (.bool (l < r)))
  | .greater => some (.ok (.bool (r < l)))
  | .lessEqual => some (.ok (.bool (l ≤ r)))
  | .greaterEqual => some (.ok (.bool (r ≤ l)))
  | .equal => some (.ok (.bool (l = r)))
  | .notEqual => some (.ok (.bool (l ≠ r)))
  | .and | .or => none

def onBooleans? (op : BinaryOp) (l r : Bool) : Option Bool :=
  match op with
  | .and => some (l && r)
  | .or => some (l || r)
  | .equal => some (l == r)
  | .notEqual => some (l != r)
  | _ => none

def undefinedOn (order : HashOrder) (op : BinaryOp) (l r : Value) : RuntimeError :=
  let left := l.display (order.inside .left)
  let right := r.display (order.inside .right)
  if l.type = r.type then .unknownBinaryOperator left op right l.type
  else .typeMismatch left op right l.type r.type

def apply (order : HashOrder) (op : BinaryOp) (l r : Value) : Except RuntimeError Value :=
  match l, r with
  | .int a, .int b =>
    match op.onIntegers? a b with
    | some result => result
    | none => .error (op.undefinedOn order l r)
  | .bool a, .bool b =>
    match op.onBooleans? a b with
    | some c => .ok (.bool c)
    | none => .error (op.undefinedOn order l r)
  | .str a, .str b =>
    if op = .plus then .ok (.str (a ++ b)) else .error (op.undefinedOn order l r)
  | _, _ => .error (op.undefinedOn order l r)

end BinaryOp

namespace Value

def asKey (v : Value) : Except RuntimeError Key :=
  match v.key? with
  | some k => .ok k
  | none => .error (.unhashableKey v.type)

def itemAt (items : List Value) (i : Int64) : Except RuntimeError Value :=
  let outOfRange := .error (.indexOutOfRange i items.length)
  if i.toInt < 0 then outOfRange
  else
    match items[i.toInt.toNat]? with
    | some v => .ok v
    | none => outOfRange

def entryAt (order : HashOrder) (entries : Table Value) (index : Value) :
    Except RuntimeError Value := do
  let key ← index.asKey
  -- The hash key decides: the key of the entry that is found is not looked at.
  match entries.find? key.hashKey with
  | some (_, v) => .ok v
  | none => .error (.missingKey (index.display order))

def atIndex (order : HashOrder) : Value → Value → Except RuntimeError Value
  | .array items, .int i => itemAt items i
  | .hash entries, index => entryAt order entries index
  | collection, index => .error (.indexNotSupported collection.type index.type)

end Value

end ScriptLang
