import ScriptLang.Expr.Basic
import ScriptLang.Report
import ScriptLang.Text.Basic
import ScriptLang.Value.Basic

/-!
Run-time errors: every way in which a running program can fail, and what the user
is told about it. An error that is about a value holds the text of the value.
-/

namespace ScriptLang

inductive RuntimeError
  | unknownIdentifier (name : String)
  | typeMismatch (left : String) (op : BinaryOp) (right : String)
      (leftType rightType : ValueType)
  | unknownUnaryOperator (op : UnaryOp) (operand : String) (type : ValueType)
  | unknownBinaryOperator (left : String) (op : BinaryOp) (right : String)
      (type : ValueType)
  | nonBooleanCondition (value : String) (type : ValueType)
  | arityMismatch (expected got : Nat)
  | notCallable (value : String) (type : ValueType)
  | indexNotSupported (collection index : ValueType)
  | indexOutOfRange (index : Int64) (length : Nat)
  | unhashableKey (type : ValueType)
  | missingKey (key : String)
  | alreadyDefined (name : String)
  | divisionByZero (left : Int64)
  | integerOverflow (expression : String)
  | builtinArgumentCount (builtin : Builtin) (expected got : Nat)
  | builtinArgumentType (builtin : Builtin) (got : ValueType)
  deriving DecidableEq

namespace RuntimeError

def message : RuntimeError → String
  | unknownIdentifier name => "identifier not found: " ++ name
  | typeMismatch left op right leftType rightType =>
    "invalid operation: " ++ left ++ " " ++ op.text ++ " " ++ right
      ++ " (mismatched types " ++ leftType.name ++ " and " ++ rightType.name ++ ")"
  | unknownUnaryOperator op operand type =>
    "invalid operation: " ++ op.text ++ operand
      ++ " (operator \"" ++ op.text ++ "\" not defined on " ++ type.name ++ ")"
  | unknownBinaryOperator left op right type =>
    "invalid operation: " ++ left ++ " " ++ op.text ++ " " ++ right
      ++ " (operator \"" ++ op.text ++ "\" not defined on " ++ type.name ++ ")"
  | nonBooleanCondition value type =>
    "non-boolean condition in if expression: " ++ value ++ " (" ++ type.name ++ ")"
  | arityMismatch expected got =>
    "wrong number of arguments: expected " ++ Nat.repr expected ++ ", got " ++ Nat.repr got
  | notCallable value type => "not a function: " ++ value ++ " (" ++ type.name ++ ")"
  | indexNotSupported collection index =>
    "index operator not supported: " ++ collection.name ++ "[" ++ index.name ++ "]"
  | indexOutOfRange index length =>
    "index out of range [" ++ Text.decimal index.toInt ++ "] with length "
      ++ Nat.repr length
  | unhashableKey type => "unusable as hash key: " ++ type.name
  | missingKey key => "key not found in hash: " ++ key
  | alreadyDefined name => "`" ++ name ++ "` is already defined in this scope"
  | divisionByZero left =>
    "integer division by zero: " ++ Text.decimal left.toInt ++ " / 0"
  | integerOverflow expression => "integer overflow: " ++ expression
  | builtinArgumentCount builtin expected got =>
    "wrong number of arguments to `" ++ builtin.name ++ "`: expected "
      ++ Nat.repr expected ++ ", got " ++ Nat.repr got
  | builtinArgumentType builtin got =>
    "argument to `" ++ builtin.name ++ "` not supported, got " ++ got.name

/-- The code of the kind of error; both sorts of operators share one. -/
def code : RuntimeError → String
  | unknownIdentifier .. => "eval::unknown_identifier"
  | typeMismatch .. => "eval::type_mismatch"
  | unknownUnaryOperator .. => "eval::unknown_operator"
  | unknownBinaryOperator .. => "eval::unknown_operator"
  | nonBooleanCondition .. => "eval::non_boolean_condition"
  | arityMismatch .. => "eval::arity_mismatch"
  | notCallable .. => "eval::not_callable"
  | indexNotSupported .. => "eval::index_not_supported"
  | indexOutOfRange .. => "eval::index_out_of_range"
  | unhashableKey .. => "eval::unhashable_key"
  | missingKey .. => "eval::missing_key"
  | alreadyDefined .. => "eval::already_defined"
  | divisionByZero .. => "eval::division_by_zero"
  | integerOverflow .. => "eval::integer_overflow"
  | builtinArgumentCount .. => "eval::builtin_arity"
  | builtinArgumentType .. => "eval::builtin_argument"

def help : RuntimeError → Option String
  | unknownIdentifier name =>
    some ("declare it first with `var " ++ name ++ " = ...;`")
  | nonBooleanCondition .. =>
    some "conditions are never coerced; compare explicitly, e.g. `x != 0`"
  | unhashableKey .. =>
    some "only INTEGER, BOOLEAN and STRING values can be hash keys"
  | _ => none

/-- What the user is told. A running program has no places, so there are no
labels. -/
def report (e : RuntimeError) : Report :=
  ⟨e.message, e.code, e.help, []⟩

end RuntimeError

end ScriptLang
