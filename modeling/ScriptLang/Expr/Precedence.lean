import ScriptLang.Expr.Basic
import ScriptLang.Token.Basic

/-!
How tightly operators bind. After a complete expression some tokens go on with
it: a binary operator, the parenthesis that opens the arguments of a call, and
the bracket that opens an index. Each of them has a precedence, and the one with
the higher precedence takes the expression between two of them.
-/

namespace ScriptLang

/-- Binding strengths, weakest first. -/
inductive Precedence
  | lowest
  | logic
  | equality
  | relational
  | sum
  | product
  | unary
  | call
  deriving DecidableEq

def Precedence.level : Precedence → Nat
  | .lowest => 0
  | .logic => 1
  | .equality => 2
  | .relational => 3
  | .sum => 4
  | .product => 5
  | .unary => 6
  | .call => 7

instance : LE Precedence := ⟨fun a b => a.level ≤ b.level⟩

instance : LT Precedence := ⟨fun a b => a.level < b.level⟩

instance (a b : Precedence) : Decidable (a ≤ b) :=
  inferInstanceAs (Decidable (a.level ≤ b.level))

instance (a b : Precedence) : Decidable (a < b) :=
  inferInstanceAs (Decidable (a.level < b.level))

def BinaryOp.precedence : BinaryOp → Precedence
  | .and | .or => .logic
  | .equal | .notEqual => .equality
  | .less | .greater | .lessEqual | .greaterEqual => .relational
  | .plus | .minus => .sum
  | .times | .divide => .product

/-- How a complete expression may go on. -/
inductive Continuation
  | binary (op : BinaryOp)
  | call
  | index
  deriving DecidableEq

def Continuation.precedence : Continuation → Precedence
  | .binary op => op.precedence
  | .call | .index => .call

/-- The continuation that a token announces after a complete expression. -/
def TokenKind.continuation? : TokenKind → Option Continuation
  | .and => some (.binary .and)
  | .or => some (.binary .or)
  | .equalEqual => some (.binary .equal)
  | .bangEqual => some (.binary .notEqual)
  | .less => some (.binary .less)
  | .greater => some (.binary .greater)
  | .lessEqual => some (.binary .lessEqual)
  | .greaterEqual => some (.binary .greaterEqual)
  | .plus => some (.binary .plus)
  | .minus => some (.binary .minus)
  | .star => some (.binary .times)
  | .slash => some (.binary .divide)
  | .leftParen => some .call
  | .leftBracket => some .index
  | _ => none

end ScriptLang
