import ScriptLang.Integer
import ScriptLang.Parser.Statement
import ScriptLang.Text.Basic

/-!
Expressions and whole programs. An expression at a precedence is a primary
expression with all the continuations after it that bind more tightly than that.
The operand to the right of a binary operator is an expression at the precedence
of the operator, so operators of one precedence group to the left.

Every expression is read one level deeper than the one it is a part of, and there
are `maxNesting` levels.

In a program a broken statement is left out, what is wrong with it is recorded,
and parsing goes on with the statement after it; so one pass over a source text
finds the errors of all its statements.
-/

namespace ScriptLang

namespace Parse

section

variable (expr : Precedence → Parse Expr)

/-- The operand of a unary operator, which is the current token. -/
def unary (op : UnaryOp) : Parse Expr := do
  advance
  let operand ← expr .unary
  pure (.unary op operand)

/-- An expression in parentheses, from the opening one on. -/
def grouped : Parse Expr := do
  advance
  let e ← expr .lowest
  expect .rightParen
  pure e

def conditional : Parse Expr := do
  advance
  let condition ← expr .lowest
  expect .leftBrace
  let consequence ← block expr
  if (← nextKind) = .elseWord then
    advance
    expect .leftBrace
    let alternative ← block expr
    pure (.cond condition consequence (some alternative))
  else pure (.cond condition consequence none)

def function : Parse Expr := do
  expect .leftParen
  let xs ← params
  expect .leftBrace
  let body ← block expr
  pure (.func xs body)

/-- An expression without the continuations after it. -/
def primary : Parse Expr := do
  let token ← current
  match token.kind with
  | .identifier => pure (.name token.literal)
  | .int =>
    match integer? (Text.readDecimal token.literal) with
    | some n => pure (.int n)
    | none => fail (.integerTooLarge token.literal token.span)
  | .string => pure (.str (String.ofList (Text.unescape token.literal.toList)))
  | .trueWord => pure (.bool true)
  | .falseWord => pure (.bool false)
  | .bang => unary expr .not
  | .minus => unary expr .minus
  | .plus => unary expr .plus
  | .leftParen => grouped expr
  | .ifWord => conditional expr
  | .func => function expr
  | .leftBracket =>
    let items ← exprs expr .rightBracket
    pure (.array items)
  | .leftBrace =>
    let ps ← hashPairs expr
    pure (.hash ps)
  | kind => fail (.noExpression kind token.span)

/-- An expression together with the continuation that the current token
announces. -/
def continued (left : Expr) : Continuation → Parse Expr
  | .binary op => do
    advance
    let right ← expr op.precedence
    pure (.binary op left right)
  | .call => do
    let arguments ← exprs expr .rightParen
    pure (.call left arguments)
  | .index => do
    advance
    let index ← expr .lowest
    expect .rightBracket
    pure (.index left index)

/-- An expression together with all the continuations after it that bind more
tightly than `min`. -/
def continuations (min : Precedence) : Nat → Expr → Parse Expr
  | 0, left => pure left
  | n + 1, left => do
    match (← nextKind).continuation? with
    | none => pure left
    | some k =>
      if k.precedence ≤ min then pure left
      else
        advance
        let longer ← continued expr left k
        continuations min n longer

def operators (min : Precedence) : Parse Expr := do
  let left ← primary expr
  continuations expr min (← turns) left

end

/-- An expression at a precedence, with room for so many expressions inside one
another. -/
def expressionWithin : Nat → Precedence → Parse Expr
  | 0, _ => do fail (.tooDeeplyNested (← current).span)
  | room + 1, min => nested (operators (expressionWithin room) min)

def expression (min : Precedence) : Parse Expr := do
  expressionWithin (maxNesting - (← get).depth) min

end Parse

/-- The statements from the current token on, in at most so many turns. -/
def Parser.statements : Nat → Parser → Program × Parser
  | 0, p => ([], p)
  | n + 1, p =>
    if p.current.kind = .endOfInput then ([], p)
    else
      match Parse.statement Parse.expression p with
      | .ok s q =>
        let (ss, last) := Parser.statements n q.advance
        (s :: ss, last)
      | .error _ q => Parser.statements n q.synchronize.advance

def Parser.program (p : Parser) : Program × List SyntaxError :=
  let (ss, last) := p.statements (p.left + 2)
  (ss, last.errors)

/-- The program that a source text stands for, and everything that is wrong with
the text. A program is meant to be run only if nothing is. -/
def parse (source : String) : Program × List SyntaxError :=
  (Parser.ofSource source).program

end ScriptLang
