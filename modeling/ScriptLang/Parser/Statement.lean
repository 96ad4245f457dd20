import ScriptLang.Expr.Basic
import ScriptLang.Expr.Precedence
import ScriptLang.Parser.Routine

/-!
Statements, blocks and lists. Each routine here is given the routine that reads
an expression at a precedence, so it can be understood without knowing how deeply
expressions are nested at the place where it works.

A loop takes the number of turns it may take; `turns` is always enough, since
each turn uses up at least one token.
-/

namespace ScriptLang.Parse

/-- More turns than a loop over the rest of the source can take. -/
def turns : Parse Nat := return (← get).left + 2

def identifier : Parse String := do
  expect .identifier
  return (← current).literal

def moreParams : Nat → Parse (List String)
  | 0 => pure []
  | n + 1 => do
    if (← nextKind) = .comma then
      advance
      let x ← identifier
      let xs ← moreParams n
      pure (x :: xs)
    else pure []

def params : Parse (List String) := do
  if (← nextKind) = .rightParen then
    advance
    pure []
  else
    let x ← identifier
    let xs ← moreParams (← turns)
    expect .rightParen
    pure (x :: xs)

variable (expr : Precedence → Parse Expr)

def moreExprs : Nat → Parse (List Expr)
  | 0 => pure []
  | n + 1 => do
    if (← nextKind) = .comma then
      advance
      advance
      let e ← expr .lowest
      let es ← moreExprs n
      pure (e :: es)
    else pure []

def exprs (close : TokenKind) : Parse (List Expr) := do
  if (← nextKind) = close then
    advance
    pure []
  else
    advance
    let e ← expr .lowest
    let es ← moreExprs expr (← turns)
    expect close
    pure (e :: es)

/-- One or more keys with their values, with commas between the pairs. -/
def pairs : Nat → Parse (List (Expr × Expr))
  | 0 => pure []
  | n + 1 => do
    advance
    let key ← expr .lowest
    expect .colon
    advance
    let value ← expr .lowest
    if (← nextKind) = .comma then
      advance
      -- Behind a comma there has to be another pair.
      let rest ← pairs n
      pure ((key, value) :: rest)
    else pure [(key, value)]

def hashPairs : Parse (List (Expr × Expr)) := do
  if (← nextKind) = .rightBrace then
    advance
    pure []
  else
    let ps ← pairs expr (← turns)
    expect .rightBrace
    pure ps

/-- A statement. It ends on its last token, which may be a semicolon. -/
def statement : Parse Stmt := do
  match (← current).kind with
  | .var =>
    let x ← identifier
    expect .equal
    advance
    let value ← expr .lowest
    skipSemicolon
    pure (.var x value)
  | .ret =>
    advance
    let value ← expr .lowest
    skipSemicolon
    pure (.ret value)
  | _ =>
    let e ← expr .lowest
    skipSemicolon
    pure (.expr e)

/-- The statements up to a closing brace, and the brace. After a broken statement
reading goes on where the next one may start. -/
def blockRest : Nat → Parse Block
  | 0 => pure []
  | n + 1 => do
    let token ← current
    if token.kind = .rightBrace then pure []
    else if token.kind = .endOfInput then
      fail (.unexpectedToken .rightBrace .endOfInput token.span)
    else
      match ← attempt (statement expr) with
      | some s =>
        advance
        let ss ← blockRest n
        pure (s :: ss)
      | none =>
        -- A closing brace ends the block even if it belongs to the statement that is given up.
        modify Parser.synchronize
        if (← current).kind = .rightBrace then pure []
        else
          advance
          blockRest n

/-- A block, from its opening brace, which is the current token, to its closing
one. -/
def block : Parse Block := do
  advance
  blockRest expr (← turns)

end ScriptLang.Parse
