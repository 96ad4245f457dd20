import ScriptLang.SyntaxError
import ScriptLang.Token.Scan

/-!
The parser at work. It sees two tokens, the current one and the next; further
items are read as it advances, and the lexical errors among them are recorded in
passing, like every other error. `depth` counts the expressions under
construction.

`Parser.left` counts what is still to come after the current token. It never
grows, and it shrinks with every advance that has a token to advance to
(`Parser.left_advance_lt`); this is what ends every loop of the parser.
-/

namespace ScriptLang

structure Parser where
  current : Token
  next : Token
  ahead : List Item
  /-- The length of the source text in bytes. -/
  size : Nat
  /-- The errors so far, in the order in which they were found. -/
  errors : List SyntaxError
  depth : Nat
  deriving DecidableEq

/-- A token that has been read, the lexical errors that were passed on the way to
it, and the items after it. -/
structure Reading where
  passed : List SyntaxError
  token : Token
  rest : List Item
  deriving DecidableEq

/-- A token counts as one, and the end of the input as none. -/
def Token.weight (t : Token) : Nat :=
  if t.kind = .endOfInput then 0 else 1

/-- Reads the next token of the items. Where no token is left it is the end of a
source text of this size. -/
def readToken (size : Nat) : List Item → Reading
  | [] => ⟨[], Token.endAt size, []⟩
  | .token t :: rest => ⟨[], t, rest⟩
  | .error e :: rest =>
    let r := readToken size rest
    { r with passed := .lexical e :: r.passed }

namespace Parser

def advance (p : Parser) : Parser :=
  let r := readToken p.size p.ahead
  { p with
    current := p.next
    next := r.token
    ahead := r.rest
    errors := p.errors ++ r.passed }

def record (e : SyntaxError) (p : Parser) : Parser :=
  { p with errors := p.errors ++ [e] }

/-- The parser before a source text: the first token is the current one. -/
def ofSource (source : String) : Parser :=
  let last := endOf source
  let start : Parser := ⟨last, last, scan source, last.span.start, [], 0⟩
  start.advance.advance

/-- How many items, at most, come after the current token. -/
def left (p : Parser) : Nat :=
  p.ahead.length + p.next.weight

end Parser

theorem Token.weight_le_one (t : Token) : t.weight ≤ 1 := by
  unfold Token.weight
  split <;> omega

theorem length_rest_readToken (size : Nat) (items : List Item) :
    (readToken size items).rest.length + (readToken size items).token.weight ≤
      items.length := by
  induction items with
  | nil => simp [readToken, Token.endAt, Token.weight]
  | cons item items ih =>
      cases item with
      | token t =>
        have := t.weight_le_one
        simp only [readToken, List.length_cons]
        omega
      | error e =>
        simp only [readToken, List.length_cons]
        omega

namespace Parser

theorem left_advance_lt {p : Parser} (h : p.next.kind ≠ .endOfInput) :
    p.advance.left < p.left := by
  have := length_rest_readToken p.size p.ahead
  have : p.next.weight = 1 := if_neg h
  simp only [left, advance]
  omega

theorem left_advance_le (p : Parser) : p.advance.left ≤ p.left := by
  have := length_rest_readToken p.size p.ahead
  simp only [left, advance]
  omega

/-- Skips the rest of a broken statement so that the next one starts afresh. It
stops on a semicolon or a closing brace, or before a closing brace, and so never
steps over one. -/
def synchronize (p : Parser) : Parser :=
  if p.current.kind = .semicolon ∨ p.current.kind = .rightBrace ∨
      p.current.kind = .endOfInput ∨ p.next.kind = .rightBrace ∨
      p.next.kind = .endOfInput then p
  else p.advance.synchronize
  termination_by p.left
  decreasing_by
    rename_i h
    exact left_advance_lt fun e => h (.inr (.inr (.inr (.inr e))))

end Parser

end ScriptLang
