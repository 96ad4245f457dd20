/-!
Tokens. A token has a kind, the source text it stands for and the span of that
text. Where the text fits no kind of token there is a lexical error instead, and
reading goes on after it; an `Item` is either of the two.

Offsets and lengths count the bytes of the UTF-8 encoding, so a span names the same
place to every reader of the text.
-/

namespace ScriptLang

/-! ### Places -/

def byteLength : List Char → Nat
  | [] => 0
  | c :: cs => c.utf8Size + byteLength cs

@[simp] theorem byteLength_nil : byteLength [] = 0 := rfl

@[simp] theorem byteLength_cons (c : Char) (cs : List Char) :
    byteLength (c :: cs) = c.utf8Size + byteLength cs := rfl

@[simp] theorem byteLength_append (as bs : List Char) :
    byteLength (as ++ bs) = byteLength as + byteLength bs := by
  induction as with
  | nil => simp
  | cons c cs ih =>
      rw [List.cons_append, byteLength_cons, byteLength_cons, ih, Nat.add_assoc]

/-- A stretch of source text: the offset of its first byte and its length. -/
structure Span where
  start : Nat
  length : Nat
  deriving DecidableEq

/-- The offset just after the last byte. -/
def Span.stop (s : Span) : Nat := s.start + s.length

/-! ### Kinds and tokens -/

inductive TokenKind
  | leftParen
  | rightParen
  | leftBrace
  | rightBrace
  | leftBracket
  | rightBracket
  | comma
  | semicolon
  | colon
  | minus
  | plus
  | star
  | slash
  | bang
  | bangEqual
  | equal
  | equalEqual
  | greater
  | greaterEqual
  | less
  | lessEqual
  | and
  | or
  | string
  | identifier
  | int
  | var
  | func
  | ret
  | ifWord
  | elseWord
  | trueWord
  | falseWord
  | endOfInput
  deriving DecidableEq

def TokenKind.name : TokenKind → String
  | .leftParen => "LEFT_PAREN"
  | .rightParen => "RIGHT_PAREN"
  | .leftBrace => "LEFT_BRACE"
  | .rightBrace => "RIGHT_BRACE"
  | .leftBracket => "LEFT_BRACKET"
  | .rightBracket => "RIGHT_BRACKET"
  | .comma => "COMMA"
  | .semicolon => "SEMICOLON"
  | .colon => "COLON"
  | .minus => "MINUS"
  | .plus => "PLUS"
  | .star => "STAR"
  | .slash => "SLASH"
  | .bang => "BANG"
  | .bangEqual => "BANG_EQUAL"
  | .equal => "EQUAL"
  | .equalEqual => "EQUAL_EQUAL"
  | .greater => "GREATER"
  | .greaterEqual => "GREATER_EQUAL"
  | .less => "LESS"
  | .lessEqual => "LESS_EQUAL"
  | .and => "AND"
  | .or => "OR"
  | .string => "STRING"
  | .identifier => "IDENTIFIER"
  | .int => "INT"
  | .var => "VAR"
  | .func => "FUNC"
  | .ret => "RETURN"
  | .ifWord => "IF"
  | .elseWord => "ELSE"
  | .trueWord => "TRUE"
  | .falseWord => "FALSE"
  | .endOfInput => "EOF"

/-- One token. The literal of a string is the raw text between its quotes; every
other literal is the whole text of the span. -/
structure Token where
  kind : TokenKind
  literal : String
  span : Span
  deriving DecidableEq

/-- The token after the last one of a text with so many bytes. -/
def Token.endAt (offset : Nat) : Token := ⟨.endOfInput, "", ⟨offset, 0⟩⟩

/-- The line that lists a token: its kind, then its literal. -/
def Token.listing (t : Token) : String :=
  match t.kind with
  | .string => t.kind.name ++ " \"" ++ t.literal ++ "\""
  | .endOfInput => t.kind.name
  | _ => t.kind.name ++ " " ++ t.literal

inductive LexicalError
  | unexpectedCharacter (c : Char) (span : Span)
  | unterminatedString (span : Span)
  deriving DecidableEq

def LexicalError.span : LexicalError → Span
  | .unexpectedCharacter _ span => span
  | .unterminatedString span => span

/-- What reading a source text yields, one after another. -/
inductive Item
  | token (t : Token)
  | error (e : LexicalError)
  deriving DecidableEq

def Item.span : Item → Span
  | .token t => t.span
  | .error e => e.span

end ScriptLang
