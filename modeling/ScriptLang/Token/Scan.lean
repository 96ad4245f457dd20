import ScriptLang.Text.Basic
import ScriptLang.Token.Basic

/-!
Reading a source text. First it is cut into pieces: each of them is layout (white
space or a comment), a token, or text that is no token, and the pieces follow one
another without gap or overlap, so their texts together are the source
(`flatMap_text_pieces`). Which sort the next piece is, and how many characters
belong to it, depends on its first character and on what follows (`lead`). Every
piece takes as many characters as its sort allows.

Then the pieces are given their places and layout is left out. A lexical error
takes its place among the tokens, and reading goes on after it.
-/

namespace ScriptLang

inductive PieceSort
  /-- White space or a comment. -/
  | layout
  | token (kind : TokenKind)
  | stray (c : Char)
  /-- A string without its closing quote; it takes the rest of the source. -/
  | openString
  deriving DecidableEq

/-- A stretch of source text of one sort. -/
structure Piece where
  sort : PieceSort
  text : List Char
  deriving DecidableEq

/-- The tokens that are one character whatever follows it. -/
def punctuation? : Char → Option TokenKind
  | '(' => some .leftParen
  | ')' => some .rightParen
  | '\x7b' => some .leftBrace
  | '\x7d' => some .rightBrace
  | '[' => some .leftBracket
  | ']' => some .rightBracket
  | ',' => some .comma
  | ';' => some .semicolon
  | ':' => some .colon
  | '-' => some .minus
  | '+' => some .plus
  | '*' => some .star
  | _ => none

/-- The tokens that one character makes alone, and that it makes with an equals
sign after it. -/
def comparison? : Char → Option (TokenKind × TokenKind)
  | '!' => some (.bang, .bangEqual)
  | '=' => some (.equal, .equalEqual)
  | '>' => some (.greater, .greaterEqual)
  | '<' => some (.less, .lessEqual)
  | _ => none

/-- The tokens that are one character written twice. -/
def doubled? : Char → Option TokenKind
  | '&' => some .and
  | '|' => some .or
  | _ => none

def isWordStart (c : Char) : Bool := c.isAlpha || c == '_'

def isWordPart (c : Char) : Bool := c.isAlphanum || c == '_'

/-- A word is a keyword or else an identifier. -/
def wordKind (word : List Char) : TokenKind :=
  match String.ofList word with
  | "var" => .var
  | "func" => .func
  | "return" => .ret
  | "if" => .ifWord
  | "else" => .elseWord
  | "true" => .trueWord
  | "false" => .falseWord
  | _ => .identifier

/-- The sort of the piece that starts with `c`, and how many of the characters
`cs` after `c` belong to it. -/
def lead (c : Char) (cs : List Char) : PieceSort × Nat :=
  if let some kind := punctuation? c then (.token kind, 0)
  else if let some (alone, withEqual) := comparison? c then
    if cs.head? = some '=' then (.token withEqual, 1) else (.token alone, 0)
  else if let some kind := doubled? c then
    -- One half of a doubled sign is no token.
    if cs.head? = some c then (.token kind, 1) else (.stray c, 0)
  else if c = '/' then
    if cs.head? = some '/' then (.layout, (cs.takeWhile (· != '\n')).length)
    else (.token .slash, 0)
  else if c = '"' then
    match Text.closingQuote? cs with
    | some n => (.token .string, n + 1)
    | none => (.openString, cs.length)
  else if isWordStart c then
    let more := cs.takeWhile isWordPart
    (.token (wordKind (c :: more)), more.length)
  else if c.isDigit then (.token .int, (cs.takeWhile Char.isDigit).length)
  else if Text.isBlank c then (.layout, 0)
  else (.stray c, 0)

def pieces : List Char → List Piece
  | [] => []
  | c :: cs =>
    let (sort, more) := lead c cs
    ⟨sort, c :: cs.take more⟩ :: pieces (cs.drop more)
  termination_by source => source.length
  decreasing_by simp only [List.length_drop, List.length_cons]; omega

@[simp] theorem pieces_nil : pieces [] = [] := by
  rw [pieces]

theorem pieces_cons (c : Char) (cs : List Char) :
    pieces (c :: cs) =
      ⟨(lead c cs).1, c :: cs.take (lead c cs).2⟩ :: pieces (cs.drop (lead c cs).2) := by
  rw [pieces]

/-- The texts of the pieces make up the source. -/
theorem flatMap_text_pieces (source : List Char) :
    (pieces source).flatMap Piece.text = source := by
  induction source using pieces.induct with
  | case1 => simp
  | case2 c cs sort more h ih =>
      have hmore : (lead c cs).2 = more := by rw [h]
      rw [pieces_cons, List.flatMap_cons, hmore, ih]
      simp

/-- The literal of a token of some kind with this text: a string loses its two
quotes. -/
def TokenKind.literal (kind : TokenKind) (text : List Char) : String :=
  match kind with
  | .string => String.ofList text.tail.dropLast
  | _ => String.ofList text

/-- The item that a piece at an offset stands for; layout stands for none. -/
def Piece.item? (p : Piece) (start : Nat) : Option Item :=
  let span : Span := ⟨start, byteLength p.text⟩
  match p.sort with
  | .layout => none
  | .token kind => some (.token ⟨kind, kind.literal p.text, span⟩)
  | .stray c => some (.error (.unexpectedCharacter c span))
  | .openString => some (.error (.unterminatedString span))

def itemsFrom (start : Nat) : List Piece → List Item
  | [] => []
  | p :: ps =>
    match p.item? start with
    | some item => item :: itemsFrom (start + byteLength p.text) ps
    | none => itemsFrom (start + byteLength p.text) ps

def scan (source : String) : List Item :=
  itemsFrom 0 (pieces source.toList)

def endOf (source : String) : Token :=
  Token.endAt (byteLength source.toList)

theorem Piece.span_of_item? {p : Piece} {start : Nat} {item : Item}
    (h : p.item? start = some item) :
    item.span = ⟨start, byteLength p.text⟩ := by
  unfold Piece.item? at h
  split at h
  · contradiction
  all_goals
    obtain rfl := Option.some.inj h
    rfl

end ScriptLang
