import Mathlib.Order.Nat
import ScriptLang.Expr.Precedence
import ScriptLang.Integer
import ScriptLang.SyntaxError
import ScriptLang.Text.Basic
import ScriptLang.Token.Scan

/-!
The surface grammar. A `Phrase` is an expression as it is written and a
`Sentence` is a statement as it is written: their trees are the derivation trees
of the grammar, with every pair of parentheses and every semicolon in its place.

Four functions read a derivation off. Its `yield` is the row of terminals that it
derives, its `tree` is what the text means, its `depth` counts the expressions
that are under construction at one time when it is read, and `WellFormed` holds
the conditions that make the grammar unambiguous. There are three of them. An
operator binds its operands by precedence, which compares the `binding` of the
operand with the precedence of the operator. A sentence that no semicolon ends is
not followed by a token that would go on with its expression. And a row of digits
denotes an integer.
-/

namespace ScriptLang

/-! ### Terminals -/

/-- What the grammar sees of a token: names, numbers and strings come with their
text, and every other kind of token is a symbol. -/
inductive Terminal
  | name (x : String)
  | int (digits : String)
  | str (raw : String)
  | symbol (kind : TokenKind)
  deriving DecidableEq

def Terminal.kind : Terminal → TokenKind
  | .name _ => .identifier
  | .int _ => .int
  | .str _ => .string
  | .symbol kind => kind

def Token.terminal (t : Token) : Terminal :=
  match t.kind with
  | .identifier => .name t.literal
  | .int => .int t.literal
  | .string => .str t.literal
  | kind => .symbol kind

/-- The terminal that an item stands for; a lexical error stands for none. -/
def Item.terminal? : Item → Option Terminal
  | .token t => some t.terminal
  | .error _ => none

@[simp] theorem Token.kind_terminal (t : Token) : t.terminal.kind = t.kind := by
  unfold Token.terminal
  split <;> simp_all [Terminal.kind]

def terminals (source : String) : List Terminal :=
  (scan source).filterMap Item.terminal?

/-! ### Derivations -/

mutual

/-- An expression as it is written. -/
inductive Phrase
  | name (x : String)
  /-- A row of digits and the integer that it denotes. -/
  | int (digits : String) (n : Int64)
  | str (raw : String)
  | bool (b : Bool)
  | paren (inner : Phrase)
  | unary (op : UnaryOp) (operand : Phrase)
  | binary (op : BinaryOp) (left right : Phrase)
  | cond (condition : Phrase) (consequence : List Sentence)
      (alternative : Option (List Sentence))
  | func (params : List String) (body : List Sentence)
  | call (callee : Phrase) (arguments : List Phrase)
  | array (items : List Phrase)
  | index (collection index : Phrase)
  | hash (pairs : List (Phrase × Phrase))

/-- A statement as it is written; the flag says whether a semicolon ends it. -/
inductive Sentence
  | var (x : String) (value : Phrase) (semicolon : Bool)
  | ret (value : Phrase) (semicolon : Bool)
  | expr (e : Phrase) (semicolon : Bool)

end

def Sentence.semicolon : Sentence → Bool
  | .var _ _ semicolon | .ret _ semicolon | .expr _ semicolon => semicolon

def UnaryOp.kind : UnaryOp → TokenKind
  | .not => .bang
  | .minus => .minus
  | .plus => .plus

def BinaryOp.kind : BinaryOp → TokenKind
  | .plus => .plus
  | .minus => .minus
  | .times => .star
  | .divide => .slash
  | .less => .less
  | .greater => .greater
  | .lessEqual => .lessEqual
  | .greaterEqual => .greaterEqual
  | .equal => .equalEqual
  | .notEqual => .bangEqual
  | .and => .and
  | .or => .or

def truthKind (b : Bool) : TokenKind :=
  if b then .trueWord else .falseWord

def ending (semicolon : Bool) : List Terminal :=
  if semicolon then [.symbol .semicolon] else []

/-- The names after a parameter, each behind a comma. -/
def yieldMoreNames : List String → List Terminal
  | [] => []
  | x :: xs => .symbol .comma :: .name x :: yieldMoreNames xs

def yieldNames : List String → List Terminal
  | [] => []
  | x :: xs => .name x :: yieldMoreNames xs

mutual

/-- The row of terminals that a phrase derives. -/
def Phrase.yield : Phrase → List Terminal
  | .name x => [.name x]
  | .int digits _ => [.int digits]
  | .str raw => [.str raw]
  | .bool b => [.symbol (truthKind b)]
  | .paren e => .symbol .leftParen :: (e.yield ++ [.symbol .rightParen])
  | .unary op e => .symbol op.kind :: e.yield
  | .binary op l r => l.yield ++ .symbol op.kind :: r.yield
  | .cond c t e =>
    .symbol .ifWord :: (c.yield ++ .symbol .leftBrace :: (Sentence.yieldAll t ++
      .symbol .rightBrace :: Sentence.yieldElse e))
  | .func xs b =>
    .symbol .func :: .symbol .leftParen :: (yieldNames xs ++ .symbol .rightParen ::
      .symbol .leftBrace :: (Sentence.yieldAll b ++ [.symbol .rightBrace]))
  | .call f es =>
    f.yield ++ .symbol .leftParen :: (Phrase.yieldEach es ++ [.symbol .rightParen])
  | .array es => .symbol .leftBracket :: (Phrase.yieldEach es ++ [.symbol .rightBracket])
  | .index c i => c.yield ++ .symbol .leftBracket :: (i.yield ++ [.symbol .rightBracket])
  | .hash ps => .symbol .leftBrace :: (Phrase.yieldPairs ps ++ [.symbol .rightBrace])

def Phrase.yieldEach : List Phrase → List Terminal
  | [] => []
  | e :: es => e.yield ++ Phrase.yieldMore es

def Phrase.yieldMore : List Phrase → List Terminal
  | [] => []
  | e :: es => .symbol .comma :: (e.yield ++ Phrase.yieldMore es)

def Phrase.yieldPairs : List (Phrase × Phrase) → List Terminal
  | [] => []
  | (k, v) :: ps => k.yield ++ .symbol .colon :: (v.yield ++ Phrase.yieldMorePairs ps)

def Phrase.yieldMorePairs : List (Phrase × Phrase) → List Terminal
  | [] => []
  | (k, v) :: ps =>
    .symbol .comma :: (k.yield ++ .symbol .colon :: (v.yield ++ Phrase.yieldMorePairs ps))

def Sentence.yield : Sentence → List Terminal
  | .var x e semicolon =>
    .symbol .var :: .name x :: .symbol .equal :: (e.yield ++ ending semicolon)
  | .ret e semicolon => .symbol .ret :: (e.yield ++ ending semicolon)
  | .expr e semicolon => e.yield ++ ending semicolon

def Sentence.yieldAll : List Sentence → List Terminal
  | [] => []
  | s :: ss => s.yield ++ Sentence.yieldAll ss

def Sentence.yieldElse : Option (List Sentence) → List Terminal
  | none => []
  | some e =>
    .symbol .elseWord :: .symbol .leftBrace :: (Sentence.yieldAll e ++ [.symbol .rightBrace])

end

mutual

/-- The expression that a phrase stands for: parentheses only group. -/
def Phrase.tree : Phrase → Expr
  | .name x => .name x
  | .int _ n => .int n
  | .str raw => .str (String.ofList (Text.unescape raw.toList))
  | .bool b => .bool b
  | .paren e => e.tree
  | .unary op e => .unary op e.tree
  | .binary op l r => .binary op l.tree r.tree
  | .cond c t e => .cond c.tree (Sentence.treeAll t) (Sentence.treeElse e)
  | .func xs b => .func xs (Sentence.treeAll b)
  | .call f es => .call f.tree (Phrase.treeEach es)
  | .array es => .array (Phrase.treeEach es)
  | .index c i => .index c.tree i.tree
  | .hash ps => .hash (Phrase.treePairs ps)

def Phrase.treeEach : List Phrase → List Expr
  | [] => []
  | e :: es => e.tree :: Phrase.treeEach es

def Phrase.treePairs : List (Phrase × Phrase) → List (Expr × Expr)
  | [] => []
  | (k, v) :: ps => (k.tree, v.tree) :: Phrase.treePairs ps

def Sentence.tree : Sentence → Stmt
  | .var x e _ => .var x e.tree
  | .ret e _ => .ret e.tree
  | .expr e _ => .expr e.tree

def Sentence.treeAll : List Sentence → List Stmt
  | [] => []
  | s :: ss => s.tree :: Sentence.treeAll ss

def Sentence.treeElse : Option (List Sentence) → Option (List Stmt)
  | none => none
  | some e => some (Sentence.treeAll e)

end

mutual

/-- How many expressions are under construction at one time when a phrase is
read. The left operand of a binary operator, the callee and the indexed
collection are read at the level of the whole phrase, every other part one level
below it. -/
def Phrase.depth : Phrase → Nat
  | .name _ | .int _ _ | .str _ | .bool _ => 1
  | .paren e => e.depth + 1
  | .unary _ e => e.depth + 1
  | .binary _ l r => max l.depth (r.depth + 1)
  | .cond c t e => max c.depth (max (Sentence.depthAll t) (Sentence.depthElse e)) + 1
  | .func _ b => Sentence.depthAll b + 1
  | .call f es => max f.depth (Phrase.depthEach es + 1)
  | .array es => Phrase.depthEach es + 1
  | .index c i => max c.depth (i.depth + 1)
  | .hash ps => Phrase.depthPairs ps + 1

def Phrase.depthEach : List Phrase → Nat
  | [] => 0
  | e :: es => max e.depth (Phrase.depthEach es)

def Phrase.depthPairs : List (Phrase × Phrase) → Nat
  | [] => 0
  | (k, v) :: ps => max k.depth (max v.depth (Phrase.depthPairs ps))

def Sentence.depth : Sentence → Nat
  | .var _ e _ | .ret e _ | .expr e _ => e.depth

def Sentence.depthAll : List Sentence → Nat
  | [] => 0
  | s :: ss => max s.depth (Sentence.depthAll ss)

def Sentence.depthElse : Option (List Sentence) → Nat
  | none => 0
  | some e => Sentence.depthAll e

end

theorem Phrase.depth_pos : ∀ e : Phrase, 0 < e.depth
  | .name _ | .int _ _ | .str _ | .bool _ => by simp [Phrase.depth]
  | .paren _ | .unary _ _ | .cond _ _ _ | .func _ _ | .array _ | .hash _ => by
    simp [Phrase.depth]
  | .binary _ _ _ | .call _ _ | .index _ _ => by
    simp only [Phrase.depth]
    omega

/-! ### What phrases and sentences begin with -/

def TokenKind.opensPhrase : TokenKind → Bool
  | .identifier | .int | .string | .trueWord | .falseWord | .bang | .minus | .plus
  | .leftParen | .ifWord | .func | .leftBracket | .leftBrace => true
  | _ => false

def TokenKind.opensSentence : TokenKind → Bool
  | .var | .ret => true
  | kind => kind.opensPhrase

theorem TokenKind.opensSentence_of_opensPhrase {kind : TokenKind}
    (h : kind.opensPhrase = true) : kind.opensSentence = true := by
  cases kind <;> first | exact h | rfl

theorem Phrase.yield_eq_cons : ∀ φ : Phrase, ∃ t us, φ.yield = t :: us ∧
    t.kind.opensPhrase = true
  | .name x => ⟨.name x, [], rfl, rfl⟩
  | .int digits _ => ⟨.int digits, [], rfl, rfl⟩
  | .str raw => ⟨.str raw, [], rfl, rfl⟩
  | .bool b => ⟨.symbol (truthKind b), [], rfl, by cases b <;> rfl⟩
  | .unary op e => ⟨.symbol op.kind, e.yield, rfl, by cases op <;> rfl⟩
  | .paren _ => ⟨.symbol .leftParen, _, rfl, rfl⟩
  | .cond _ _ _ => ⟨.symbol .ifWord, _, rfl, rfl⟩
  | .func _ _ => ⟨.symbol .func, _, rfl, rfl⟩
  | .array _ => ⟨.symbol .leftBracket, _, rfl, rfl⟩
  | .hash _ => ⟨.symbol .leftBrace, _, rfl, rfl⟩
  | .binary _ l _ => by
    obtain ⟨t, us, hyield, ht⟩ := l.yield_eq_cons
    exact ⟨t, _, by rw [Phrase.yield, hyield, List.cons_append], ht⟩
  | .call f _ => by
    obtain ⟨t, us, hyield, ht⟩ := f.yield_eq_cons
    exact ⟨t, _, by rw [Phrase.yield, hyield, List.cons_append], ht⟩
  | .index c _ => by
    obtain ⟨t, us, hyield, ht⟩ := c.yield_eq_cons
    exact ⟨t, _, by rw [Phrase.yield, hyield, List.cons_append], ht⟩

theorem Sentence.yield_eq_cons (σ : Sentence) : ∃ t us, σ.yield = t :: us ∧
    t.kind.opensSentence = true := by
  cases σ with
  | var x e semicolon => exact ⟨.symbol .var, _, rfl, rfl⟩
  | ret e semicolon => exact ⟨.symbol .ret, _, rfl, rfl⟩
  | expr e semicolon =>
      obtain ⟨t, us, hyield, ht⟩ := e.yield_eq_cons
      exact ⟨t, _, by rw [Sentence.yield, hyield, List.cons_append],
        TokenKind.opensSentence_of_opensPhrase ht⟩

theorem Sentence.yield_length_pos (σ : Sentence) : 0 < σ.yield.length := by
  obtain ⟨t, us, hyield, -⟩ := σ.yield_eq_cons
  simp [hyield]

/-! ### Precedences -/

theorem Precedence.level_injective : Function.Injective Precedence.level := by
  intro a b h
  cases a <;> cases b <;> first | rfl | cases h

instance : LinearOrder Precedence := LinearOrder.lift' Precedence.level Precedence.level_injective

theorem Precedence.le_call (m : Precedence) : m ≤ .call := by
  cases m <;> decide

/-! ### Conditions on derivations -/

/-- How tightly a phrase holds together: as tightly as its operator binds if it
is an operation without parentheses around it, and most tightly otherwise. -/
def Phrase.binding : Phrase → Precedence
  | .binary op _ _ => op.precedence
  | .unary _ _ => .unary
  | _ => .call

/-- No token that goes on with an expression comes first. -/
def StartsAfresh (ts : List Terminal) : Prop :=
  ∀ t ∈ ts.head?, t.kind.continuation? = none

mutual

/-- The conditions on a phrase. A binary operation stands without parentheses
only to the left of an operator that binds no more tightly than its own, to the
right of one that binds less tightly, or where brackets, keywords and punctuation
set it apart. The operand of a unary operator is no binary operation, and what is
called or indexed is no operation at all. -/
def Phrase.WellFormed : Phrase → Prop
  | .name _ | .str _ | .bool _ => True
  | .int digits n => integer? (Text.readDecimal digits) = some n
  | .paren e => e.WellFormed
  | .unary _ e => .unary ≤ e.binding ∧ e.WellFormed
  | .binary op l r =>
    (op.precedence ≤ l.binding ∧ op.precedence < r.binding) ∧ l.WellFormed ∧ r.WellFormed
  | .cond c t e => c.WellFormed ∧ Sentence.AllWellFormed t ∧ Sentence.ElseWellFormed e
  | .func _ b => Sentence.AllWellFormed b
  | .call f es => .call ≤ f.binding ∧ f.WellFormed ∧ Phrase.EachWellFormed es
  | .array es => Phrase.EachWellFormed es
  | .index c i => .call ≤ c.binding ∧ c.WellFormed ∧ i.WellFormed
  | .hash ps => Phrase.PairsWellFormed ps

def Phrase.EachWellFormed : List Phrase → Prop
  | [] => True
  | e :: es => e.WellFormed ∧ Phrase.EachWellFormed es

def Phrase.PairsWellFormed : List (Phrase × Phrase) → Prop
  | [] => True
  | (k, v) :: ps => k.WellFormed ∧ v.WellFormed ∧ Phrase.PairsWellFormed ps

def Sentence.WellFormed : Sentence → Prop
  | .var _ e _ | .ret e _ | .expr e _ => e.WellFormed

/-- The conditions on sentences one after another. What a token can go on with,
it does go on with: a sentence without a semicolon is followed by a sentence that
starts afresh. (An `else` can only belong to the branch before it, because no
sentence starts with one.) -/
def Sentence.AllWellFormed : List Sentence → Prop
  | [] => True
  | s :: ss =>
    s.WellFormed ∧ (s.semicolon = true ∨ StartsAfresh (Sentence.yieldAll ss)) ∧
      Sentence.AllWellFormed ss

def Sentence.ElseWellFormed : Option (List Sentence) → Prop
  | none => True
  | some e => Sentence.AllWellFormed e

end

end ScriptLang
