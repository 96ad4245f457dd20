import ScriptLang.Proofs.Parser.Discipline
import ScriptLang.Proofs.Parser.Ordering
import ScriptLang.Proofs.Token.Tiling

/-!
Parsing comes to an end. The lexer takes at least a byte for each item, the loops and the
recursion of the parser go on only where fewer tokens remain, and at the end of the input, where
the parser stays as often as it moves on, no routine reads anything (`Routine.run_end`).
-/

namespace ScriptLang

/-! ### The lexer -/

theorem Lexer.lt_of_takes {lexer lexer' : Lexer} {gap text : List Char} {item : Item}
    (h : lexer.Takes gap text item lexer') :
    lexer.byte < lexer'.byte ∧ lexer'.rest.length < lexer.rest.length := by
  obtain ⟨c, cs, rfl⟩ := List.exists_cons_of_ne_nil h.ne_nil
  constructor
  · have hlt := h.byte_le
    have := c.utf8Size_pos
    rw [h.byte_eq, Span.stop, h.span_eq, byteLength_cons]
    dsimp only
    omega
  · rw [h.rest_eq, List.length_append, List.length_append, List.length_cons]
    omega

theorem Lexer.lt_of_next {lexer lexer' : Lexer} {item : Item}
    (h : lexer.next = (some item, lexer')) :
    lexer.byte < lexer'.byte ∧ lexer'.rest.length < lexer.rest.length := by
  have hspec := lexer.next_spec
  rw [h] at hspec
  obtain ⟨gap, text, htakes⟩ := hspec
  exact lt_of_takes htakes

/-! ### The end of the input -/

namespace Parser

variable {source : String} {p q : Parser}

/-- The end of the input is the one behind all items. -/
structure Bounded (p : Parser) : Prop where
  current : p.current.kind = .endOfInput → p.current = Token.endAt p.size
  next : p.next.kind = .endOfInput → p.next = Token.endAt p.size

theorem token_readToken_of_end {size : Nat} {items : List Item}
    (hitems : ∀ t, .token t ∈ items → t.Scanned)
    (h : (readToken size items).token.kind = .endOfInput) :
    (readToken size items).token = Token.endAt size := by
  rcases token_readToken size items with hend | hmem
  · exact hend
  · exact absurd h (hitems _ hmem).kind_ne

theorem Bounded.advance (h : p.Bounded) (hp : p.Scanned) : p.advance.Bounded :=
  ⟨h.next, token_readToken_of_end hp.ahead⟩

theorem Moves.bounded (h : p.Moves q) (hp : p.Scanned) (hbounded : p.Bounded) : q.Bounded := by
  induction h with
  | refl => exact hbounded
  | advance hq ih => exact ih.advance (hq.scanned hp)
  | record _ _ ih => exact ⟨ih.current, ih.next⟩

theorem bounded_ofSource (source : String) : (ofSource source).Bounded := by
  have hscan : ∀ t, .token t ∈ scan source → t.Scanned := fun t => scanned_of_mem_scan
  exact ⟨token_readToken_of_end hscan,
    token_readToken_of_end fun t ht => hscan t ((rest_readToken_suffix _ _).mem ht)⟩

structure AtEnd (p : Parser) : Prop where
  current : p.current = Token.endAt p.size
  next : p.next = Token.endAt p.size
  ahead : p.ahead = []

theorem Moves.atEnd (h : (ofSource source).Moves p) (hend : p.current.kind = .endOfInput) :
    p.AtEnd := by
  have hscanned := h.scanned (scanned_ofSource source)
  have hbounded := h.bounded (scanned_ofSource source) (bounded_ofSource source)
  have hnext := hscanned.current_end hend
  exact ⟨hbounded.current hend, hbounded.next hnext, hscanned.next_end hnext⟩

namespace AtEnd

theorem withDepth (h : p.AtEnd) (d : Nat) : AtEnd { p with depth := d } :=
  ⟨h.current, h.next, h.ahead⟩

theorem current_kind (h : p.AtEnd) : p.current.kind = .endOfInput := by
  rw [h.current]
  rfl

theorem next_kind (h : p.AtEnd) : p.next.kind = .endOfInput := by
  rw [h.next]
  rfl

theorem advance_eq (h : p.AtEnd) : p.advance = p := by
  obtain ⟨current, next, ahead, size, errors, depth⟩ := p
  obtain ⟨hcurrent, hnext, hahead⟩ := h
  simp only at hcurrent hnext hahead
  subst hcurrent hnext hahead
  simp [advance, readToken]

end AtEnd

end Parser

namespace Parse

variable {α β : Type} {p : Parser}

/-- The routine complains, and that is all it does. -/
def Refuses (r : Parse α) (p : Parser) : Prop :=
  ∃ e, r p = .error .recorded (p.record e)

theorem Refuses.bind {r : Parse α} (h : Refuses r p) (f : α → Parse β) : Refuses (r >>= f) p := by
  obtain ⟨e, he⟩ := h
  exact ⟨e, by rw [bind_run, he]⟩

theorem Refuses.advance {f : Unit → Parse β} (hp : p.AtEnd) (h : Refuses (f ()) p) :
    Refuses (Parse.advance >>= f) p := by
  obtain ⟨e, he⟩ := h
  exact ⟨e, by rw [advance_bind_run, hp.advance_eq, he]⟩

theorem Refuses.turns {f : Nat → Parse β} (h : Refuses (f (p.left + 2)) p) :
    Refuses (Parse.turns >>= f) p := by
  obtain ⟨e, he⟩ := h
  exact ⟨e, by rw [turns_bind_run, he]⟩

/-- The next token is none that a routine could look for. -/
theorem Refuses.next_is {r r' : Parse β} {kind : TokenKind} (hp : p.AtEnd)
    (hkind : kind ≠ .endOfInput) (h : Refuses r' p) :
    Refuses (nextKind >>= fun k => if k = kind then r else r') p := by
  obtain ⟨e, he⟩ := h
  refine ⟨e, ?_⟩
  rw [nextKind_bind_run, hp.next_kind, if_neg hkind.symm, he]

theorem refuses_expect (hp : p.AtEnd) {kind : TokenKind} (hkind : kind ≠ .endOfInput) :
    Refuses (expect kind) p := by
  refine ⟨.unexpectedToken kind p.next.kind p.next.span, ?_⟩
  rw [expect_run, if_neg]
  rw [hp.next_kind]
  exact hkind.symm

theorem refuses_operators (expr : Precedence → Parse Expr) (min : Precedence) (hp : p.AtEnd) :
    Refuses (operators expr min) p :=
  ⟨_, operators_end expr min hp.current_kind⟩

theorem refuses_expression (min : Precedence) (hp : p.AtEnd) : Refuses (expression min) p := by
  show Refuses (expressionWithin (maxNesting - p.depth) min) p
  cases maxNesting - p.depth with
  | zero => exact ⟨_, rfl⟩
  | succ room =>
      obtain ⟨e, he⟩ := refuses_operators (expressionWithin room) min (hp.withDepth (p.depth + 1))
      refine ⟨e, ?_⟩
      rw [expressionWithin, nested, he]
      rfl

theorem refuses_statement (hp : p.AtEnd) : Refuses (statement expression) p := by
  obtain ⟨e, he⟩ := (refuses_expression .lowest hp).bind fun e => do
    skipSemicolon
    pure (Stmt.expr e)
  refine ⟨e, ?_⟩
  rw [statement, current_bind_run, hp.current_kind]
  exact he

theorem refuses_exprs {close : TokenKind} (hclose : close ≠ .endOfInput) (hp : p.AtEnd) :
    Refuses (exprs expression close) p :=
  .next_is hp hclose (.advance hp ((refuses_expression .lowest hp).bind _))

theorem refuses_block (hp : p.AtEnd) : Refuses (block expression) p := by
  refine .advance hp (.turns ⟨.unexpectedToken .rightBrace .endOfInput p.current.span, ?_⟩)
  rw [blockRest, current_bind_run, hp.current_kind]
  rfl

theorem refuses_hashPairs (hp : p.AtEnd) : Refuses (hashPairs expression) p := by
  have hpairs (n : Nat) : Refuses (pairs expression (n + 1)) p :=
    .advance hp ((refuses_expression .lowest hp).bind _)
  exact .next_is hp (by decide) (.turns ((hpairs (p.left + 1)).bind _))

end Parse

/-- At the end of the input no routine reads anything: each complains and stops. -/
theorem Routine.run_end {α : Type} (r : Routine α) {p : Parser} (hp : p.AtEnd) :
    Parse.Refuses (r.run Parse.expression) p := by
  cases r with
  | statement => exact Parse.refuses_statement hp
  | expression min => exact Parse.refuses_expression min hp
  | operators min => exact Parse.refuses_operators _ min hp
  | primary => exact ⟨_, Parse.primary_end _ hp.current_kind⟩
  | unary op => exact .advance hp ((Parse.refuses_expression _ hp).bind _)
  | grouped => exact .advance hp ((Parse.refuses_expression _ hp).bind _)
  | continued left k =>
      cases k with
      | binary op => exact .advance hp ((Parse.refuses_expression _ hp).bind _)
      | call => exact (Parse.refuses_exprs (by decide) hp).bind _
      | index => exact .advance hp ((Parse.refuses_expression _ hp).bind _)
  | conditional => exact .advance hp ((Parse.refuses_expression _ hp).bind _)
  | function => exact (Parse.refuses_expect hp (by decide)).bind _
  | params =>
      exact .next_is hp (by decide) (((Parse.refuses_expect hp (by decide)).bind _).bind _)
  | block => exact Parse.refuses_block hp
  | exprs close hclose => exact Parse.refuses_exprs hclose hp
  | hashPairs => exact Parse.refuses_hashPairs hp

/-! ### Every text -/

namespace Parser

variable {source : String}

/-- Whatever comes of the turns of the loop over the statements is what the loop yields, and it has
come to the end of the input. -/
theorem eq_of_statementsTurn {f : Parser → Program × Parser}
    (hf : ∀ p : Parser, p.depth ≤ maxNesting → f p = statementsTurn f p) :
    parse source = ((f (ofSource source)).1, (f (ofSource source)).2.errors) ∧
      (f (ofSource source)).2.current.kind = .endOfInput := by
  have heq := recursion_statements.eq_of_unfolds (g := fun _ => f) (fun _ p hp => hf p hp) ()
    (ofSource source) (Nat.zero_le _)
  rw [← heq]
  exact ⟨rfl, current_kind_statements (scanned_ofSource source) (.inl (Nat.le_refl _))⟩

end Parser

/-- Parsing terminates on every source text.

When the lexer yields an item, it has come at least a byte further. The loops over statements,
over the continuations of an expression, and over parameters, expressions and pairs have no need
of the number of turns that they are given: each is one of its turns with itself for the rest, and
looks at the rest only where fewer tokens remain. So does an expression, with the expressions
inside it for the rest; that is, all the routines together are a recursion in which the number of
remaining tokens becomes smaller. At the end of the input, where moving on changes nothing, each
routine complains and stops at once. So whatever comes of the turns of the loop over the
statements, without a bound on their number, is what `parse` yields, and it has come to the end of
the input by then. -/
theorem parse_terminates (source : String) :
    (∀ (lexer lexer' : Lexer) (item : Item), lexer.next = (some item, lexer') →
      lexer.byte < lexer'.byte ∧ lexer'.rest.length < lexer.rest.length) ∧
    Recursion (fun rest (_ : Unit) => Parser.statementsTurn (rest ()))
      (fun _ p => p.statements (p.left + 2)) ∧
    Parse.Loop (Parse.blockTurn Parse.expression)
      (do Parse.blockRest Parse.expression (← Parse.turns)) ∧
    (∀ min, Recursion (Parse.continuationsTurn Parse.expression min) fun left =>
      (do Parse.continuations Parse.expression min (← Parse.turns) left : Parse Expr)) ∧
    Parse.Loop Parse.paramsTurn (do Parse.moreParams (← Parse.turns)) ∧
    Parse.Loop (Parse.exprsTurn Parse.expression)
      (do Parse.moreExprs Parse.expression (← Parse.turns)) ∧
    Parse.Loop (Parse.pairsTurn Parse.expression)
      (do Parse.pairs Parse.expression (← Parse.turns)) ∧
    Recursion Parse.expressionTurn Parse.expression ∧
    (∀ p : Parser, (Parser.ofSource source).Moves p → p.current.kind = .endOfInput →
      p.advance = p ∧ ∀ (d : Nat) (α : Type) (r : Routine α),
        Parse.Refuses (r.run Parse.expression) { p with depth := d }) ∧
    (∀ f : Parser → Program × Parser,
      (∀ p : Parser, p.depth ≤ maxNesting → f p = Parser.statementsTurn f p) →
      parse source =
        ((f (Parser.ofSource source)).1, (f (Parser.ofSource source)).2.errors) ∧
      (f (Parser.ofSource source)).2.current.kind = .endOfInput) := by
  refine ⟨fun _ _ _ => Lexer.lt_of_next, Parser.recursion_statements, Parse.loop_blockRest,
    Parse.recursion_continuations, Parse.loop_moreParams, Parse.loop_moreExprs,
    Parse.loop_pairs, Parse.recursion_expression, fun p hp hend => ?_,
    fun f hf => Parser.eq_of_statementsTurn hf⟩
  have hatEnd := hp.atEnd hend
  exact ⟨hatEnd.advance_eq, fun d _ r => r.run_end (hatEnd.withDepth d)⟩

end ScriptLang
