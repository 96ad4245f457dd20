import ScriptLang.Parser.Program

/-!
Two runs of the parser, side by side. A routine sees little of the parser: the kinds and the
literals of its two tokens, how much is left, and how deep it is (`Parser.SameView`). It goes the
same way in two parsers that look the same to it, and whatever is between them then is carried
along by single steps: each moves on, or records an error about a token.

A `Coupling` is a relation of two parsers that single steps carry along, and `Parse.Coupled C`
says of two routines that they carry it along too, and yield the same or both stop. The routines
of the grammar are gone through here, once for all couplings. What is to be known of a run by
itself is the case of a parser that is coupled with itself.

Routines begin in different places (`Parse.Start`), and some couplings tell these apart. Right
behind a step to the next token an expression may be read, from the current token on. The parts of
an expression look at the current token too, but move on before they read another expression. All
else begins with the next token.
-/

namespace ScriptLang

/-! ### Couplings -/

/-- An error about a token, but for the place of the token. -/
inductive SyntaxError.OfToken : (Span → SyntaxError) → Prop
  | unexpectedToken (expected found : TokenKind) : OfToken (.unexpectedToken expected found)
  | noExpression (found : TokenKind) : OfToken (.noExpression found)
  | integerTooLarge (literal : String) : OfToken (.integerTooLarge literal)
  | tooDeeplyNested : OfToken .tooDeeplyNested

theorem SyntaxError.OfToken.span_eq {e : Span → SyntaxError} (h : OfToken e) (span : Span) :
    (e span).span = span := by
  cases h <;> rfl

theorem SyntaxError.OfToken.ne_lexical {e : Span → SyntaxError} (h : OfToken e) (span : Span)
    (l : LexicalError) : e span ≠ .lexical l := by
  cases h <;> nofun

/-- No routine can tell the two parsers apart before it has moved on or stopped. -/
structure Parser.SameView (p p' : Parser) : Prop where
  current_kind : p'.current.kind = p.current.kind
  current_literal : p'.current.literal = p.current.literal
  next_kind : p'.next.kind = p.next.kind
  left_eq : p'.left = p.left
  depth_eq : p'.depth = p.depth

def Parser.deeper (p : Parser) : Parser := { p with depth := p.depth + 1 }

/-- A relation of two parsers that the steps of a routine carry along. -/
structure Coupling where
  /-- Right behind a step to the next token. -/
  moved : Parser → Parser → Prop
  /-- Where a routine may complain of the current token. -/
  on : Parser → Parser → Prop
  /-- Before a routine that begins with the next token, and behind every routine. -/
  after : Parser → Parser → Prop
  /-- Where a routine has stopped. -/
  stopped : Parser → Parser → Prop
  on_of_moved : ∀ {p p' : Parser}, moved p p' → on p p'
  after_of_on : ∀ {p p' : Parser}, on p p' → after p p'
  after_of_stopped : ∀ {p p' : Parser}, stopped p p' → after p p'
  sameView : ∀ {p p' : Parser}, after p p' → p.SameView p'
  advance : ∀ {p p' : Parser}, after p p' → moved p.advance p'.advance
  recordCurrent : ∀ {p p' : Parser} {e : Span → SyntaxError}, SyntaxError.OfToken e → on p p' →
    stopped (p.record (e p.current.span)) (p'.record (e p'.current.span))
  recordNext : ∀ {p p' : Parser} {e : Span → SyntaxError}, SyntaxError.OfToken e → after p p' →
    stopped (p.record (e p.next.span)) (p'.record (e p'.next.span))

inductive Parse.Start
  | moved
  | current
  | next

namespace Coupling

variable {C : Coupling} {p p' : Parser}

def before (C : Coupling) : Parse.Start → Parser → Parser → Prop
  | .moved => C.moved
  | .current => C.on
  | .next => C.after

inductive Ends (C : Coupling) {α : Type} :
    EStateM.Result Stopped Parser α → EStateM.Result Stopped Parser α → Prop
  | ok (a : α) {q q' : Parser} : C.after q q' → Ends C (.ok a q) (.ok a q')
  | stopped (e : Stopped) {q q' : Parser} : C.stopped q q' → Ends C (.error e q) (.error e q')

theorem after_of_moved (h : C.moved p p') : C.after p p' := C.after_of_on (C.on_of_moved h)

theorem before.after {start : Parse.Start} (h : C.before start p p') : C.after p p' := by
  cases start with
  | moved => exact C.after_of_moved h
  | current => exact C.after_of_on h
  | next => exact h

theorem synchronize (h : C.after p p') : C.after p.synchronize p'.synchronize := by
  induction p using Parser.synchronize.induct generalizing p' with
  | case1 p hstop =>
      have hview := C.sameView h
      rw [Parser.synchronize.eq_1 p, if_pos hstop, Parser.synchronize.eq_1 p', if_pos]
      · exact h
      · rwa [hview.current_kind, hview.next_kind]
  | case2 p hstop ih =>
      have hview := C.sameView h
      rw [Parser.synchronize.eq_1 p, if_neg hstop, Parser.synchronize.eq_1 p', if_neg]
      · exact ih (C.after_of_moved (C.advance h))
      · rwa [hview.current_kind, hview.next_kind]

def deeper (C : Coupling) : Coupling where
  moved p p' := ∃ q q', C.moved q q' ∧ p = q.deeper ∧ p' = q'.deeper
  on p p' := ∃ q q', C.on q q' ∧ p = q.deeper ∧ p' = q'.deeper
  after p p' := ∃ q q', C.after q q' ∧ p = q.deeper ∧ p' = q'.deeper
  stopped p p' := ∃ q q', C.stopped q q' ∧ p = q.deeper ∧ p' = q'.deeper
  on_of_moved := fun ⟨q, q', h, hp⟩ => ⟨q, q', C.on_of_moved h, hp⟩
  after_of_on := fun ⟨q, q', h, hp⟩ => ⟨q, q', C.after_of_on h, hp⟩
  after_of_stopped := fun ⟨q, q', h, hp⟩ => ⟨q, q', C.after_of_stopped h, hp⟩
  sameView := by
    rintro _ _ ⟨q, q', h, rfl, rfl⟩
    obtain ⟨hkind, hliteral, hnext, hleft, hdepth⟩ := C.sameView h
    exact ⟨hkind, hliteral, hnext, hleft, congrArg (· + 1) hdepth⟩
  advance := by
    rintro _ _ ⟨q, q', h, rfl, rfl⟩
    exact ⟨_, _, C.advance h, rfl, rfl⟩
  recordCurrent := by
    rintro _ _ e he ⟨q, q', h, rfl, rfl⟩
    exact ⟨_, _, C.recordCurrent he h, rfl, rfl⟩
  recordNext := by
    rintro _ _ e he ⟨q, q', h, rfl, rfl⟩
    exact ⟨_, _, C.recordNext he h, rfl, rfl⟩

/-- What holds of states of one parser: each is coupled with itself. -/
def diagonal (moved on after stopped : Parser → Prop) (on_of_moved : ∀ {p}, moved p → on p)
    (after_of_on : ∀ {p}, on p → after p) (after_of_stopped : ∀ {p}, stopped p → after p)
    (advance : ∀ {p : Parser}, after p → moved p.advance)
    (recordCurrent : ∀ {p : Parser} {e}, SyntaxError.OfToken e → on p →
      stopped (p.record (e p.current.span)))
    (recordNext : ∀ {p : Parser} {e}, SyntaxError.OfToken e → after p →
      stopped (p.record (e p.next.span))) : Coupling where
  moved p p' := p = p' ∧ moved p
  on p p' := p = p' ∧ on p
  after p p' := p = p' ∧ after p
  stopped p p' := p = p' ∧ stopped p
  on_of_moved := fun ⟨hp, h⟩ => ⟨hp, on_of_moved h⟩
  after_of_on := fun ⟨hp, h⟩ => ⟨hp, after_of_on h⟩
  after_of_stopped := fun ⟨hp, h⟩ => ⟨hp, after_of_stopped h⟩
  sameView := by
    rintro p _ ⟨rfl, -⟩
    exact ⟨rfl, rfl, rfl, rfl, rfl⟩
  advance := by
    rintro p _ ⟨rfl, h⟩
    exact ⟨rfl, advance h⟩
  recordCurrent := by
    rintro p _ e he ⟨rfl, h⟩
    exact ⟨rfl, recordCurrent he h⟩
  recordNext := by
    rintro p _ e he ⟨rfl, h⟩
    exact ⟨rfl, recordNext he h⟩

end Coupling

namespace Parse

variable {α β : Type}

/-! ### Single steps of a routine -/

@[simp] theorem pure_run (a : α) (p : Parser) : (pure a : Parse α) p = .ok a p := rfl

theorem bind_run (r : Parse α) (f : α → Parse β) (p : Parser) :
    (r >>= f) p =
      match r p with
      | .ok a q => f a q
      | .error e q => .error e q := by
  show EStateM.bind r f p = _
  unfold EStateM.bind
  cases r p <;> rfl

theorem bind_eq_ok {r : Parse α} {f : α → Parse β} {p q : Parser} {b : β}
    (h : (r >>= f) p = .ok b q) : ∃ a m, r p = .ok a m ∧ f a m = .ok b q := by
  rw [bind_run] at h
  cases hr : r p with
  | ok a m =>
      rw [hr] at h
      exact ⟨a, m, rfl, h⟩
  | error e m =>
      rw [hr] at h
      cases h

@[simp] theorem advance_bind_run (f : Unit → Parse β) (p : Parser) :
    (advance >>= f) p = f () p.advance := rfl

@[simp] theorem current_bind_run (f : Token → Parse β) (p : Parser) :
    (current >>= f) p = f p.current p := rfl

@[simp] theorem nextKind_bind_run (f : TokenKind → Parse β) (p : Parser) :
    (nextKind >>= f) p = f p.next.kind p := rfl

@[simp] theorem turns_bind_run (f : Nat → Parse β) (p : Parser) :
    (turns >>= f) p = f (p.left + 2) p := rfl

@[simp] theorem get_bind_run (f : Parser → Parse β) (p : Parser) :
    (get >>= f) p = f p p := rfl

theorem modify_bind_run (change : Parser → Parser) (f : Unit → Parse β) (p : Parser) :
    ((modify change : Parse Unit) >>= f) p = f () (change p) := rfl

theorem expect_run (kind : TokenKind) (p : Parser) :
    expect kind p =
      if p.next.kind = kind then .ok () p.advance
      else .error .recorded (p.record (.unexpectedToken kind p.next.kind p.next.span)) := by
  show (if p.next.kind = kind then advance
    else fail (.unexpectedToken kind p.next.kind p.next.span) : Parse Unit) p = _
  split <;> rfl

theorem expect_bind_run (kind : TokenKind) (f : Unit → Parse β) (p : Parser) :
    (expect kind >>= f) p =
      if p.next.kind = kind then f () p.advance
      else .error .recorded (p.record (.unexpectedToken kind p.next.kind p.next.span)) := by
  rw [bind_run, expect_run]
  by_cases h : p.next.kind = kind
  · rw [if_pos h, if_pos h]
  · rw [if_neg h, if_neg h]

theorem identifier_bind_run (f : String → Parse β) (p : Parser) :
    (identifier >>= f) p =
      if p.next.kind = .identifier then f p.next.literal p.advance
      else .error .recorded
        (p.record (.unexpectedToken .identifier p.next.kind p.next.span)) := by
  rw [bind_run, identifier, expect_bind_run]
  by_cases h : p.next.kind = .identifier
  · rw [if_pos h, if_pos h]
    rfl
  · rw [if_neg h, if_neg h]

/-! ### Coupled routines -/

/-- Two routines that go the same way in coupled parsers. -/
class Coupled (C : Coupling) (start : Start) (r r' : Parse α) : Prop where
  ends : ∀ {p p' : Parser}, C.before start p p' → C.Ends (r p) (r' p')

section

variable {C : Coupling} {start : Start} {r r' : Parse α} {f f' : α → Parse β} {p p' : Parser}

theorem ends_moved [hr : Coupled C .moved r r'] (h : C.moved p p') : C.Ends (r p) (r' p') :=
  hr.ends h

theorem ends_on [hr : Coupled C .current r r'] (h : C.on p p') : C.Ends (r p) (r' p') :=
  hr.ends h

theorem ends_after [hr : Coupled C .next r r'] (h : C.after p p') : C.Ends (r p) (r' p') :=
  hr.ends h

theorem ends_fail_current {e : Span → SyntaxError} (he : SyntaxError.OfToken e) (h : C.on p p') :
    C.Ends ((fail (e p.current.span) : Parse α) p) ((fail (e p'.current.span) : Parse α) p') :=
  .stopped _ (C.recordCurrent he h)

theorem ends_bind (h : C.Ends (r p) (r' p'))
    (hf : ∀ a {q q' : Parser}, C.after q q' → C.Ends (f a q) (f' a q')) :
    C.Ends ((r >>= f) p) ((r' >>= f') p') := by
  rw [bind_run, bind_run]
  generalize r p = result, r' p' = result' at h
  cases h with
  | ok a hq => exact hf a hq
  | stopped e hq => exact .stopped e hq

/-- A routine may be attempted, and what comes then may depend on whether it has stopped. -/
theorem ends_attempt_bind {f f' : Option α → Parse β} (h : C.Ends (r p) (r' p'))
    (hf : ∀ a {q q' : Parser}, C.after q q' → C.Ends (f (some a) q) (f' (some a) q'))
    (hstopped : ∀ {q q' : Parser}, C.after q q' → C.Ends (f none q) (f' none q')) :
    C.Ends ((attempt r >>= f) p) ((attempt r' >>= f') p') := by
  rw [bind_run, bind_run, attempt, attempt]
  generalize r p = result, r' p' = result' at h
  cases h with
  | ok a hq => exact hf a hq
  | stopped e hq => exact hstopped (C.after_of_stopped hq)

instance (r r' : Parse α) [Coupled C .next r r'] : Coupled C .current r r' :=
  ⟨fun h => ends_after (C.after_of_on h)⟩

instance (r r' : Parse α) [Coupled C .current r r'] : Coupled C .moved r r' :=
  ⟨fun h => ends_on (C.on_of_moved h)⟩

instance (a : α) : Coupled C .next (pure a : Parse α) (pure a) := ⟨fun h => .ok a h⟩

instance (r r' : Parse α) (f f' : α → Parse β) [Coupled C start r r']
    [∀ a, Coupled C .next (f a) (f' a)] : Coupled C start (r >>= f) (r' >>= f') :=
  ⟨fun h => ends_bind (Coupled.ends h) fun _ _ _ hq => ends_after hq⟩

instance (c : Prop) [Decidable c] (r r' t t' : Parse α) [Coupled C start r r']
    [Coupled C start t t'] : Coupled C start (if c then r else t) (if c then r' else t') := by
  split <;> infer_instance

instance : Coupled C .next advance advance := ⟨fun h => .ok () (C.after_of_moved (C.advance h))⟩

instance (f f' : Unit → Parse β) [Coupled C .moved (f ()) (f' ())] :
    Coupled C .next (advance >>= f) (advance >>= f') :=
  ⟨fun h => (inferInstance : Coupled C .moved (f ()) (f' ())).ends (C.advance h)⟩

instance (f f' : TokenKind → Parse β) [∀ kind, Coupled C start (f kind) (f' kind)] :
    Coupled C start (nextKind >>= f) (nextKind >>= f') := by
  refine ⟨fun {p p'} h => ?_⟩
  rw [nextKind_bind_run, nextKind_bind_run, (C.sameView h.after).next_kind]
  exact Coupled.ends h

instance : Coupled C .next nextKind nextKind := by
  rw [← bind_pure nextKind]
  infer_instance

instance (f f' : Nat → Parse β) [∀ n, Coupled C start (f n) (f' n)] :
    Coupled C start (turns >>= f) (turns >>= f') := by
  refine ⟨fun {p p'} h => ?_⟩
  rw [turns_bind_run, turns_bind_run, (C.sameView h.after).left_eq]
  exact Coupled.ends h

instance : Coupled C .next turns turns := by
  rw [← bind_pure turns]
  infer_instance

instance : Coupled C .next (modify Parser.synchronize : Parse Unit) (modify Parser.synchronize) :=
  ⟨fun h => .ok () (C.synchronize h)⟩

/-- To find a token is a step to the next token. -/
instance (kind : TokenKind) (f f' : Unit → Parse β) [Coupled C .moved (f ()) (f' ())] :
    Coupled C .next (expect kind >>= f) (expect kind >>= f') := by
  refine ⟨fun {p p'} h => ?_⟩
  rw [expect_bind_run, expect_bind_run, (C.sameView h).next_kind]
  split
  · exact ends_moved (C.advance h)
  · exact .stopped _ (C.recordNext (.unexpectedToken kind p.next.kind) h)

instance (kind : TokenKind) : Coupled C .next (expect kind) (expect kind) := by
  rw [← bind_pure (expect kind)]
  infer_instance

instance (f f' : String → Parse β) [∀ x, Coupled C .moved (f x) (f' x)] :
    Coupled C .next (identifier >>= f) (identifier >>= f') := by
  refine ⟨fun {p p'} h => ?_⟩
  rw [identifier_bind_run, identifier_bind_run, (C.sameView h).next_kind]
  split
  · have hadvance := C.advance h
    rw [show p'.next.literal = p.next.literal from
      (C.sameView (C.after_of_moved hadvance)).current_literal]
    exact ends_moved hadvance
  · exact .stopped _ (C.recordNext (.unexpectedToken .identifier p.next.kind) h)

instance : Coupled C .next identifier identifier := by
  rw [← bind_pure identifier]
  infer_instance

instance : Coupled C .next skipSemicolon skipSemicolon := by
  unfold skipSemicolon
  infer_instance

instance (r r' : Parse α) [Coupled C start r r'] : Coupled C start (attempt r) (attempt r') := by
  rw [← bind_pure (attempt r), ← bind_pure (attempt r')]
  exact ⟨fun h => ends_attempt_bind (Coupled.ends h) (fun a _ _ hq => .ok (some a) hq)
    fun hq => .ok none hq⟩

instance (r r' : Parse α) [Coupled C.deeper start r r'] :
    Coupled C start (nested r) (nested r') := by
  refine ⟨fun {p p'} h => ?_⟩
  have hdeeper : C.deeper.before start p.deeper p'.deeper := by
    cases start <;> exact ⟨p, p', h, rfl, rfl⟩
  have hr : C.deeper.Ends (r p.deeper) (r' p'.deeper) := Coupled.ends hdeeper
  show C.Ends (match r p.deeper with
    | .ok a q => .ok a { q with depth := q.depth - 1 }
    | .error e q => .error e { q with depth := q.depth - 1 })
    (match r' p'.deeper with
    | .ok a q => .ok a { q with depth := q.depth - 1 }
    | .error e q => .error e { q with depth := q.depth - 1 })
  generalize r p.deeper = result, r' p'.deeper = result' at hr
  cases hr with
  | ok a hq =>
      obtain ⟨q, q', hq, rfl, rfl⟩ := hq
      exact .ok a hq
  | stopped e hq =>
      obtain ⟨q, q', hq, rfl, rfl⟩ := hq
      exact .stopped e hq

end

/-! ### Statements, blocks and lists -/

section

variable {C : Coupling}

instance coupled_moreParams : ∀ n, Coupled C .next (moreParams n) (moreParams n)
  | 0 => by
    unfold moreParams
    infer_instance
  | n + 1 => by
    have := coupled_moreParams n
    unfold moreParams
    infer_instance

instance coupled_params : Coupled C .next params params := by
  unfold params
  infer_instance

variable {expr expr' : Precedence → Parse Expr} [∀ m, Coupled C .moved (expr m) (expr' m)]

instance coupled_moreExprs : ∀ n, Coupled C .next (moreExprs expr n) (moreExprs expr' n)
  | 0 => by
    unfold moreExprs
    infer_instance
  | n + 1 => by
    have := coupled_moreExprs n
    unfold moreExprs
    infer_instance

instance coupled_exprs (close : TokenKind) :
    Coupled C .next (exprs expr close) (exprs expr' close) := by
  unfold exprs
  infer_instance

set_option synthInstance.maxSize 512 in
instance coupled_pairs : ∀ n, Coupled C .next (pairs expr n) (pairs expr' n)
  | 0 => by
    unfold pairs
    infer_instance
  | n + 1 => by
    have := coupled_pairs n
    unfold pairs
    infer_instance

instance coupled_hashPairs : Coupled C .next (hashPairs expr) (hashPairs expr') := by
  unfold hashPairs
  infer_instance

instance coupled_statement : Coupled C .moved (statement expr) (statement expr') := by
  refine ⟨fun {p p'} h => ?_⟩
  unfold statement
  rw [current_bind_run, current_bind_run, (C.sameView h.after).current_kind]
  generalize p.current.kind = kind
  split <;> exact ends_moved h

/-- The end of the input inside a block is complained of where it is the current token: the parser
has moved on there from the opening brace or from a statement. -/
instance coupled_blockRest : ∀ n, Coupled C .moved (blockRest expr n) (blockRest expr' n)
  | 0 => by
    unfold blockRest
    infer_instance
  | n + 1 => by
    have := coupled_blockRest n
    refine ⟨fun {p p'} h => ?_⟩
    unfold blockRest
    rw [current_bind_run, current_bind_run, (C.sameView h.after).current_kind]
    split
    · exact .ok [] h.after
    · split
      · exact ends_fail_current (.unexpectedToken .rightBrace .endOfInput) (C.on_of_moved h)
      · refine ends_attempt_bind (Coupled.ends h) (fun s {q q'} hq => ?_) fun {q q'} hq => ?_
        · exact ends_after hq
        · dsimp only
          have hsync := C.synchronize hq
          rw [modify_bind_run, modify_bind_run, current_bind_run, current_bind_run,
            (C.sameView hsync).current_kind]
          exact ends_after hsync

instance coupled_block : Coupled C .next (block expr) (block expr') := by
  unfold block
  infer_instance

/-! ### Expressions -/

instance coupled_unary (op : UnaryOp) : Coupled C .next (unary expr op) (unary expr' op) := by
  unfold unary
  infer_instance

instance coupled_grouped : Coupled C .next (grouped expr) (grouped expr') := by
  unfold grouped
  infer_instance

set_option synthInstance.maxSize 512 in
instance coupled_conditional : Coupled C .next (conditional expr) (conditional expr') := by
  unfold conditional
  infer_instance

instance coupled_function : Coupled C .next (function expr) (function expr') := by
  unfold function
  infer_instance

instance coupled_primary : Coupled C .current (primary expr) (primary expr') := by
  refine ⟨fun {p p'} h => ?_⟩
  have hview := C.sameView (C.after_of_on h)
  unfold primary
  rw [current_bind_run, current_bind_run, hview.current_kind, hview.current_literal]
  cases p.current.kind
  case int =>
    dsimp only
    cases integer? (Text.readDecimal p.current.literal) with
    | some n => exact .ok _ (C.after_of_on h)
    | none => exact ends_fail_current (.integerTooLarge p.current.literal) h
  -- Every other kind of token either begins an expression or is what is wrong.
  all_goals first
    | exact ends_on h
    | exact ends_fail_current (.noExpression _) h

instance coupled_continued (left : Expr) (k : Continuation) :
    Coupled C .next (continued expr left k) (continued expr' left k) := by
  cases k with
  | binary op => unfold continued; infer_instance
  | call => unfold continued; infer_instance
  | index => unfold continued; infer_instance

instance coupled_continuations (min : Precedence) : ∀ n left,
    Coupled C .next (continuations expr min n left) (continuations expr' min n left)
  | 0, left => by
    unfold continuations
    infer_instance
  | n + 1, left => by
    have := coupled_continuations min n
    refine ⟨fun {p p'} h => ?_⟩
    unfold continuations
    rw [nextKind_bind_run, nextKind_bind_run, (C.sameView h).next_kind]
    cases p.next.kind.continuation? with
    | none => exact .ok left h
    | some k =>
        exact ends_after (r := if k.precedence ≤ min then pure left else _) h

instance coupled_operators (min : Precedence) :
    Coupled C .current (operators expr min) (operators expr' min) := by
  unfold operators
  infer_instance

end

instance coupled_expressionWithin {C : Coupling} : ∀ room min,
    Coupled C .current (expressionWithin room min) (expressionWithin room min)
  | 0, _ => ⟨fun h => ends_fail_current .tooDeeplyNested h⟩
  | room + 1, min => by
    -- The expressions inside are read by parsers that are both one level deeper.
    have := coupled_expressionWithin (C := C.deeper) room
    unfold expressionWithin
    infer_instance

instance coupled_expression {C : Coupling} (min : Precedence) :
    Coupled C .current (expression min) (expression min) := by
  refine ⟨fun {p p'} h => ?_⟩
  show C.Ends (expressionWithin (maxNesting - p.depth) min p)
    (expressionWithin (maxNesting - p'.depth) min p')
  rw [(C.sameView h.after).depth_eq]
  exact Coupled.ends h

end Parse

/-! ### Programs -/

/-- The statements of two coupled parsers are the same, and they are coupled behind them. -/
theorem Coupling.statements (C : Coupling) {p p' : Parser} (h : C.moved p p') (n : Nat) :
    (p'.statements n).1 = (p.statements n).1 ∧
      C.after (p.statements n).2 (p'.statements n).2 := by
  induction n generalizing p p' with
  | zero => exact ⟨rfl, C.after_of_moved h⟩
  | succ n ih =>
      have hends : C.Ends (Parse.statement Parse.expression p)
        (Parse.statement Parse.expression p') := Parse.ends_moved h
      rw [Parser.statements, Parser.statements, (C.sameView (C.after_of_moved h)).current_kind]
      split
      · exact ⟨rfl, C.after_of_moved h⟩
      · generalize Parse.statement Parse.expression p = result,
          Parse.statement Parse.expression p' = result' at hends
        cases hends with
        | ok s hq =>
            obtain ⟨hsame, hafter⟩ := ih (C.advance hq)
            exact ⟨congrArg (s :: ·) hsame, hafter⟩
        | stopped e hq => exact ih (C.advance (C.synchronize (C.after_of_stopped hq)))

end ScriptLang
