import ScriptLang.Proofs.Parser.Remaining

/-!
The loops and the recursion of the parser without a bound on their turns. Each loop is given by
one of its turns, a function of what the rest of the loop does, and so is the recursion of the
expressions. `Recursion turn f` says that `f` is what comes of these turns, and that a turn looks
at the rest only where fewer tokens remain than where it has begun. So nothing else comes of them
(`Recursion.eq_of_unfolds`), and the number of turns that the loops are given is always enough
(`Recursion.of_turns`).
-/

namespace ScriptLang

/-! ### Turns -/

namespace Parse

def paramsTurn (rest : Parse (List String)) : Parse (List String) := do
  if (← nextKind) = .comma then
    advance
    let x ← identifier
    let xs ← rest
    pure (x :: xs)
  else pure []

section

variable (expr : Precedence → Parse Expr)

def exprsTurn (rest : Parse (List Expr)) : Parse (List Expr) := do
  if (← nextKind) = .comma then
    advance
    advance
    let e ← expr .lowest
    let es ← rest
    pure (e :: es)
  else pure []

def pairsTurn (rest : Parse (List (Expr × Expr))) : Parse (List (Expr × Expr)) := do
  advance
  let key ← expr .lowest
  expect .colon
  advance
  let value ← expr .lowest
  if (← nextKind) = .comma then
    advance
    let ps ← rest
    pure ((key, value) :: ps)
  else pure [(key, value)]

def blockTurn (rest : Parse Block) : Parse Block := do
  let token ← current
  if token.kind = .rightBrace then pure []
  else if token.kind = .endOfInput then
    fail (.unexpectedToken .rightBrace .endOfInput token.span)
  else
    match ← attempt (statement expr) with
    | some s =>
      advance
      let ss ← rest
      pure (s :: ss)
    | none =>
      modify Parser.synchronize
      if (← current).kind = .rightBrace then pure []
      else
        advance
        rest

def continuationsTurn (min : Precedence) (rest : Expr → Parse Expr) (left : Expr) :
    Parse Expr := do
  match (← nextKind).continuation? with
  | none => pure left
  | some k =>
    if k.precedence ≤ min then pure left
    else
      advance
      let longer ← continued expr left k
      rest longer

/-- An expression, given how the expressions inside it are read. -/
def expressionTurn (min : Precedence) : Parse Expr := do
  let p ← get
  if p.depth = maxNesting then fail (.tooDeeplyNested p.current.span)
  else nested (operators expr min)

end

end Parse

def Parser.statementsTurn (rest : Parser → Program × Parser) (p : Parser) : Program × Parser :=
  if p.current.kind = .endOfInput then ([], p)
  else
    match Parse.statement Parse.expression p with
    | .ok s q =>
      let (ss, last) := rest q.advance
      (s :: ss, last)
    | .error _ q => rest q.synchronize.advance

/-! ### What comes of the turns -/

section

variable {ι β : Type} {turn : (ι → Parser → β) → ι → Parser → β} {f : ι → Parser → β}

/-- A turn depends on the rest only where fewer tokens remain, and not beyond the greatest
depth. -/
def Descends (turn : (ι → Parser → β) → ι → Parser → β) (rest : ι → Parser → β) : Prop :=
  ∀ i p other, p.depth ≤ maxNesting →
    (∀ j q, q.depth ≤ maxNesting → q.remaining < p.remaining → rest j q = other j q) →
    turn rest i p = turn other i p

/-- A function that is one turn with itself for the rest, where the rest is always closer to the
end. -/
structure Recursion (turn : (ι → Parser → β) → ι → Parser → β) (f : ι → Parser → β) : Prop where
  unfolds : ∀ i p, p.depth ≤ maxNesting → f i p = turn f i p
  descends : Descends turn f

/-- Nothing else comes of the same turns. -/
theorem Recursion.eq_of_unfolds (h : Recursion turn f) {g : ι → Parser → β}
    (hg : ∀ i p, p.depth ≤ maxNesting → g i p = turn g i p) (i : ι) (p : Parser)
    (hp : p.depth ≤ maxNesting) : f i p = g i p := by
  induction hn : p.remaining using Nat.strongRecOn generalizing i p with
  | ind n ih =>
      rw [h.unfolds i p hp, hg i p hp]
      refine h.descends i p g hp fun j q hq hlt => ?_
      exact ih q.remaining (hn ▸ hlt) j q hq rfl

/-- More turns than tokens remain are enough. -/
theorem eq_of_turns {loop : Nat → ι → Parser → β}
    (hstep : ∀ n i p, loop (n + 1) i p = turn (loop n) i p)
    (hloop : ∀ n, Descends turn (loop n)) {n n' : Nat} {i : ι} {p : Parser}
    (hp : p.depth ≤ maxNesting) (hn : p.remaining < n) (hn' : p.remaining < n') :
    loop n i p = loop n' i p := by
  induction n generalizing n' i p with
  | zero => exact absurd hn (Nat.not_lt_zero _)
  | succ n ih =>
      obtain ⟨n', rfl⟩ : ∃ k, n' = k + 1 := ⟨n' - 1, by omega⟩
      rw [hstep, hstep]
      exact hloop n i p (loop n') hp fun j q hq hlt => ih hq (by omega) (by omega)

theorem Recursion.of_turns (loop : Nat → ι → Parser → β)
    (hstep : ∀ n i p, loop (n + 1) i p = turn (loop n) i p)
    (hloop : ∀ n, Descends turn (loop n)) (hf : ∀ i p, f i p = loop (p.left + 2) i p) :
    Recursion turn f := by
  have heq {n : Nat} {j : ι} {q : Parser} (hq : q.depth ≤ maxNesting) (hn : q.remaining < n) :
      loop n j q = f j q := by
    rw [hf]
    exact eq_of_turns hstep hloop hq hn q.remaining_lt
  refine ⟨fun i p hp => ?_, fun i p other hp hother => ?_⟩
  · have hlt := p.remaining_lt
    rw [hf, hstep]
    exact hloop _ i p f hp fun j q hq hq' => heq hq (by omega)
  · have hself : turn (loop p.remaining) i p = turn f i p :=
      hloop _ i p f hp fun j q hq hlt => heq hq hlt
    rw [← hself]
    exact hloop _ i p other hp fun j q hq hlt => (heq hq hlt).trans (hother j q hq hlt)

end

namespace Parse

open ScriptLang.Parser (Within Before)

variable {α : Type}

/-- A loop that hands nothing on from turn to turn. -/
abbrev Loop (turn : Parse α → Parse α) (loop : Parse α) : Prop :=
  Recursion (fun rest (_ : Unit) => turn (rest ())) fun _ => loop

theorem coupled_of_remaining {r r' : Parse α} [Orderly r] {p : Parser} (hp : p.depth ≤ maxNesting)
    (h : ∀ q : Parser, q.depth ≤ maxNesting → q.remaining < p.remaining → r q = r' q) :
    Coupled (.within p.depth p.remaining) .moved r r' :=
  coupled_within fun hq => h _ (hq.depth_eq ▸ hp) hq.remaining_lt

/-- For a loop it is enough to look at a turn at a time. -/
theorem Loop.of_turns {turn : Parse α → Parse α} {loop : Nat → Parse α} [∀ n, Orderly (loop n)]
    (hstep : ∀ n, loop (n + 1) = turn (loop n))
    (hturn : ∀ n (p : Parser) (other : Parse α),
      Coupled (.within p.depth p.remaining) .moved (loop n) other →
      turn (loop n) p = turn other p) :
    Loop turn (do loop (← turns)) := by
  refine Recursion.of_turns (fun n _ => loop n) (fun n _ p => ?_)
    (fun n _ p other hp h => ?_) fun _ _ => rfl
  · exact congrFun (hstep n) p
  · exact hturn n p (other ()) (coupled_of_remaining hp (h ()))

/-! ### The loops -/

/-- To go on only if the next token is of some kind is to go on where fewer tokens remain. -/
theorem same_next_is {kind : TokenKind} (hkind : kind ≠ .endOfInput) {f f' : Unit → Parse α}
    {t : Parse α} {p : Parser}
    [Coupled (.within p.depth p.remaining) .current (f ()) (f' ())] :
    (nextKind >>= fun k => if k = kind then advance >>= f else t) p =
      (nextKind >>= fun k => if k = kind then advance >>= f' else t) p := by
  rw [nextKind_bind_run, nextKind_bind_run]
  split
  · rename_i hk
    refine same_advance_bind ?_
    exact same_of_before (Parser.before_remaining_advance .refl (hk ▸ hkind))
  · rfl

theorem loop_moreParams : Loop paramsTurn (do moreParams (← turns)) :=
  .of_turns (fun _ => rfl) fun _ _ _ _ => same_next_is (by decide)

section

variable {expr : Precedence → Parse Expr} [∀ m, Orderly (expr m)]

/-- Behind the comma and the expression after it, fewer tokens remain. -/
theorem loop_moreExprs : Loop (exprsTurn expr) (do moreExprs expr (← turns)) := by
  refine .of_turns (fun n => rfl) fun n p other h => ?_
  unfold exprsTurn
  rw [nextKind_bind_run, nextKind_bind_run]
  split
  · rename_i hk
    refine same_advance_bind (same_advance_bind (same_bind rfl fun e q hq => ?_))
    have hbefore := Parser.before_remaining_advance (.refl (p := p)) (by rw [hk]; decide)
    exact same_bind (same_of_within (hq.within hbefore.advance)) fun _ _ _ => rfl
  · rfl

/-- A pair has a colon in it, so behind a pair fewer tokens remain. -/
theorem loop_pairs : Loop (pairsTurn expr) (do pairs expr (← turns)) := by
  refine .of_turns (fun n => rfl) fun n p other h => ?_
  unfold pairsTurn
  refine same_advance_bind (same_bind rfl fun key q hq => ?_)
  rw [expect_bind_run, expect_bind_run]
  split
  · rename_i hk
    have hmoves : p.Moves q := Parser.Moves.refl.advance.trans hq
    have hbefore := Parser.before_remaining_advance hmoves (by rw [hk]; decide)
    refine same_advance_bind (same_bind rfl fun value q' hq' => ?_)
    rw [nextKind_bind_run, nextKind_bind_run]
    split
    · refine same_advance_bind (same_bind ?_ fun _ _ _ => rfl)
      exact same_of_within (Parser.Moves.within hbefore.advance hq'.advance)
    · rfl
  · rfl

/-- A statement begins with a token, or it is the end of the input that is complained of. -/
theorem loop_blockRest : Loop (blockTurn expr) (do blockRest expr (← turns)) := by
  refine .of_turns (fun n => rfl) fun n p other h => ?_
  unfold blockTurn
  rw [current_bind_run, current_bind_run]
  split
  · rfl
  · split
    · rfl
    · rename_i hk
      refine same_bind rfl fun s q hq => ?_
      have hbefore : q.Before p.depth p.remaining :=
        hq.before (Parser.before_remaining hk)
      cases s with
      | some s => exact same_of_before hbefore
      | none =>
          dsimp only
          rw [modify_bind_run, modify_bind_run, current_bind_run, current_bind_run]
          split
          · rfl
          · exact same_of_before (q.moves_synchronize.before hbefore)

/-- A longer expression begins with one more step to the next token. -/
theorem leads_continued (left : Expr) (k : Continuation) (p : Parser) :
    p.advance.Leads (continued expr left k p) := by
  have hexprs (close : TokenKind) : p.advance.Leads (exprs expr close p) := by
    unfold exprs
    rw [nextKind_bind_run]
    split
    · exact .refl
    · rw [advance_bind_run]
      exact Orderly.leads p.advance
  cases k with
  | binary op =>
      rw [continued, advance_bind_run]
      exact Orderly.leads p.advance
  | call => exact leads_bind (hexprs .rightParen) fun a q => .refl
  | index =>
      rw [continued, advance_bind_run]
      exact Orderly.leads p.advance

/-- Behind a longer expression fewer tokens remain. -/
theorem within_continued {left longer : Expr} {k : Continuation} {p q : Parser}
    (hk : p.next.kind.continuation? = some k)
    (hrun : continued expr left k p.advance = .ok longer q) : q.Within p.depth p.remaining := by
  have hnext : p.next.kind ≠ .endOfInput := by
    intro hend
    rw [hend] at hk
    cases hk
  have hleads : p.advance.advance.Leads (continued expr left k p.advance) :=
    leads_continued left k p.advance
  rw [hrun] at hleads
  exact hleads.within (Parser.before_remaining_advance .refl hnext).advance

theorem recursion_continuations (min : Precedence) :
    Recursion (continuationsTurn expr min)
      fun left => (do continuations expr min (← turns) left : Parse Expr) := by
  refine Recursion.of_turns (continuations expr min) (fun n left p => rfl)
    (fun n left p other hp h => ?_) fun _ _ => rfl
  unfold continuationsTurn
  rw [nextKind_bind_run, nextKind_bind_run]
  cases hk : p.next.kind.continuation? with
  | none => rfl
  | some k =>
      dsimp only
      split
      · rfl
      · refine same_advance_bind (same_bind_of_run fun longer q hrun => ?_)
        have hwithin := within_continued hk hrun
        exact h longer q (hwithin.depth_eq ▸ hp) hwithin.remaining_lt

end

/-! ### Expressions -/

/-- No expression begins at the end of the input. -/
theorem primary_end (expr : Precedence → Parse Expr) {p : Parser}
    (hp : p.current.kind = .endOfInput) :
    primary expr p = .error .recorded (p.record (.noExpression .endOfInput p.current.span)) := by
  unfold primary
  rw [current_bind_run, hp]
  rfl

theorem operators_end (expr : Precedence → Parse Expr) (min : Precedence) {p : Parser}
    (hp : p.current.kind = .endOfInput) :
    operators expr min p =
      .error .recorded (p.record (.noExpression .endOfInput p.current.span)) := by
  rw [operators, bind_run, primary_end expr hp]

/-- An expression depends on the expressions inside it only one level deeper, and only where fewer
tokens remain: inside its first token there is none. -/
theorem same_expressionTurn {expr expr' : Precedence → Parse Expr} [∀ m, Orderly (expr m)]
    {min : Precedence} {p : Parser}
    (h : p.depth ≠ maxNesting → ∀ m (q : Parser), q.depth = p.depth + 1 →
      q.remaining < p.remaining → expr m q = expr' m q) :
    expressionTurn expr min p = expressionTurn expr' min p := by
  unfold expressionTurn
  rw [get_bind_run, get_bind_run]
  split
  · rfl
  · rename_i hd
    refine same_nested ?_
    -- At the end of the input nothing is read. Elsewhere the current token is left behind first.
    by_cases hend : { p with depth := p.depth + 1 }.current.kind = .endOfInput
    · rw [operators_end expr min hend, operators_end expr' min hend]
    · have (m : Precedence) :
          Coupled (.within (p.depth + 1) p.remaining) .moved (expr m) (expr' m) :=
        coupled_within fun hq => h hd m _ hq.depth_eq hq.remaining_lt
      have hbefore : Before (p.depth + 1) p.remaining { p with depth := p.depth + 1 } :=
        Parser.before_remaining hend
      exact same_of_before hbefore

theorem expression_eq_turn (min : Precedence) {p : Parser} (hp : p.depth ≤ maxNesting) :
    expression min p = expressionTurn expression min p := by
  show expressionWithin (maxNesting - p.depth) min p = _
  unfold expressionTurn
  rw [get_bind_run]
  split
  · rename_i hd
    rw [hd, Nat.sub_self]
    rfl
  · rename_i hd
    rw [show maxNesting - p.depth = maxNesting - (p.depth + 1) + 1 by omega, expressionWithin]
    refine same_nested ?_
    -- One level deeper there is room for one level less.
    have (m : Precedence) : Coupled (.within (p.depth + 1) (p.advance.remaining + 1)) .moved
        (expressionWithin (maxNesting - (p.depth + 1)) m) (expression m) := by
      refine coupled_within fun {q} hq => ?_
      show _ = expressionWithin (maxNesting - q.depth) m q
      rw [hq.depth_eq]
    have hbefore : Before (p.depth + 1) (p.advance.remaining + 1)
        { p with depth := p.depth + 1 } := ⟨rfl, Nat.lt_succ_self _⟩
    exact same_of_before hbefore

theorem recursion_expression : Recursion expressionTurn expression := by
  refine ⟨fun min p hp => expression_eq_turn min hp, fun min p other hp h => ?_⟩
  exact same_expressionTurn fun hd m q hq => h m q (by omega)

end Parse

/-! ### Programs -/

/-- A statement begins with a token, so with each statement fewer tokens remain. -/
theorem Parser.recursion_statements :
    Recursion (fun rest (_ : Unit) => statementsTurn (rest ()))
      fun _ p => p.statements (p.left + 2) := by
  refine .of_turns (fun n _ p => p.statements n) (fun n _ p => ?_)
    (fun n _ p other hp h => ?_) fun _ _ => rfl
  · rw [statements]
    rfl
  · unfold statementsTurn
    split
    · rfl
    · rename_i hk
      have hs := Parse.Orderly.leads (r := Parse.statement Parse.expression) p
      have hrest {q : Parser} (hq : p.Moves q) : q.advance.statements n = other () q.advance := by
        have hwithin := (hq.before (before_remaining hk)).advance
        exact h () q.advance (hwithin.depth_eq ▸ hp) hwithin.remaining_lt
      cases hr : Parse.statement Parse.expression p with
      | ok s q =>
          rw [hr] at hs
          dsimp only
          rw [hrest hs]
      | error e q =>
          rw [hr] at hs
          exact hrest (hs.1.trans q.moves_synchronize)

end ScriptLang
