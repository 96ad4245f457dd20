import Mathlib
import ScriptLang.Proofs.Parser.KnownTerminals
import ScriptLang.Proofs.Parser.Recursion

/-!
What every routine of the parser keeps to. A `Routine` is one of the parser's routines with what
it is given, and `Parse.Disciplined` is what holds of a run of each of them: the depth is what it
was, errors are only added, the parser has only moved forward, and if the routine stops it has
added an error. All of this follows from the row of moves that the run is.

The depth between the beginning and the end of a run is that of the expressions that are read in
it. That none of them is read too deep is said by replacing the routine for expressions: with one
that does anything else beyond the greatest depth, the run is the same.
-/

namespace ScriptLang

/-- The routines for the parts of a program, each with what it is given and by what it yields. -/
inductive Routine : Type → Type
  | statement : Routine Stmt
  | expression (min : Precedence) : Routine Expr
  | operators (min : Precedence) : Routine Expr
  | primary : Routine Expr
  | unary (op : UnaryOp) : Routine Expr
  | grouped : Routine Expr
  /-- The operand behind a binary operator, the arguments of a call, or an index. -/
  | continued (left : Expr) (k : Continuation) : Routine Expr
  | conditional : Routine Expr
  | function : Routine Expr
  | params : Routine (List String)
  | block : Routine Block
  /-- The arguments of a call or the items of an array. The end of the input closes no list. -/
  | exprs (close : TokenKind) (hclose : close ≠ .endOfInput) : Routine (List Expr)
  | hashPairs : Routine (List (Expr × Expr))

def Routine.run {α : Type} (expr : Precedence → Parse Expr) : Routine α → Parse α
  | statement => Parse.statement expr
  | expression min => expr min
  | operators min => Parse.operators expr min
  | primary => Parse.primary expr
  | unary op => Parse.unary expr op
  | grouped => Parse.grouped expr
  | continued left k => Parse.continued expr left k
  | conditional => Parse.conditional expr
  | function => Parse.function expr
  | params => Parse.params
  | block => Parse.block expr
  | exprs close _ => Parse.exprs expr close
  | hashPairs => Parse.hashPairs expr

namespace Parser

/-- The place of a parser: the tokens that it sees, and what it has not read yet. -/
def place (p : Parser) : Token × Token × List Item := (p.current, p.next, p.ahead)

variable {p q : Parser}

theorem place_advance (h : p.place = q.place) (hsize : p.size = q.size) :
    p.advance.place = q.advance.place := by
  obtain ⟨-, hrest⟩ := Prod.mk.inj h
  obtain ⟨hnext, hahead⟩ := Prod.mk.inj hrest
  simp only [place, advance, hnext, hahead, hsize]

theorem size_iterate_advance (n : Nat) (p : Parser) : (advance^[n] p).size = p.size := by
  induction n with
  | zero => rfl
  | succ n ih => rw [Function.iterate_succ_apply', ← ih]; rfl

theorem Moves.place_eq (h : p.Moves q) :
    ∃ n, q.place = (Parser.advance^[n] p).place := by
  induction h with
  | refl => exact ⟨0, rfl⟩
  | advance hq ih =>
      obtain ⟨n, hn⟩ := ih
      refine ⟨n + 1, ?_⟩
      rw [Function.iterate_succ_apply']
      exact place_advance hn (hq.size_eq.trans (size_iterate_advance n p).symm)
  | record _ _ ih => exact ih

end Parser

namespace Parse

variable {α : Type}

/-- What holds of a run of a routine, whether it stops or not. -/
structure Disciplined (r : Parse α) (p : Parser) : Prop where
  depth_eq : (r.last p).depth = p.depth
  errors_grow : p.errors <+: (r.last p).errors
  forward : ∃ n, (r.last p).place = (Parser.advance^[n] p).place
  /-- To stop without a result, a routine has to say why. -/
  stopped : (∀ a q, r p ≠ .ok a q) → p.errors.length < (r.last p).errors.length

theorem Orderly.disciplined (r : Parse α) [Orderly r] (p : Parser) : Disciplined r p where
  depth_eq := (moves_last r p).depth_eq
  errors_grow := (moves_last r p).errors_grow
  forward := (moves_last r p).place_eq
  stopped hstop := by
    have hleads := Orderly.leads (r := r) p
    unfold last
    cases hr : r p with
    | ok a q => exact absurd hr (hstop a q)
    | error e q =>
        rw [hr] at hleads
        exact hleads.2

end Parse

namespace Routine

variable {α : Type} {C : Coupling} {expr expr' : Precedence → Parse Expr}

instance coupled_run (r : Routine α) [∀ m, Parse.Coupled C .moved (expr m) (expr' m)] :
    Parse.Coupled C .moved (r.run expr) (r.run expr') := by
  cases r <;> (unfold run; infer_instance)

/-- A routine reads no expression beyond the greatest depth, and neither do the expressions that
it reads. -/
theorem run_eq_of_expressionTurn (r : Routine α) {p : Parser} (hp : p.depth ≤ maxNesting)
    (h : ∀ m (q : Parser), q.depth ≤ maxNesting → expr' m q = Parse.expressionTurn expr' m q) :
    r.run expr' p = r.run Parse.expression p := by
  have (m : Precedence) : Parse.Coupled (.within p.depth (p.remaining + 1)) .moved
      (Parse.expression m) (expr' m) :=
    Parse.coupled_within fun {q} hq =>
      Parse.recursion_expression.eq_of_unfolds h m q (hq.depth_eq ▸ hp)
  have hwithin : p.Within p.depth (p.remaining + 1) := ⟨rfl, Nat.lt_succ_self _⟩
  exact (Parse.same_of_within hwithin).symm

end Routine

/-- The states of a parser that expressions are read with, one after another, at any
precedences. -/
inductive Parser.ReadsOn (source : String) : Parser → Prop
  | start : ReadsOn source (.ofSource source)
  | expression {p : Parser} (min : Precedence) :
      ReadsOn source p → ReadsOn source ((Parse.expression min).last p)

theorem Parser.ReadsOn.moves {source : String} {p : Parser} (h : p.ReadsOn source) :
    (ofSource source).Moves p := by
  induction h with
  | start => exact .refl
  | expression min _ ih => exact ih.trans (Parse.moves_last _ _)

/-- The discipline of the parser. From every state that is reached by reading expressions, each
routine leaves the depth as it was, adds errors at the end only, moves forward only, and adds an
error if it yields nothing. In between no depth is greater than `maxNesting`: the routine does the
same if expressions are read by any other `expr` which up to that depth does what the parser does,
that is, refuses to read one at that depth and else reads it one level deeper, again with `expr`
for the expressions inside it; what it does beyond that depth does not matter. -/
theorem routines_disciplined {source : String} {p : Parser} (hp : p.ReadsOn source) {α : Type}
    (r : Routine α) :
    Parse.Disciplined (r.run Parse.expression) p ∧ p.depth ≤ maxNesting ∧
    ∀ expr : Precedence → Parse Expr,
      (∀ m (q : Parser), q.depth ≤ maxNesting → expr m q = Parse.expressionTurn expr m q) →
      r.run expr p = r.run Parse.expression p := by
  have hdepth : p.depth ≤ maxNesting := by
    rw [hp.moves.depth_eq]
    exact Nat.zero_le _
  exact ⟨Parse.Orderly.disciplined _ p, hdepth, fun expr h => r.run_eq_of_expressionTurn hdepth h⟩

/-- From the first expression of `-1 )` on, no expression in parentheses can be read. -/
theorem routines_disciplined_unopened :
    ((Parse.expression .lowest).last (.ofSource "-1 )")).ReadsOn "-1 )" ∧
    ((Parse.expression .lowest).last (.ofSource "-1 )")).errors.length <
      ((Routine.grouped.run Parse.expression).last
        ((Parse.expression .lowest).last (.ofSource "-1 )"))).errors.length := by
  have hreads : ((Parse.expression .lowest).last (.ofSource "-1 )")).ReadsOn "-1 )" :=
    .expression .lowest .start
  refine ⟨hreads, (routines_disciplined hreads .grouped).1.stopped fun e q h => ?_⟩
  change Parse.grouped Parse.expression _ = _ at h
  cbv at h
  cases h

end ScriptLang
