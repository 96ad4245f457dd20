import ScriptLang.Proofs.Parser.Lockstep

/-!
Every routine of the parser keeps two parsers in lockstep up to a semicolon, whether it
reads what it is meant to read or stops. `Cut.Ends` says how both may have ended: with the
same result, where the routine may end, or both stopped, on the same token, with no more
braces open than before.

Where a routine stops depends on what is wrong, and each of them may stop at several
places; but all of these are places where the parser may stand (`Cut.On`).
-/

namespace ScriptLang

namespace Cut

/-- Two runs have ended alike: with the same result in parsers that are related, or both
stopped on the same token. -/
inductive Ends (K : Cut) (n : Nat) {α : Type} (Post : Parser → Parser → Prop) :
    EStateM.Result Stopped Parser α → EStateM.Result Stopped Parser α → Prop
  | ok (a : α) {q q' : Parser} : Post q q' → Ends K n Post (.ok a q) (.ok a q')
  | stopped (e : Stopped) {q q' : Parser} :
      K.On n q q' → Ends K n Post (.error e q) (.error e q')

/-- A routine for expressions that keeps parsers in lockstep. -/
def Kept (K : Cut) (expr : Precedence → Parse Expr) : Prop :=
  ∀ min n p p', K.On n p p' → K.Ends n (K.Read n) (expr min p) (expr min p')

variable {K : Cut} {m n : Nat} {p p' : Parser} {α β : Type} {Post Post' : Parser → Parser → Prop}

theorem Ends.mono {result result' : EStateM.Result Stopped Parser α}
    (h : K.Ends n Post result result') (hle : m ≤ n)
    (hpost : ∀ q q', Post q q' → Post' q q') : K.Ends m Post' result result' := by
  cases h with
  | ok a hq => exact .ok a (hpost _ _ hq)
  | stopped e hq => exact .stopped e (hq.mono hle)

/-- One part after another. The first part has not gone back, which is what loops count
on. -/
theorem Ends.bind {r r' : Parse α} {f f' : α → Parse β} [Parse.Orderly r]
    (h : K.Ends n Post (r p) (r' p'))
    (hf : ∀ a q q', Post q q' → q.left ≤ p.left → K.Ends n Post' (f a q) (f' a q')) :
    K.Ends n Post' ((r >>= f) p) ((r' >>= f') p') := by
  have hleads := Parse.Orderly.leads (r := r) p
  rw [Parse.bind_run, Parse.bind_run]
  generalize r p = result at h hleads
  generalize r' p' = result' at h
  cases h with
  | ok a hq => exact hf a _ _ hq (Parser.Moves.left_le hleads)
  | stopped e hq => exact .stopped e hq

/-! ### Single steps -/

theorem Ends.advance {f f' : Unit → Parse β}
    (h : K.Ends n Post (f () p.advance) (f' () p'.advance)) :
    K.Ends n Post ((Parse.advance >>= f) p) ((Parse.advance >>= f') p') :=
  h

theorem Ends.current {f f' : Token → Parse β} (hp : K.On m p p')
    (h : K.Ends n Post (f p.current p) (f' p.current p')) :
    K.Ends n Post ((Parse.current >>= f) p) ((Parse.current >>= f') p') := by
  rw [Parse.current_bind_run, Parse.current_bind_run, ← hp.current_eq]
  exact h

theorem Ends.nextKind {f f' : TokenKind → Parse β} (hp : K.Ahead m p p')
    (h : K.Ends n Post (f p.next.kind p) (f' p.next.kind p')) :
    K.Ends n Post ((Parse.nextKind >>= f) p) ((Parse.nextKind >>= f') p') := by
  rw [Parse.nextKind_bind_run, Parse.nextKind_bind_run, ← hp.next_eq]
  exact h

theorem Ends.next_is {r r' t t' : Parse β} {kind : TokenKind} (hp : K.Ahead m p p')
    (h : p.next.kind = kind → K.Ends n Post (r p) (r' p')) (ht : K.Ends n Post (t p) (t' p')) :
    K.Ends n Post ((Parse.nextKind >>= fun k => if k = kind then r else t) p)
      ((Parse.nextKind >>= fun k => if k = kind then r' else t') p') := by
  refine .nextKind hp ?_
  by_cases hk : p.next.kind = kind
  · rw [if_pos hk, if_pos hk]
    exact h hk
  · rw [if_neg hk, if_neg hk]
    exact ht

/-- A loop gets more turns than there are tokens up to the semicolon, in both parsers. -/
theorem Ends.turns {f f' : Nat → Parse β} (hp : K.Ahead m p p')
    (h : ∀ k k', p.left < k → p.left < k' → K.Ends n Post (f k p) (f' k' p')) :
    K.Ends n Post ((Parse.turns >>= f) p) ((Parse.turns >>= f') p') := by
  have hleft := hp.left_le
  rw [Parse.turns_bind_run, Parse.turns_bind_run]
  exact h _ _ (by omega) (by omega)

theorem ends_fail (h : K.On n p p') (e : SyntaxError) :
    K.Ends n Post ((Parse.fail e : Parse α) p) ((Parse.fail e : Parse α) p') :=
  .stopped .recorded (h.record e)

theorem ends_expect (h : K.Read n p p') {kind : TokenKind}
    (hfound : p.next.kind = kind → Post p.advance p'.advance) :
    K.Ends n Post (Parse.expect kind p) (Parse.expect kind p') := by
  rw [Parse.expect_run, Parse.expect_run, ← h.next_eq]
  by_cases hk : p.next.kind = kind
  · rw [if_pos hk, if_pos hk]
    exact .ok () (hfound hk)
  · rw [if_neg hk, if_neg hk]
    exact ends_fail (α := Unit) h.on _

theorem ends_expect_plain (h : K.Read n p p') {kind : TokenKind}
    (hkind : kind.isPlain = true) :
    K.Ends n (K.Read n) (Parse.expect kind p) (Parse.expect kind p') :=
  ends_expect h fun hk => h.advance_plain hk hkind

theorem ends_expect_leftBrace (h : K.Read n p p') :
    K.Ends n (K.Facing (n + 1)) (Parse.expect .leftBrace p) (Parse.expect .leftBrace p') :=
  ends_expect h h.advance_leftBrace

theorem ends_expect_rightBrace (h : K.Read (n + 1) p p') :
    K.Ends n (K.Read n) (Parse.expect .rightBrace p) (Parse.expect .rightBrace p') :=
  (ends_expect h h.advance_rightBrace).mono (Nat.le_succ n) fun _ _ => id

theorem ends_identifier (h : K.Read n p p') :
    K.Ends n (K.Read n) (Parse.identifier p) (Parse.identifier p') := by
  refine (ends_expect_plain h rfl).bind fun _ q q' hq _ => ?_
  show K.Ends n _ (.ok q.current.literal q) (.ok q'.current.literal q')
  rw [← hq.current_eq]
  exact .ok _ hq

/-- Where a statement may end: on its last token, which may be the semicolon. -/
def Past (K : Cut) (n : Nat) (p p' : Parser) : Prop :=
  K.Read n p p' ∨ (n = 0 ∧ K.Reached p p')

theorem ends_skipSemicolon (h : K.Read n p p') :
    K.Ends n (K.Past n) (Parse.skipSemicolon p) (Parse.skipSemicolon p') := by
  unfold Parse.skipSemicolon
  refine .next_is h.toAhead (fun hk => .ok () ?_) (.ok () (.inl h))
  have hcurrent : p.advance.current.kind = .semicolon := hk
  rcases h.advance with hfacing | hreached
  · rw [hcurrent] at hfacing
    exact .inl ⟨hfacing, by rw [hcurrent]; decide⟩
  · exact .inr hreached

/-! ### Lists -/

/-- The names after a parameter. Each turn of the loop uses up a token, so it does not
matter how many more turns it might take. -/
theorem ends_moreParams {k k' : Nat} (h : K.Read n p p') (hk : p.left < k)
    (hk' : p.left < k') :
    K.Ends n (K.Read n) (Parse.moreParams k p) (Parse.moreParams k' p') := by
  induction k generalizing k' p p' with
  | zero => omega
  | succ k ih =>
      obtain ⟨k', rfl⟩ : ∃ l, k' = l + 1 := ⟨k' - 1, by omega⟩
      have hlt := h.left_advance_lt
      unfold Parse.moreParams
      refine .next_is h.toAhead (fun hcomma => .advance ?_) (.ok _ h)
      refine (ends_identifier (h.advance_plain hcomma rfl)).bind fun x q q' hq hle => ?_
      exact (ih hq (by omega) (by omega)).bind fun xs q q' hq _ => .ok _ hq

theorem ends_params (h : K.Read n p p') :
    K.Ends n (K.Read n) (Parse.params p) (Parse.params p') := by
  unfold Parse.params
  refine .next_is h.toAhead (fun hclose => .ok _ (h.advance_plain hclose rfl)) ?_
  refine (ends_identifier h).bind fun x q q' hq _ => ?_
  refine .turns hq.toAhead fun k k' hk hk' => ?_
  refine (ends_moreParams hq hk hk').bind fun xs q q' hq _ => ?_
  exact (ends_expect_plain hq rfl).bind fun _ q q' hq _ => .ok _ hq

section

variable {expr : Precedence → Parse Expr} [∀ m, Parse.Orderly (expr m)]

theorem ends_moreExprs (he : K.Kept expr) {k k' : Nat} (h : K.Read n p p') (hk : p.left < k)
    (hk' : p.left < k') :
    K.Ends n (K.Read n) (Parse.moreExprs expr k p) (Parse.moreExprs expr k' p') := by
  induction k generalizing k' p p' with
  | zero => omega
  | succ k ih =>
      obtain ⟨k', rfl⟩ : ∃ l, k' = l + 1 := ⟨k' - 1, by omega⟩
      have hlt := h.left_advance_lt
      have hle := Parser.left_advance_le p.advance
      unfold Parse.moreExprs
      refine .next_is h.toAhead (fun hcomma => .advance (.advance ?_)) (.ok _ h)
      have hread := h.advance_plain hcomma rfl
      refine (he _ n _ _ hread.advance).bind fun e q q' hq hle => ?_
      exact (ih hq (by omega) (by omega)).bind fun es q q' hq _ => .ok _ hq

theorem ends_exprs (he : K.Kept expr) {close : TokenKind} (hclose : close.isPlain = true)
    (h : K.Read n p p') :
    K.Ends n (K.Read n) (Parse.exprs expr close p) (Parse.exprs expr close p') := by
  unfold Parse.exprs
  refine .next_is h.toAhead (fun hk => .ok _ (h.advance_plain hk hclose)) (.advance ?_)
  refine (he _ n _ _ h.advance).bind fun e q q' hq _ => ?_
  refine .turns hq.toAhead fun k k' hk hk' => ?_
  refine (ends_moreExprs he hq hk hk').bind fun es q q' hq _ => ?_
  exact (ends_expect_plain hq hclose).bind fun _ q q' hq _ => .ok _ hq

theorem ends_pairs (he : K.Kept expr) {k k' : Nat} (h : K.Facing n p p') (hk : p.left < k)
    (hk' : p.left < k') :
    K.Ends n (K.Read n) (Parse.pairs expr k p) (Parse.pairs expr k' p') := by
  induction k generalizing k' p p' with
  | zero => omega
  | succ k ih =>
      obtain ⟨k', rfl⟩ : ∃ l, k' = l + 1 := ⟨k' - 1, by omega⟩
      have hlt := h.left_advance_lt
      unfold Parse.pairs
      refine .advance ((he _ n _ _ h.advance).bind fun key q q' hq hkey => ?_)
      refine (ends_expect_plain hq rfl).bind fun _ q q' hq hcolon => .advance ?_
      have hadvance := Parser.left_advance_le q
      refine (he _ n _ _ hq.advance).bind fun value q q' hq hvalue => ?_
      refine .next_is hq.toAhead (fun hcomma => .advance ?_) (.ok _ hq)
      have hlast := Parser.left_advance_le q
      exact (ih (hq.advance_plain hcomma rfl).toFacing (by omega) (by omega)).bind
        fun rest q q' hq _ => .ok _ hq

theorem ends_hashPairs (he : K.Kept expr) (h : K.Facing (n + 1) p p') :
    K.Ends n (K.Read n) (Parse.hashPairs expr p) (Parse.hashPairs expr p') := by
  unfold Parse.hashPairs
  refine .next_is h.toAhead (fun hclose => .ok _ (h.advance_rightBrace hclose)) ?_
  refine .turns h.toAhead fun k k' hk hk' => ?_
  have hpairs := (ends_pairs he h hk hk').mono (Nat.le_succ n) fun _ _ => id
  refine hpairs.bind fun ps q q' hq _ => ?_
  exact (ends_expect_rightBrace hq).bind fun _ q q' hq _ => .ok _ hq

/-! ### Statements and blocks -/

theorem ends_ended (he : K.Kept expr) (h : K.On n p p') (f : Expr → Stmt) :
    K.Ends n (K.Past n)
      ((do let e ← expr .lowest; Parse.skipSemicolon; pure (f e) : Parse Stmt) p)
      ((do let e ← expr .lowest; Parse.skipSemicolon; pure (f e) : Parse Stmt) p') :=
  (he _ n _ _ h).bind fun _ _ _ hq _ =>
    (ends_skipSemicolon hq).bind fun _ _ _ hq _ => .ok _ hq

theorem ends_statement (he : K.Kept expr) (h : K.On n p p') :
    K.Ends n (K.Past n) (Parse.statement expr p) (Parse.statement expr p') := by
  unfold Parse.statement
  refine .current h ?_
  cases hk : p.current.kind with
  | var =>
      refine (ends_identifier (h.read hk rfl)).bind fun x q q' hq _ => ?_
      refine (ends_expect_plain hq rfl).bind fun _ q q' hq _ => ?_
      exact ends_ended he hq.advance (.var x)
  | ret => exact ends_ended he (h.read hk rfl).advance .ret
  | _ => exact ends_ended he h .expr

/-- The statements of a block. The semicolon is not reached, since the brace of the block
is closed before it. -/
theorem ends_blockRest (he : K.Kept expr) {k k' : Nat} (h : K.On (n + 1) p p')
    (hk : p.left < k) (hk' : p.left < k') :
    K.Ends n (K.Read n) (Parse.blockRest expr k p) (Parse.blockRest expr k' p') := by
  induction k generalizing k' p p' with
  | zero => omega
  | succ k ih =>
      obtain ⟨k', rfl⟩ : ∃ l, k' = l + 1 := ⟨k' - 1, by omega⟩
      unfold Parse.blockRest
      refine .current h ?_
      by_cases hclose : p.current.kind = .rightBrace
      · rw [if_pos hclose, if_pos hclose]
        exact .ok _ (h.read_rightBrace hclose)
      rw [if_neg hclose, if_neg hclose, if_neg h.current_ne, if_neg h.current_ne]
      have hs := ends_statement he h
      have hleads := Parse.Orderly.leads (r := Parse.statement expr) p
      rw [Parse.bind_run, Parse.bind_run]
      unfold Parse.attempt
      generalize Parse.statement expr p = result at hs hleads
      generalize Parse.statement expr p' = result' at hs
      cases hs with
      | @ok s q q' hq =>
          obtain hq | ⟨hzero, -⟩ := hq
          · have hle : q.left ≤ p.left := Parser.Moves.left_le hleads
            have hlt := hq.left_advance_lt
            refine .advance ?_
            exact (ih hq.advance (by omega) (by omega)).bind fun ss q q' hq _ => .ok _ hq
          · cases hzero
      | @stopped e q q' hq =>
          have hle : q.left ≤ p.left := Parser.Moves.left_le hleads.1
          have hsync : q.synchronize.left ≤ q.left := q.moves_synchronize.left_le
          replace hq := hq.synchronize
          dsimp only
          rw [Parse.modify_bind_run, Parse.modify_bind_run]
          refine .current hq ?_
          by_cases hclose : q.synchronize.current.kind = .rightBrace
          · rw [if_pos hclose, if_pos hclose]
            exact .ok _ (hq.read_rightBrace hclose)
          · rw [if_neg hclose, if_neg hclose]
            have hfacing := hq.facing_of_ne_rightBrace hclose
            have hlt := hfacing.left_advance_lt
            exact .advance (ih hfacing.advance (by omega) (by omega))

theorem ends_block (he : K.Kept expr) (h : K.Facing (n + 1) p p') :
    K.Ends n (K.Read n) (Parse.block expr p) (Parse.block expr p') := by
  unfold Parse.block
  refine .advance ?_
  have hon := h.advance
  exact .turns hon.facing_succ.toAhead fun k k' hk hk' => ends_blockRest he hon hk hk'

/-! ### Expressions -/

theorem ends_unary (he : K.Kept expr) (h : K.Read n p p') (op : UnaryOp) :
    K.Ends n (K.Read n) (Parse.unary expr op p) (Parse.unary expr op p') := by
  unfold Parse.unary
  exact .advance ((he _ n _ _ h.advance).bind fun e q q' hq _ => .ok _ hq)

theorem ends_grouped (he : K.Kept expr) (h : K.Read n p p') :
    K.Ends n (K.Read n) (Parse.grouped expr p) (Parse.grouped expr p') := by
  unfold Parse.grouped
  refine .advance ((he _ n _ _ h.advance).bind fun e q q' hq _ => ?_)
  exact (ends_expect_plain hq rfl).bind fun _ q q' hq _ => .ok _ hq

theorem ends_conditional (he : K.Kept expr) (h : K.Read n p p') :
    K.Ends n (K.Read n) (Parse.conditional expr p) (Parse.conditional expr p') := by
  unfold Parse.conditional
  refine .advance ((he _ n _ _ h.advance).bind fun e q q' hq _ => ?_)
  refine (ends_expect_leftBrace hq).bind fun _ q q' hq _ => ?_
  refine (ends_block he hq).bind fun t q q' hq _ => ?_
  refine .next_is hq.toAhead (fun helse => .advance ?_) (.ok _ hq)
  refine (ends_expect_leftBrace (hq.advance_plain helse rfl)).bind fun _ q q' hq _ => ?_
  exact (ends_block he hq).bind fun b q q' hq _ => .ok _ hq

theorem ends_function (he : K.Kept expr) (h : K.Read n p p') :
    K.Ends n (K.Read n) (Parse.function expr p) (Parse.function expr p') := by
  unfold Parse.function
  refine (ends_expect_plain h rfl).bind fun _ q q' hq _ => ?_
  refine (ends_params hq).bind fun xs q q' hq _ => ?_
  refine (ends_expect_leftBrace hq).bind fun _ q q' hq _ => ?_
  exact (ends_block he hq).bind fun b q q' hq _ => .ok _ hq

theorem ends_primary (he : K.Kept expr) (h : K.On n p p') :
    K.Ends n (K.Read n) (Parse.primary expr p) (Parse.primary expr p') := by
  unfold Parse.primary
  refine .current h ?_
  cases hk : p.current.kind with
  | identifier => exact .ok _ (h.read hk rfl)
  | string => exact .ok _ (h.read hk rfl)
  | trueWord => exact .ok _ (h.read hk rfl)
  | falseWord => exact .ok _ (h.read hk rfl)
  | int =>
      dsimp only
      cases integer? (Text.readDecimal p.current.literal) with
      | some k => exact .ok _ (h.read hk rfl)
      | none => exact ends_fail h _
  | bang => exact ends_unary he (h.read hk rfl) _
  | minus => exact ends_unary he (h.read hk rfl) _
  | plus => exact ends_unary he (h.read hk rfl) _
  | leftParen => exact ends_grouped he (h.read hk rfl)
  | ifWord => exact ends_conditional he (h.read hk rfl)
  | func => exact ends_function he (h.read hk rfl)
  | leftBracket =>
      exact (ends_exprs he rfl (h.read hk rfl)).bind fun es q q' hq _ => .ok _ hq
  | leftBrace =>
      have hfacing := h.facing (by rw [hk]; decide)
      rw [hk] at hfacing
      exact (ends_hashPairs he hfacing).bind fun ps q q' hq _ => .ok _ hq
  | _ => exact ends_fail h _

theorem ends_continued (he : K.Kept expr) (h : K.Read n p p') (left : Expr)
    (k : Continuation) :
    K.Ends n (K.Read n) (Parse.continued expr left k p) (Parse.continued expr left k p') := by
  cases k with
  | binary op =>
      exact .advance ((he _ n _ _ h.advance).bind fun e q q' hq _ => .ok _ hq)
  | call => exact (ends_exprs he rfl h).bind fun es q q' hq _ => .ok _ hq
  | index =>
      refine .advance ((he _ n _ _ h.advance).bind fun e q q' hq _ => ?_)
      exact (ends_expect_plain hq rfl).bind fun _ q q' hq _ => .ok _ hq

theorem isPlain_of_continuation? {kind : TokenKind} {k : Continuation}
    (h : kind.continuation? = some k) : kind.isPlain = true := by
  cases kind <;> first | rfl | cases h

theorem ends_continuations (he : K.Kept expr) (min : Precedence) {k k' : Nat} (left : Expr)
    (h : K.Read n p p') (hk : p.left < k) (hk' : p.left < k') :
    K.Ends n (K.Read n) (Parse.continuations expr min k left p)
      (Parse.continuations expr min k' left p') := by
  induction k generalizing k' left p p' with
  | zero => omega
  | succ k ih =>
      obtain ⟨k', rfl⟩ : ∃ l, k' = l + 1 := ⟨k' - 1, by omega⟩
      have hlt := h.left_advance_lt
      unfold Parse.continuations
      refine .nextKind h.toAhead ?_
      cases hnext : p.next.kind.continuation? with
      | none => exact .ok _ h
      | some next =>
          dsimp only
          by_cases hmin : next.precedence ≤ min
          · rw [if_pos hmin, if_pos hmin]
            exact .ok _ h
          · rw [if_neg hmin, if_neg hmin]
            have hread := h.advance_plain rfl (isPlain_of_continuation? hnext)
            refine .advance ((ends_continued he hread left next).bind fun e q q' hq hle => ?_)
            exact ih e hq (by omega) (by omega)

theorem ends_operators (he : K.Kept expr) (min : Precedence) (h : K.On n p p') :
    K.Ends n (K.Read n) (Parse.operators expr min p) (Parse.operators expr min p') := by
  unfold Parse.operators
  refine (ends_primary he h).bind fun left q q' hq _ => ?_
  exact .turns hq.toAhead fun k k' hk hk' => ends_continuations he min left hq hk hk'

end

theorem ends_nested {r : Parse α} (h : K.On n p p')
    (hr : K.On n { p with depth := p.depth + 1 } { p' with depth := p'.depth + 1 } →
      K.Ends n (K.Read n) (r { p with depth := p.depth + 1 })
        (r { p' with depth := p'.depth + 1 })) :
    K.Ends n (K.Read n) (Parse.nested r p) (Parse.nested r p') := by
  have hdeeper : K.On n { p with depth := p.depth + 1 } { p' with depth := p'.depth + 1 } := by
    rw [← h.depth_eq]
    exact h.withDepth _
  have hends := hr hdeeper
  unfold Parse.nested
  generalize r { p with depth := p.depth + 1 } = result at hends
  generalize r { p' with depth := p'.depth + 1 } = result' at hends
  cases hends with
  | ok a hq =>
      refine .ok a ?_
      rw [← hq.depth_eq]
      exact hq.withDepth _
  | stopped e hq =>
      refine .stopped e ?_
      rw [← hq.depth_eq]
      exact hq.withDepth _

theorem kept_expressionWithin (K : Cut) (room : Nat) :
    K.Kept (Parse.expressionWithin room) := by
  induction room with
  | zero =>
      intro min n p p' h
      show K.Ends n _ ((Parse.fail _ : Parse Expr) p) ((Parse.fail _ : Parse Expr) p')
      rw [← h.current_eq]
      exact ends_fail h _
  | succ room ih => exact fun min n p p' h => ends_nested h (ends_operators ih min)

theorem kept_expression (K : Cut) : K.Kept Parse.expression := by
  intro min n p p' h
  show K.Ends n _ (Parse.expressionWithin (maxNesting - p.depth) min p)
    (Parse.expressionWithin (maxNesting - p'.depth) min p')
  rw [← h.depth_eq]
  exact kept_expressionWithin K _ min n p p' h

end Cut

end ScriptLang
