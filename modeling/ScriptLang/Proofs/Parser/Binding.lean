import ScriptLang.Proofs.Grammar.Nesting
import ScriptLang.Proofs.Parser.Discipline

/-!
Expressions at two precedences. An expression is a primary expression that a loop goes on with as
long as the next token binds more tightly than the precedence asks for. At a lower precedence the
loop goes through all that it goes through at a higher one, and then goes on from there: to read an
expression at the lower precedence is to read one at the higher precedence first
(`expression_eq_bind`). Each turn of the loop puts what it has to the left of something longer, so
the expression that has been read first is at the left end of the whole.
-/

namespace ScriptLang

/-! ### The left end of an expression -/

/-- The second expression is the first one itself, or its left operand, callee or collection, or in
turn that of the latter, and so on. -/
def Expr.LeftSpine (e d : Expr) : Prop := ∃ n, e.Path (List.replicate n .left) d

namespace Expr

theorem Path.concat {e d f : Expr} {path : List Side} {side : Side} (h : e.Path path d)
    (hf : d.Encloses side f) : e.Path (path ++ [side]) f := by
  induction h with
  | here d => exact .step hf (.here f)
  | step hd _ ih => exact .step hd (ih hf)

theorem leftSpine_refl (e : Expr) : e.LeftSpine e := ⟨0, .here e⟩

theorem LeftSpine.left {e d f : Expr} (h : e.LeftSpine d) (hf : d.Encloses .left f) :
    e.LeftSpine f := by
  obtain ⟨n, hn⟩ := h
  refine ⟨n + 1, ?_⟩
  rw [List.replicate_succ']
  exact hn.concat hf

end Expr

/-! ### Where the loop stops -/

def Parser.StopsAt (min : Precedence) (p : Parser) : Prop :=
  ∀ k, p.next.kind.continuation? = some k → k.precedence ≤ min

theorem Parser.stopsAt_or (min : Precedence) (p : Parser) :
    p.StopsAt min ∨ ∃ k, p.next.kind.continuation? = some k ∧ min < k.precedence := by
  by_cases h : p.StopsAt min
  · exact .inl h
  · unfold StopsAt at h
    push Not at h
    obtain ⟨k, hk, hlt⟩ := h
    exact .inr ⟨k, hk, hlt⟩

theorem Parser.StopsAt.mono {m m' : Precedence} {p : Parser} (h : p.StopsAt m) (hm : m ≤ m') :
    p.StopsAt m' :=
  fun k hk => le_trans (h k hk) hm

namespace Parse

/-! ### The loop -/

/-- Goes on with an expression that has been read, with all the continuations after it that bind
more tightly than `min`. -/
def continuing (min : Precedence) (left : Expr) : Parse Expr := do
  continuations expression min (← turns) left

instance (min : Precedence) (left : Expr) : Orderly (continuing min left) := by
  unfold continuing
  infer_instance

variable {min m m' : Precedence} {left : Expr} {p : Parser}

theorem continuing_of_stopsAt (hp : p.depth ≤ maxNesting) (h : p.StopsAt min) :
    continuing min left p = .ok left p := by
  have hturn : continuing min left p = continuationsTurn expression min (continuing min) left p :=
    (recursion_continuations min).unfolds left p hp
  rw [hturn, continuationsTurn, nextKind_bind_run]
  cases hk : p.next.kind.continuation? with
  | none => rfl
  | some k =>
      dsimp only
      rw [if_pos (h k hk), pure_run]

theorem continuing_of_lt {k : Continuation} (hp : p.depth ≤ maxNesting)
    (hk : p.next.kind.continuation? = some k) (hlt : min < k.precedence) :
    continuing min left p = (continued expression left k >>= continuing min) p.advance := by
  have hturn : continuing min left p = continuationsTurn expression min (continuing min) left p :=
    (recursion_continuations min).unfolds left p hp
  rw [hturn, continuationsTurn, nextKind_bind_run, hk]
  dsimp only
  rw [if_neg (not_le_of_gt hlt), advance_bind_run]

/-- The loop as an induction: it stops, or it goes on with something longer. -/
theorem continuing_induction (min : Precedence) {motive : Expr → Parser → Prop}
    (stop : ∀ left p, p.StopsAt min → motive left p)
    (step : ∀ left p k, p.next.kind.continuation? = some k → min < k.precedence →
      (∀ longer q, continued expression left k p.advance = .ok longer q → motive longer q) →
      motive left p)
    (left : Expr) (p : Parser) : motive left p := by
  induction hn : p.remaining using Nat.strongRecOn generalizing left p with
  | ind n ih =>
      rcases p.stopsAt_or min with hstops | ⟨k, hk, hlt⟩
      · exact stop left p hstops
      · refine step left p k hk hlt fun longer q hrun => ?_
        exact ih q.remaining (hn ▸ (within_continued hk hrun).remaining_lt) longer q rfl

theorem encloses_of_continued {expr : Precedence → Parse Expr} {k : Continuation} {longer : Expr}
    {q : Parser} (h : continued expr left k p = .ok longer q) : longer.Encloses .left left := by
  cases k with
  | binary op =>
      rw [continued, advance_bind_run] at h
      obtain ⟨right, r, -, h⟩ := bind_eq_ok h
      cases h
      exact .left op left right
  | call =>
      rw [continued] at h
      obtain ⟨arguments, r, -, h⟩ := bind_eq_ok h
      cases h
      exact .callee left arguments
  | index =>
      rw [continued, advance_bind_run] at h
      obtain ⟨index, r, -, h⟩ := bind_eq_ok h
      obtain ⟨-, r', -, h⟩ := bind_eq_ok h
      cases h
      exact .collection left index

/-- When the loop is over, what it has begun with is at the left end, and the next token stops
it. -/
theorem continuing_ends {e : Expr} {q : Parser} (hp : p.depth ≤ maxNesting)
    (h : continuing min left p = .ok e q) : e.LeftSpine left ∧ q.StopsAt min := by
  induction left, p using continuing_induction min with
  | stop left p hstops =>
      rw [continuing_of_stopsAt hp hstops] at h
      cases h
      exact ⟨e.leftSpine_refl, hstops⟩
  | step left p k hk hlt ih =>
      rw [continuing_of_lt hp hk hlt] at h
      obtain ⟨longer, r, hrun, h⟩ := bind_eq_ok h
      have hr : r.depth ≤ maxNesting := (within_continued hk hrun).depth_eq ▸ hp
      obtain ⟨hspine, hstops⟩ := ih longer r hrun hr h
      exact ⟨hspine.left (encloses_of_continued hrun), hstops⟩

/-- The loop at a lower precedence goes through the loop at a higher one. -/
theorem continuing_eq_bind (hm : m ≤ m') (left : Expr) (hp : p.depth ≤ maxNesting) :
    continuing m left p = (continuing m' left >>= continuing m) p := by
  induction left, p using continuing_induction m with
  | stop left p hstops =>
      rw [bind_run, continuing_of_stopsAt hp (hstops.mono hm)]
  | step left p k hk hlt ih =>
      by_cases hstops : p.StopsAt m'
      · rw [bind_run, continuing_of_stopsAt hp hstops]
      · -- Where the loop at the higher precedence goes on, both make the same turn.
        have hlt' : m' < k.precedence := by
          refine lt_of_not_ge fun hle => hstops fun k' hk' => ?_
          obtain rfl := Option.some.inj (hk.symm.trans hk')
          exact hle
        have hturn : (continuing m' left >>= continuing m) p =
            (continued expression left k >>= fun longer =>
              continuing m' longer >>= continuing m) p.advance := by
          rw [← bind_assoc, bind_run, bind_run, continuing_of_lt hp hk hlt']
        rw [hturn, continuing_of_lt hp hk hlt]
        refine same_bind_of_run fun longer q hrun => ?_
        exact ih longer q hrun ((within_continued hk hrun).depth_eq ▸ hp)

/-! ### Expressions -/

/-- Two parts one level deeper are the first part and then the second, each one level deeper. -/
theorem nested_bind {α β : Type} (r : Parse α) (f : α → Parse β) [Orderly r] (p : Parser) :
    nested (r >>= f) p = (nested r >>= fun a => nested (f a)) p := by
  have hleads := Orderly.leads (r := r) { p with depth := p.depth + 1 }
  rw [bind_run]
  unfold nested
  rw [bind_run]
  cases hrun : r { p with depth := p.depth + 1 } with
  | error e q => rfl
  | ok a q =>
      rw [hrun] at hleads
      -- The first part has left the parser one level deeper, so going up between the parts and down
      -- again changes nothing.
      have hdepth : q.depth - 1 + 1 = q.depth := by
        rw [hleads.depth_eq]
        rfl
      dsimp only
      rw [hdepth]

theorem expression_eq_nested (hp : p.depth < maxNesting) (min : Precedence) :
    expression min p = nested (operators expression min) p := by
  rw [expression_eq_turn min (Nat.le_of_lt hp), expressionTurn, get_bind_run,
    if_neg (Nat.ne_of_lt hp)]

theorem expression_of_maxNesting_le (hp : maxNesting ≤ p.depth) (min : Precedence) :
    expression min p = .error .recorded (p.record (.tooDeeplyNested p.current.span)) := by
  show expressionWithin (maxNesting - p.depth) min p = _
  rw [Nat.sub_eq_zero_of_le hp]
  rfl

/-- To read an expression at a lower precedence is to read one at a higher precedence and to go on
with it. -/
theorem expression_eq_bind (hm : m ≤ m') (p : Parser) :
    expression m p = (expression m' >>= fun e => nested (continuing m e)) p := by
  rcases Nat.lt_or_ge p.depth maxNesting with hp | hp
  · have hoperators : operators expression m { p with depth := p.depth + 1 } =
        (operators expression m' >>= continuing m) { p with depth := p.depth + 1 } := by
      show (primary expression >>= continuing m) _ =
        ((primary expression >>= continuing m') >>= continuing m) _
      rw [bind_assoc]
      refine same_bind rfl fun left q hq => continuing_eq_bind hm left ?_
      rw [hq.depth_eq]
      exact hp
    rw [expression_eq_nested hp, same_nested hoperators, nested_bind, bind_run, bind_run,
      expression_eq_nested hp]
  · rw [bind_run, expression_of_maxNesting_le hp, expression_of_maxNesting_le hp]

theorem depth_lt_of_expression {e : Expr} {q : Parser} (h : expression min p = .ok e q) :
    p.depth < maxNesting := by
  by_contra hp
  rw [expression_of_maxNesting_le (Nat.le_of_not_lt hp)] at h
  cases h

theorem nested_continuing_ends {e : Expr} {q : Parser} (hp : p.depth < maxNesting)
    (h : nested (continuing min left) p = .ok e q) : e.LeftSpine left ∧ q.StopsAt min := by
  unfold nested at h
  cases hrun : continuing min left { p with depth := p.depth + 1 } with
  | error stopped r =>
      rw [hrun] at h
      cases h
  | ok longer r =>
      rw [hrun] at h
      cases h
      obtain ⟨hspine, hstops⟩ := continuing_ends (p := { p with depth := p.depth + 1 }) hp hrun
      exact ⟨hspine, hstops⟩

theorem exists_expression_of_le {e : Expr} {q : Parser} (hm : m ≤ m')
    (h : expression m p = .ok e q) :
    ∃ e' q', expression m' p = .ok e' q' ∧ nested (continuing m e') q' = .ok e q := by
  rw [expression_eq_bind hm] at h
  exact bind_eq_ok h

theorem ends_of_goOn {low high : Precedence} {e e' : Expr} {q q' : Parser}
    (hread : expression high p = .ok e' q') (hgoOn : nested (continuing low e') q' = .ok e q) :
    e.LeftSpine e' ∧ q.StopsAt low := by
  refine nested_continuing_ends ?_ hgoOn
  rw [(Orderly.moves hread).depth_eq]
  exact depth_lt_of_expression hread

end Parse

namespace Parser

variable {p q r : Parser}

theorem place_iterate_advance (h : p.place = q.place) (hsize : p.size = q.size) (n : Nat) :
    (advance^[n] p).place = (advance^[n] q).place := by
  induction n with
  | zero => exact h
  | succ n ih =>
      rw [Function.iterate_succ_apply', Function.iterate_succ_apply']
      refine place_advance ih ?_
      rw [size_iterate_advance, size_iterate_advance, hsize]

/-- On the way to the second place the parser comes through the first one. -/
theorem Moves.exists_places (h : p.Moves q) (h' : q.Moves r) :
    ∃ n n', n ≤ n' ∧ q.place = (Parser.advance^[n] p).place ∧
      r.place = (Parser.advance^[n'] p).place := by
  obtain ⟨n, hn⟩ := h.place_eq
  obtain ⟨k, hk⟩ := h'.place_eq
  refine ⟨n, k + n, Nat.le_add_left n k, hn, ?_⟩
  rw [hk, Function.iterate_add_apply]
  refine place_iterate_advance hn ?_ k
  rw [h.size_eq, size_iterate_advance]

end Parser

/-- The lower the precedence, the further an expression goes.

Where an expression can be read at some precedence, one can be read at every higher precedence. It
is at the left end of the first one: it is the first one itself, or is found in it by going to the
left operand, the callee or the collection, again and again. It takes up the first of the tokens
that the first one takes up, and to go on with it at the lower precedence gives the first
expression and leaves the parser in the same state. And behind an expression at any precedence
there is no token that goes on with an expression and binds more tightly. -/
theorem expression_monotone {m m' : Precedence} (hm : m ≤ m') (p : Parser) :
    (∀ e q, Parse.expression m p = .ok e q → ∃ e' q',
      Parse.expression m' p = .ok e' q' ∧ e.LeftSpine e' ∧
      (∃ n' n, n' ≤ n ∧ q'.place = (Parser.advance^[n'] p).place ∧
        q.place = (Parser.advance^[n] p).place) ∧
      Parse.nested (Parse.continuing m e') q' = .ok e q) ∧
    ∀ min e q, Parse.expression min p = .ok e q →
      ∀ k, q.next.kind.continuation? = some k → k.precedence ≤ min := by
  refine ⟨fun e q h => ?_, fun min e q h => ?_⟩
  · obtain ⟨e', q', hread, hgoOn⟩ := Parse.exists_expression_of_le hm h
    exact ⟨e', q', hread, (Parse.ends_of_goOn hread hgoOn).1,
      (Parse.Orderly.moves hread).exists_places (Parse.Orderly.moves hgoOn), hgoOn⟩
  · obtain ⟨e', q', hread, hgoOn⟩ := Parse.exists_expression_of_le (le_refl min) h
    exact (Parse.ends_of_goOn hread hgoOn).2

/-- Of `a[0] * b + c < d` the product is read first, and then the sum and the comparison. -/
theorem expression_monotone_product :
    Precedence.lowest ≤ Precedence.sum ∧
    ∃ q q', Parse.expression .lowest (.ofSource "a[0] * b + c < d") =
        .ok (.binary .less (.binary .plus (.binary .times (.index (.name "a") (.int 0))
          (.name "b")) (.name "c")) (.name "d")) q ∧
      Parse.expression .sum (.ofSource "a[0] * b + c < d") =
        .ok (.binary .times (.index (.name "a") (.int 0)) (.name "b")) q' ∧
      Parse.nested (Parse.continuing .lowest (.binary .times (.index (.name "a") (.int 0))
          (.name "b"))) q' =
        .ok (.binary .less (.binary .plus (.binary .times (.index (.name "a") (.int 0))
          (.name "b")) (.name "c")) (.name "d")) q ∧
      Expr.LeftSpine (.binary .less (.binary .plus (.binary .times (.index (.name "a") (.int 0))
          (.name "b")) (.name "c")) (.name "d"))
        (.binary .times (.index (.name "a") (.int 0)) (.name "b")) := by
  have hrun : Parse.expression .lowest (.ofSource "a[0] * b + c < d") =
      .ok (.binary .less (.binary .plus (.binary .times (.index (.name "a") (.int 0))
        (.name "b")) (.name "c")) (.name "d"))
        ((Parse.expression .lowest).last (.ofSource "a[0] * b + c < d")) := by
    cbv
  have hrun' : Parse.expression .sum (.ofSource "a[0] * b + c < d") =
      .ok (.binary .times (.index (.name "a") (.int 0)) (.name "b"))
        ((Parse.expression .sum).last (.ofSource "a[0] * b + c < d")) := by
    cbv
  have hm : Precedence.lowest ≤ Precedence.sum := by decide
  obtain ⟨e', q', hread, hspine, -, hgoOn⟩ := (expression_monotone hm _).1 _ _ hrun
  obtain ⟨rfl, rfl⟩ := EStateM.Result.ok.inj (hrun'.symm.trans hread)
  exact ⟨hm, _, _, hrun, hrun', hgoOn, hspine⟩

end ScriptLang
