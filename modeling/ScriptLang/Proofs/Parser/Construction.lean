import ScriptLang.Proofs.Parser.LexicalErrors

/-!
What the parser builds. Whatever is wrong with a source text, the trees that come out of it
are made by a few rules only: an expression is put together from expressions that were read
one level below it, and by an operator, a call or an index from the expression to the left
of it, which was read on the same level. So to know something of all trees it is enough to
know that each of these ways keeps it (`Parse.Construction`); what was recorded as wrong,
and what was left out because of it, makes no difference.

`Parse.Produces P r` says that every tree that a routine yields has the property `P`. The
tokens behind it are those of a source text, so names are names, and an integer is the value
of a row of digits.
-/

namespace ScriptLang

/-- A statement that is made of a name, if it declares one, and of an expression with the
property. -/
def Stmt.MadeOf (P : Expr → Prop) : Stmt → Prop
  | .var x e => IsName x ∧ P e
  | .ret e | .expr e => P e

/-- An expression has the property `Q` if the parts that were read one level below it have
the property `P`, and the one to the left of an operator, a call or an index has the
property `Q` already. -/
structure Parse.Construction (P Q : Expr → Prop) : Prop where
  name : ∀ {x : String}, IsName x → Q (.name x)
  int : ∀ {n : Int64}, 0 ≤ n.toInt → Q (.int n)
  str : ∀ s : String, Q (.str s)
  bool : ∀ b : Bool, Q (.bool b)
  /-- Parentheses leave nothing behind in the tree. -/
  grouped : ∀ {e : Expr}, P e → Q e
  unary : ∀ (op : UnaryOp) {e : Expr}, P e → Q (.unary op e)
  cond : ∀ {c : Expr} {t : Block} {a : Option Block}, P c → (∀ s ∈ t, s.MadeOf P) →
    (∀ b, a = some b → ∀ s ∈ b, s.MadeOf P) → Q (.cond c t a)
  func : ∀ {xs : List String} {b : Block}, (∀ x ∈ xs, IsName x) → (∀ s ∈ b, s.MadeOf P) →
    Q (.func xs b)
  array : ∀ {es : List Expr}, (∀ e ∈ es, P e) → Q (.array es)
  hash : ∀ {ps : List (Expr × Expr)}, (∀ p ∈ ps, P p.1 ∧ P p.2) → Q (.hash ps)
  binary : ∀ (op : BinaryOp) {l r : Expr}, Q l → P r → Q (.binary op l r)
  call : ∀ {f : Expr} {es : List Expr}, Q f → (∀ e ∈ es, P e) → Q (.call f es)
  index : ∀ {c i : Expr}, Q c → P i → Q (.index c i)

namespace Parse

variable {α β : Type} {P : α → Prop} {Q : β → Prop}

structure Produces (P : α → Prop) (r : Parse α) : Prop where
  of_run : ∀ {p q : Parser} {a : α}, p.Scanned → r p = .ok a q → P a

theorem produces_pure {a : α} (h : P a) : Produces P (pure a) := by
  refine ⟨fun _ hrun => ?_⟩
  cases hrun
  exact h

theorem produces_fail (e : SyntaxError) : Produces P (fail e) := by
  refine ⟨fun _ hrun => ?_⟩
  cases hrun

theorem produces_bind {r : Parse α} {f : α → Parse β} [Orderly r] (h : Produces P r)
    (hf : ∀ a, P a → Produces Q (f a)) : Produces Q (r >>= f) := by
  refine ⟨fun {p q b} hp hrun => ?_⟩
  obtain ⟨a, m, hr, hrun⟩ := bind_eq_ok hrun
  have hm : m.Scanned := (Orderly.moves hr).scanned hp
  exact (hf a (h.of_run hp hr)).of_run hm hrun

/-- Of some parts of a routine only the state matters that they leave behind. -/
theorem produces_skip {r : Parse α} {f : α → Parse β} [Orderly r]
    (hf : ∀ a, Produces Q (f a)) : Produces Q (r >>= f) :=
  produces_bind (P := fun _ => True) ⟨fun _ _ => trivial⟩ fun a _ => hf a

theorem produces_ite {c : Prop} [Decidable c] {r r' : Parse α} (h : Produces P r)
    (h' : Produces P r') : Produces P (if c then r else r') := by
  split
  · exact h
  · exact h'

theorem produces_nested {r : Parse α} (h : Produces P r) : Produces P (nested r) := by
  refine ⟨fun {p q a} hp hrun => ?_⟩
  unfold nested at hrun
  have hp' : Parser.Scanned { p with depth := p.depth + 1 } :=
    ⟨hp.ahead, hp.current, hp.next, hp.next_end, hp.current_end⟩
  cases hr : r { p with depth := p.depth + 1 } with
  | error e m =>
      rw [hr] at hrun
      cases hrun
  | ok b m =>
      rw [hr] at hrun
      cases hrun
      exact h.of_run hp' hr

theorem produces_attempt {r : Parse α} (h : Produces P r) :
    Produces (fun o => ∀ a, o = some a → P a) (attempt r) := by
  refine ⟨fun {p q o} hp hrun a ha => ?_⟩
  unfold attempt at hrun
  subst ha
  cases hr : r p with
  | error e m =>
      rw [hr] at hrun
      cases hrun
  | ok b m =>
      rw [hr] at hrun
      cases hrun
      exact h.of_run hp hr

/-! ### Names -/

theorem produces_identifier : Produces IsName identifier := by
  refine ⟨fun {p q x} hp hrun => ?_⟩
  have h : (identifier >>= Pure.pure) p = .ok x q := by
    rw [bind_run, hrun]
    rfl
  rw [identifier_bind_run] at h
  split at h
  · rename_i hk
    cases h
    exact hp.next hk
  · cases h

theorem produces_moreParams (n : Nat) : Produces (∀ x ∈ ·, IsName x) (moreParams n) := by
  induction n with
  | zero => exact produces_pure (by simp)
  | succ n ih =>
      refine produces_skip fun kind => produces_ite ?_ (produces_pure (by simp))
      refine produces_skip fun _ => produces_bind produces_identifier fun x hx => ?_
      exact produces_bind ih fun xs hxs => produces_pure (List.forall_mem_cons.mpr ⟨hx, hxs⟩)

theorem produces_params : Produces (∀ x ∈ ·, IsName x) params := by
  refine produces_skip fun kind => produces_ite
    (produces_skip fun _ => produces_pure (by simp)) ?_
  refine produces_bind produces_identifier fun x hx => produces_skip fun n => ?_
  refine produces_bind (produces_moreParams n) fun xs hxs => produces_skip fun _ => ?_
  exact produces_pure (List.forall_mem_cons.mpr ⟨hx, hxs⟩)

section

variable {expr : Precedence → Parse Expr} [∀ m, Orderly (expr m)] {P Q : Expr → Prop}

/-! ### Lists, statements and blocks -/

theorem produces_moreExprs (hexpr : ∀ m, Produces P (expr m)) (n : Nat) :
    Produces (∀ e ∈ ·, P e) (moreExprs expr n) := by
  induction n with
  | zero => exact produces_pure nofun
  | succ n ih =>
      refine produces_skip fun kind => produces_ite ?_ (produces_pure nofun)
      refine produces_skip fun _ => produces_skip fun _ => ?_
      exact produces_bind (hexpr _) fun e he => produces_bind ih fun es hes =>
        produces_pure (List.forall_mem_cons.mpr ⟨he, hes⟩)

theorem produces_exprs (hexpr : ∀ m, Produces P (expr m)) (close : TokenKind) :
    Produces (∀ e ∈ ·, P e) (exprs expr close) := by
  refine produces_skip fun kind => produces_ite
    (produces_skip fun _ => produces_pure nofun) ?_
  refine produces_skip fun _ => produces_bind (hexpr _) fun e he => produces_skip fun n => ?_
  refine produces_bind (produces_moreExprs hexpr n) fun es hes => produces_skip fun _ => ?_
  exact produces_pure (List.forall_mem_cons.mpr ⟨he, hes⟩)

theorem produces_pairs (hexpr : ∀ m, Produces P (expr m)) (n : Nat) :
    Produces (∀ p ∈ ·, P p.1 ∧ P p.2) (pairs expr n) := by
  induction n with
  | zero => exact produces_pure nofun
  | succ n ih =>
      refine produces_skip fun _ => produces_bind (hexpr _) fun k hk => ?_
      refine produces_skip fun _ => produces_skip fun _ => ?_
      refine produces_bind (hexpr _) fun v hv => produces_skip fun kind => ?_
      refine produces_ite ?_ (produces_pure (List.forall_mem_singleton.mpr ⟨hk, hv⟩))
      refine produces_skip fun _ => produces_bind ih fun ps hps => ?_
      exact produces_pure (List.forall_mem_cons.mpr ⟨⟨hk, hv⟩, hps⟩)

theorem produces_hashPairs (hexpr : ∀ m, Produces P (expr m)) :
    Produces (∀ p ∈ ·, P p.1 ∧ P p.2) (hashPairs expr) := by
  refine produces_skip fun kind => produces_ite
    (produces_skip fun _ => produces_pure nofun) (produces_skip fun n => ?_)
  exact produces_bind (produces_pairs hexpr n) fun ps hps => produces_skip fun _ =>
    produces_pure hps

theorem produces_statement (hexpr : ∀ m, Produces P (expr m)) :
    Produces (Stmt.MadeOf P) (statement expr) := by
  refine produces_skip fun token => ?_
  split
  · refine produces_bind produces_identifier fun x hx => ?_
    refine produces_skip fun _ => produces_skip fun _ => ?_
    exact produces_bind (hexpr _) fun e he => produces_skip fun _ => produces_pure ⟨hx, he⟩
  · refine produces_skip fun _ => ?_
    exact produces_bind (hexpr _) fun e he => produces_skip fun _ => produces_pure he
  · exact produces_bind (hexpr _) fun e he => produces_skip fun _ => produces_pure he

theorem produces_blockRest (hexpr : ∀ m, Produces P (expr m)) (n : Nat) :
    Produces (∀ s ∈ ·, s.MadeOf P) (blockRest expr n) := by
  induction n with
  | zero => exact produces_pure nofun
  | succ n ih =>
      refine produces_skip fun token => produces_ite (produces_pure nofun) ?_
      refine produces_ite (produces_fail _) ?_
      refine produces_bind (produces_attempt (produces_statement hexpr)) fun o ho => ?_
      cases o with
      | some s =>
          refine produces_skip fun _ => produces_bind ih fun ss hss => ?_
          exact produces_pure (List.forall_mem_cons.mpr ⟨ho s rfl, hss⟩)
      | none =>
          -- Nothing is known of a broken statement, but nothing of it is kept either.
          refine produces_skip fun _ => produces_skip fun token => ?_
          exact produces_ite (produces_pure nofun) (produces_skip fun _ => ih)

theorem produces_block (hexpr : ∀ m, Produces P (expr m)) :
    Produces (∀ s ∈ ·, s.MadeOf P) (block expr) :=
  produces_skip fun _ => produces_skip fun n => produces_blockRest hexpr n

/-! ### Expressions -/

theorem produces_unary (h : Construction P Q) (hexpr : ∀ m, Produces P (expr m))
    (op : UnaryOp) : Produces Q (unary expr op) :=
  produces_skip fun _ => produces_bind (hexpr _) fun _ he => produces_pure (h.unary op he)

theorem produces_grouped (h : Construction P Q) (hexpr : ∀ m, Produces P (expr m)) :
    Produces Q (grouped expr) :=
  produces_skip fun _ => produces_bind (hexpr _) fun _ he => produces_skip fun _ =>
    produces_pure (h.grouped he)

theorem produces_conditional (h : Construction P Q) (hexpr : ∀ m, Produces P (expr m)) :
    Produces Q (conditional expr) := by
  refine produces_skip fun _ => produces_bind (hexpr _) fun c hc => produces_skip fun _ => ?_
  refine produces_bind (produces_block hexpr) fun t ht => produces_skip fun kind => ?_
  refine produces_ite ?_ (produces_pure (h.cond hc ht nofun))
  refine produces_skip fun _ => produces_skip fun _ => ?_
  refine produces_bind (produces_block hexpr) fun b hb => produces_pure (h.cond hc ht ?_)
  rintro _ ⟨⟩
  exact hb

theorem produces_function (h : Construction P Q) (hexpr : ∀ m, Produces P (expr m)) :
    Produces Q (function expr) := by
  refine produces_skip fun _ => produces_bind produces_params fun xs hxs => ?_
  refine produces_skip fun _ => produces_bind (produces_block hexpr) fun b hb => ?_
  exact produces_pure (h.func hxs hb)

/-- A row of digits never stands for a negative number. -/
theorem toInt_nonneg_of_digits {digits : String} {n : Int64}
    (h : integer? (Text.readDecimal digits) = some n) : 0 ≤ n.toInt := by
  rw [integer?_eq_some_iff.mp h]
  exact Int.natCast_nonneg _

theorem produces_primary (h : Construction P Q) (hexpr : ∀ m, Produces P (expr m)) :
    Produces Q (primary expr) := by
  refine ⟨fun {p q e} hp hrun => ?_⟩
  unfold primary at hrun
  rw [current_bind_run] at hrun
  generalize hk : p.current.kind = kind at hrun
  split at hrun
  · cases hrun
    exact h.name (hp.current hk)
  · cases hn : integer? (Text.readDecimal p.current.literal) with
    | none =>
        rw [hn] at hrun
        cases hrun
    | some n =>
        rw [hn] at hrun
        cases hrun
        exact h.int (toInt_nonneg_of_digits hn)
  · cases hrun
    exact h.str _
  · cases hrun
    exact h.bool _
  · cases hrun
    exact h.bool _
  · exact (produces_unary h hexpr .not).of_run hp hrun
  · exact (produces_unary h hexpr .minus).of_run hp hrun
  · exact (produces_unary h hexpr .plus).of_run hp hrun
  · exact (produces_grouped h hexpr).of_run hp hrun
  · exact (produces_conditional h hexpr).of_run hp hrun
  · exact (produces_function h hexpr).of_run hp hrun
  · have harray : Produces Q (exprs expr .rightBracket >>= fun es => pure (.array es)) :=
      produces_bind (produces_exprs hexpr _) fun es hes => produces_pure (h.array hes)
    exact harray.of_run hp hrun
  · have hhash : Produces Q (hashPairs expr >>= fun ps => pure (.hash ps)) :=
      produces_bind (produces_hashPairs hexpr) fun ps hps => produces_pure (h.hash hps)
    exact hhash.of_run hp hrun
  · cases hrun

theorem produces_continued (h : Construction P Q) (hexpr : ∀ m, Produces P (expr m))
    {left : Expr} (hleft : Q left) (k : Continuation) :
    Produces Q (continued expr left k) := by
  cases k with
  | binary op =>
      exact produces_skip fun _ => produces_bind (hexpr _) fun r hr =>
        produces_pure (h.binary op hleft hr)
  | call =>
      exact produces_bind (produces_exprs hexpr _) fun es hes =>
        produces_pure (h.call hleft hes)
  | index =>
      exact produces_skip fun _ => produces_bind (hexpr _) fun i hi => produces_skip fun _ =>
        produces_pure (h.index hleft hi)

theorem produces_continuations (h : Construction P Q) (hexpr : ∀ m, Produces P (expr m))
    (min : Precedence) (n : Nat) {left : Expr} (hleft : Q left) :
    Produces Q (continuations expr min n left) := by
  induction n generalizing left with
  | zero => exact produces_pure hleft
  | succ n ih =>
      refine produces_skip fun kind => ?_
      cases kind.continuation? with
      | none => exact produces_pure hleft
      | some k =>
          refine produces_ite (produces_pure hleft) (produces_skip fun _ => ?_)
          exact produces_bind (produces_continued h hexpr hleft k) fun e he => ih he

theorem produces_operators (h : Construction P Q) (hexpr : ∀ m, Produces P (expr m))
    (min : Precedence) : Produces Q (operators expr min) :=
  produces_bind (produces_primary h hexpr) fun _ he => produces_skip fun n =>
    produces_continuations h hexpr min n he

end

section

variable {P : Nat → Expr → Prop}

/-- What is constructed level by level is what the routine yields that has so many
levels. -/
theorem produces_expressionWithin (h : ∀ room, Construction (P room) (P (room + 1)))
    (room : Nat) : ∀ m, Produces (P room) (expressionWithin room m) := by
  induction room with
  | zero =>
      refine fun m => ⟨fun _ hrun => ?_⟩
      cases hrun
  | succ room ih => exact fun m => produces_nested (produces_operators (h room) ih m)

/-- An expression that takes fewer levels could stand in parentheses on the levels that are
left over. -/
theorem construction_mono (h : ∀ room, Construction (P room) (P (room + 1))) {n m : Nat}
    (hle : n ≤ m) {e : Expr} (he : P n e) : P m e := by
  induction hle with
  | refl => exact he
  | step _ ih => exact (h _).grouped ih

theorem produces_expression (h : ∀ room, Construction (P room) (P (room + 1))) (m : Precedence) :
    Produces (P maxNesting) (expression m) :=
  ⟨fun hp hrun =>
    construction_mono h (Nat.sub_le _ _) ((produces_expressionWithin h _ m).of_run hp hrun)⟩

end

end Parse

/-! ### Programs -/

section

variable {P : Nat → Expr → Prop}

theorem Parser.Scanned.madeOf_statements
    (h : ∀ room, Parse.Construction (P room) (P (room + 1))) {n : Nat} {p : Parser}
    (hp : p.Scanned) : ∀ s ∈ (p.statements n).1, s.MadeOf (P maxNesting) := by
  induction n generalizing p with
  | zero => exact List.forall_mem_nil _
  | succ n ih =>
      have hmoves := Parse.Orderly.leads (r := Parse.statement Parse.expression) p
      rw [statements]
      split
      · exact List.forall_mem_nil _
      · cases hr : Parse.statement Parse.expression p with
        | ok s q =>
            rw [hr] at hmoves
            have hs : s.MadeOf (P maxNesting) :=
              (Parse.produces_statement (Parse.produces_expression h)).of_run hp hr
            have hq : q.Scanned := Moves.scanned hmoves hp
            exact List.forall_mem_cons.mpr ⟨hs, ih hq.advance⟩
        | error e q =>
            rw [hr] at hmoves
            -- The broken statement is left out, and what comes after it is read as before.
            have hq : q.synchronize.Scanned := (hmoves.1.trans q.moves_synchronize).scanned hp
            exact ih hq.advance

theorem madeOf_parse (h : ∀ room, Parse.Construction (P room) (P (room + 1)))
    (source : String) : ∀ s ∈ (parse source).1, s.MadeOf (P maxNesting) := by
  let p := Parser.ofSource source
  show ∀ s ∈ (p.statements (p.left + 2)).1, s.MadeOf (P maxNesting)
  exact (Parser.scanned_ofSource source).madeOf_statements h

end

end ScriptLang
