import ScriptLang.Proofs.Parser.Outlook

/-!
What the parser accepts, the grammar derives. A routine that yields a tree and
records nothing has gone over the terminals of a derivation of that tree, and has
stopped where the derivation cannot go on: `Phrase.Writes` is what is then known
of the derivation itself, and `Stops` what is known of the terminals after it.

The routines are taken in the order in which they use each other. Those that read
statements, lists and blocks are given the routine that reads an expression, so
their lemmas are given what is known of it (`ReadsPhrases`); the recursion over
the levels of nesting then closes the circle.
-/

namespace ScriptLang

/-! ### Where an expression ends -/

/-- No token that goes on with an expression of this precedence comes first. -/
def Stops (min : Precedence) (ts : List Terminal) : Prop :=
  ∀ t ∈ ts.head?, ∀ k, t.kind.continuation? = some k → k.precedence ≤ min

/-- Without parentheses the phrase can stand where operators of this precedence
do not reach. -/
def Phrase.Fits (min : Precedence) : Phrase → Prop
  | .binary op _ _ => min < op.precedence
  | _ => True

theorem BinaryOp.precedence_lt_unary (op : BinaryOp) : op.precedence < .unary := by
  cases op <;> decide

theorem Continuation.lowest_lt_precedence (k : Continuation) : .lowest < k.precedence := by
  cases k with
  | binary op => cases op <;> decide
  | call => decide
  | index => decide

theorem stops_nil (min : Precedence) : Stops min [] := by
  intro t ht
  cases ht

theorem stops_call (ts : List Terminal) : Stops .call ts :=
  fun _ _ k _ => k.precedence.le_call

theorem Stops.mono {a b : Precedence} {ts : List Terminal} (h : Stops a ts) (hab : a ≤ b) :
    Stops b ts :=
  fun t ht k hk => le_trans (h t ht k hk) hab

theorem startsAfresh_iff_stops {ts : List Terminal} : StartsAfresh ts ↔ Stops .lowest ts := by
  constructor
  · intro h t ht k hk
    rw [h t ht] at hk
    cases hk
  · intro h t ht
    cases hk : t.kind.continuation? with
    | none => rfl
    | some k => exact absurd (h t ht k hk) (not_le_of_gt k.lowest_lt_precedence)

/-- The terminals after an expression stop it exactly if the next token does. -/
theorem Parser.After.stops {p : Parser} {ts : List Terminal} {min : Precedence}
    (h : p.After ts) (hk : ∀ k, p.next.kind.continuation? = some k → k.precedence ≤ min) :
    Stops min ts := by
  intro t ht k hkind
  cases ts with
  | nil => cases ht
  | cons u us =>
      obtain rfl : u = t := Option.some.inj ht
      exact hk k (by rw [h.next_kind]; exact hkind)

/-! ### Derivations of trees -/

/-- The phrase is a way to write the expression within so many levels. -/
structure Phrase.Writes (φ : Phrase) (room : Nat) (e : Expr) : Prop where
  wellFormed : φ.WellFormed
  tree : φ.tree = e
  depth_le : φ.depth ≤ room

structure Phrase.EachWrites (φs : List Phrase) (room : Nat) (es : List Expr) : Prop where
  wellFormed : Phrase.EachWellFormed φs
  tree : Phrase.treeEach φs = es
  depth_le : Phrase.depthEach φs ≤ room

structure Phrase.PairsWrite (φs : List (Phrase × Phrase)) (room : Nat)
    (ps : List (Expr × Expr)) : Prop where
  wellFormed : Phrase.PairsWellFormed φs
  tree : Phrase.treePairs φs = ps
  depth_le : Phrase.depthPairs φs ≤ room

structure Sentence.Writes (σ : Sentence) (room : Nat) (s : Stmt) : Prop where
  wellFormed : σ.WellFormed
  tree : σ.tree = s
  depth_le : σ.depth ≤ room

structure Sentence.AllWrite (σs : List Sentence) (room : Nat) (ss : List Stmt) : Prop where
  wellFormed : Sentence.AllWellFormed σs
  tree : Sentence.treeAll σs = ss
  depth_le : Sentence.depthAll σs ≤ room

namespace Parse

/-- A run over `ts` that ends in `q` has read the expression `e`: a phrase for it
comes first among the terminals, and the parser is left after the phrase, at a
token that does not go on with it. -/
structure Found (φ : Phrase) (room : Nat) (min : Precedence) (ts : List Terminal) (e : Expr)
    (rest : List Terminal) (q : Parser) : Prop where
  yield : ts = φ.yield ++ rest
  after : q.After rest
  writes : φ.Writes room e
  fits : φ.Fits min
  stops : Stops min rest

/-- Clean runs of the routine read phrases. -/
def ReadsPhrases (room : Nat) (expr : Precedence → Parse Expr) : Prop :=
  ∀ {min : Precedence} {p q : Parser} {e : Expr} {ts : List Terminal}, min ≤ .unary →
    Clean (expr min) p e q → p.On ts → ∃ φ rest, Found φ room min ts e rest q

/-! ### Names -/

variable {p q : Parser} {ts : List Terminal}

theorem Clean.moreParams {n : Nat} {xs : List String} (h : Clean (moreParams n) p xs q)
    (hp : p.After ts) : ∃ rest, ts = yieldMoreNames xs ++ rest ∧ q.After rest := by
  induction n generalizing p q xs ts with
  | zero =>
      obtain ⟨rfl, rfl⟩ := h.pure_inv
      exact ⟨ts, rfl, hp⟩
  | succ n ih =>
      have h := h.of_nextKind
      split at h
      · rename_i hk
        obtain ⟨us, rfl⟩ := hp.eq_cons hk rfl
        obtain ⟨hon, h⟩ := h.of_advance hp
        obtain ⟨x, us', m, hx, hm, h⟩ := h.of_identifier hon.after
        obtain ⟨ys, m', hys, h⟩ := h.bind_inv
        obtain ⟨rest, hrest, hafter⟩ := ih hys hm
        obtain ⟨rfl, rfl⟩ := h.pure_inv
        refine ⟨rest, ?_, hafter⟩
        rw [show us = _ from hx, hrest]
        rfl
      · obtain ⟨rfl, rfl⟩ := h.pure_inv
        exact ⟨ts, rfl, hp⟩

theorem Clean.params {xs : List String} (h : Clean params p xs q) (hp : p.After ts) :
    ∃ rest, ts = yieldNames xs ++ .symbol .rightParen :: rest ∧ q.After rest := by
  have h := h.of_nextKind
  split at h
  · rename_i hk
    obtain ⟨us, rfl⟩ := hp.eq_cons hk rfl
    obtain ⟨hon, h⟩ := h.of_advance hp
    obtain ⟨rfl, rfl⟩ := h.pure_inv
    exact ⟨us, rfl, hon.after⟩
  · obtain ⟨x, us, m, rfl, hm, h⟩ := h.of_identifier hp
    obtain ⟨ys, m', hys, h⟩ := h.of_turns.bind_inv
    obtain ⟨rest, rfl, hafter⟩ := hys.moreParams hm
    obtain ⟨us', m'', rfl, hon, h⟩ := h.of_expect hafter rfl
    obtain ⟨rfl, rfl⟩ := h.pure_inv
    exact ⟨us', rfl, hon.after⟩

section

variable {expr : Precedence → Parse Expr} [∀ m, Orderly (expr m)] {room : Nat}

/-! ### Lists of expressions -/

omit [∀ m, Orderly (expr m)] in
theorem ReadsPhrases.lowest (hexpr : ReadsPhrases room expr) {e : Expr}
    (h : Clean (expr .lowest) p e q) (hp : p.On ts) :
    ∃ φ rest, Found φ room .lowest ts e rest q :=
  hexpr (by decide) h hp

theorem Clean.moreExprs (hexpr : ReadsPhrases room expr) {n : Nat} {es : List Expr}
    (h : Clean (moreExprs expr n) p es q) (hp : p.After ts) :
    ∃ φs rest, ts = Phrase.yieldMore φs ++ rest ∧ q.After rest ∧
      Phrase.EachWrites φs room es := by
  induction n generalizing p q es ts with
  | zero =>
      obtain ⟨rfl, rfl⟩ := h.pure_inv
      exact ⟨[], ts, rfl, hp, trivial, rfl, Nat.zero_le _⟩
  | succ n ih =>
      have h := h.of_nextKind
      split at h
      · rename_i hk
        obtain ⟨us, rfl⟩ := hp.eq_cons hk rfl
        obtain ⟨hon, h⟩ := h.of_advance hp
        obtain ⟨hon, h⟩ := h.of_advance hon.after
        obtain ⟨e, m, he, h⟩ := h.bind_inv
        obtain ⟨φ, rest, hφ⟩ := hexpr.lowest he hon
        obtain ⟨es', m', hes, h⟩ := h.bind_inv
        obtain ⟨φs, rest', hrest, hafter, hφs⟩ := ih hes hφ.after
        obtain ⟨rfl, rfl⟩ := h.pure_inv
        refine ⟨φ :: φs, rest', ?_, hafter, ⟨hφ.writes.wellFormed, hφs.wellFormed⟩, ?_, ?_⟩
        · rw [show us = _ from hφ.yield, hrest]
          simp [Phrase.yieldMore]
        · rw [Phrase.treeEach, hφ.writes.tree, hφs.tree]
        · exact Nat.max_le.mpr ⟨hφ.writes.depth_le, hφs.depth_le⟩
      · obtain ⟨rfl, rfl⟩ := h.pure_inv
        exact ⟨[], ts, rfl, hp, trivial, rfl, Nat.zero_le _⟩

theorem Clean.exprs (hexpr : ReadsPhrases room expr) {close : TokenKind} {es : List Expr}
    (h : Clean (exprs expr close) p es q) (hp : p.After ts)
    (hclose : close.isSymbol = true) :
    ∃ φs rest, ts = Phrase.yieldEach φs ++ .symbol close :: rest ∧ q.After rest ∧
      Phrase.EachWrites φs room es := by
  have h := h.of_nextKind
  split at h
  · rename_i hk
    obtain ⟨us, rfl⟩ := hp.eq_cons hk hclose
    obtain ⟨hon, h⟩ := h.of_advance hp
    obtain ⟨rfl, rfl⟩ := h.pure_inv
    exact ⟨[], us, rfl, hon.after, trivial, rfl, Nat.zero_le _⟩
  · obtain ⟨hon, h⟩ := h.of_advance hp
    obtain ⟨e, m, he, h⟩ := h.bind_inv
    obtain ⟨φ, rest, hφ⟩ := hexpr.lowest he hon
    obtain ⟨es', m', hes, h⟩ := h.of_turns.bind_inv
    obtain ⟨φs, rest', hrest, hafter, hφs⟩ := hes.moreExprs hexpr hφ.after
    obtain ⟨us, m'', hus, hon, h⟩ := h.of_expect hafter hclose
    obtain ⟨rfl, rfl⟩ := h.pure_inv
    subst hus
    refine ⟨φ :: φs, us, ?_, hon.after, ⟨hφ.writes.wellFormed, hφs.wellFormed⟩, ?_, ?_⟩
    · rw [hφ.yield, hrest]
      simp [Phrase.yieldEach]
    · rw [Phrase.treeEach, hφ.writes.tree, hφs.tree]
    · exact Nat.max_le.mpr ⟨hφ.writes.depth_le, hφs.depth_le⟩

set_option synthInstance.maxSize 512 in
/-- The loop over the pairs of a hash goes on behind a comma, so it needs a turn for
every pair to come; there are no more of them than terminals. -/
theorem Clean.pairs (hexpr : ReadsPhrases room expr) {n : Nat} {ps : List (Expr × Expr)}
    (h : Clean (pairs expr n) p ps q) (hp : p.After ts) (hn : ts.length < n) :
    ∃ φs rest, φs ≠ [] ∧ ts = Phrase.yieldPairs φs ++ rest ∧ q.After rest ∧
      Phrase.PairsWrite φs room ps := by
  induction n generalizing p q ps ts with
  | zero => omega
  | succ n ih =>
      obtain ⟨hon, h⟩ := h.of_advance hp
      obtain ⟨k, m₁, hk, h⟩ := h.bind_inv
      obtain ⟨φ, rest, hφ⟩ := hexpr.lowest hk hon
      obtain ⟨us, m₂, rfl, hon, h⟩ := h.of_expect hφ.after rfl
      obtain ⟨hon, h⟩ := h.of_advance hon.after
      obtain ⟨v, m₃, hv, h⟩ := h.bind_inv
      obtain ⟨ψ, rest, hψ⟩ := hexpr.lowest hv hon
      obtain rfl : us = ψ.yield ++ rest := hψ.yield
      have hyield := hφ.yield
      have h := h.of_nextKind
      split at h
      · rename_i hcomma
        obtain ⟨us, rfl⟩ := hψ.after.eq_cons hcomma rfl
        obtain ⟨hon, h⟩ := h.of_advance hψ.after
        obtain ⟨ps', m₄, hps, h⟩ := h.bind_inv
        have hlength : us.length < n := by
          have := congrArg List.length hyield
          simp only [List.length_append, List.length_cons] at this
          omega
        obtain ⟨φs, rest', hne, hus, hafter, hφs⟩ := ih hps hon.after hlength
        obtain ⟨rfl, rfl⟩ := h.pure_inv
        refine ⟨(φ, ψ) :: φs, rest', by simp, ?_, hafter,
          ⟨hφ.writes.wellFormed, hψ.writes.wellFormed, hφs.wellFormed⟩, ?_, ?_⟩
        · obtain ⟨⟨φ', ψ'⟩, φs', rfl⟩ := List.exists_cons_of_ne_nil hne
          rw [hyield, show us = _ from hus]
          simp [Phrase.yieldPairs, Phrase.yieldMorePairs]
        · rw [Phrase.treePairs, hφ.writes.tree, hψ.writes.tree, hφs.tree]
        · exact Nat.max_le.mpr ⟨hφ.writes.depth_le,
            Nat.max_le.mpr ⟨hψ.writes.depth_le, hφs.depth_le⟩⟩
      · obtain ⟨rfl, rfl⟩ := h.pure_inv
        refine ⟨[(φ, ψ)], rest, by simp, ?_, hψ.after,
          ⟨hφ.writes.wellFormed, hψ.writes.wellFormed, trivial⟩, ?_, ?_⟩
        · rw [hyield]
          simp [Phrase.yieldPairs, Phrase.yieldMorePairs]
        · rw [Phrase.treePairs, hφ.writes.tree, hψ.writes.tree, Phrase.treePairs]
        · exact Nat.max_le.mpr ⟨hφ.writes.depth_le,
            Nat.max_le.mpr ⟨hψ.writes.depth_le, Nat.zero_le _⟩⟩

theorem Clean.hashPairs (hexpr : ReadsPhrases room expr) {ps : List (Expr × Expr)}
    (h : Clean (hashPairs expr) p ps q) (hp : p.After ts) :
    ∃ φs rest, ts = Phrase.yieldPairs φs ++ .symbol .rightBrace :: rest ∧ q.After rest ∧
      Phrase.PairsWrite φs room ps := by
  have h := h.of_nextKind
  split at h
  · rename_i hk
    obtain ⟨us, rfl⟩ := hp.eq_cons hk rfl
    obtain ⟨hon, h⟩ := h.of_advance hp
    obtain ⟨rfl, rfl⟩ := h.pure_inv
    exact ⟨[], us, rfl, hon.after, trivial, rfl, Nat.zero_le _⟩
  · obtain ⟨ps', m, hps, h⟩ := h.of_turns.bind_inv
    obtain ⟨φs, rest, -, rfl, hafter, hφs⟩ := hps.pairs hexpr hp hp.length_lt
    obtain ⟨us, m', rfl, hon, h⟩ := h.of_expect hafter rfl
    obtain ⟨rfl, rfl⟩ := h.pure_inv
    exact ⟨φs, us, rfl, hon.after, hφs⟩

/-! ### Statements and blocks -/

theorem Clean.skipSemicolon {u : Unit} (h : Clean skipSemicolon p u q) (hp : p.After ts)
    (hstops : Stops .lowest ts) :
    ∃ semicolon rest, ts = ending semicolon ++ rest ∧ q.After rest ∧
      (semicolon = true ∨ StartsAfresh rest) := by
  have h := h.of_nextKind
  split at h
  · rename_i hk
    obtain ⟨us, rfl⟩ := hp.eq_cons hk rfl
    have hq : p.advance = q := by
      have hrun : EStateM.Result.ok () p.advance = .ok u q := h.run
      cases hrun
      rfl
    subst hq
    exact ⟨true, us, rfl, hp.advance.after, .inl rfl⟩
  · obtain ⟨-, rfl⟩ := h.pure_inv
    exact ⟨false, ts, rfl, hp, .inr (startsAfresh_iff_stops.mpr hstops)⟩

theorem Clean.ended (hexpr : ReadsPhrases room expr) {f : Expr → Stmt} {s : Stmt}
    (h : Clean (do let e ← expr .lowest; Parse.skipSemicolon; pure (f e)) p s q)
    (hp : p.On ts) :
    ∃ (φ : Phrase) (semicolon : Bool) (rest : List Terminal),
      ts = φ.yield ++ ending semicolon ++ rest ∧ q.After rest ∧
      (semicolon = true ∨ StartsAfresh rest) ∧ ∃ e, φ.Writes room e ∧ s = f e := by
  obtain ⟨e, m, he, h⟩ := h.bind_inv
  obtain ⟨φ, rest, hφ⟩ := hexpr.lowest he hp
  obtain ⟨u, m', hu, h⟩ := h.bind_inv
  obtain ⟨semicolon, rest', hrest, hafter, hnext⟩ := hu.skipSemicolon hφ.after hφ.stops
  obtain ⟨hs, rfl⟩ := h.pure_inv
  refine ⟨φ, semicolon, rest', ?_, hafter, hnext, e, hφ.writes, hs.symm⟩
  rw [hφ.yield, hrest, List.append_assoc]

theorem Clean.statement (hexpr : ReadsPhrases room expr) {s : Stmt}
    (h : Clean (statement expr) p s q) (hp : p.On ts) :
    ∃ (σ : Sentence) (rest : List Terminal), ts = σ.yield ++ rest ∧ q.After rest ∧
      σ.Writes room s ∧ (σ.semicolon = true ∨ StartsAfresh rest) := by
  obtain ⟨hrun, herrors⟩ := h
  unfold Parse.statement at hrun
  rw [current_bind_run] at hrun
  generalize hk : p.current.kind = kind at hrun
  split at hrun
  · obtain ⟨us, rfl⟩ := hp.eq_cons hk rfl
    have h := Clean.mk hrun herrors
    obtain ⟨x, us, m, rfl, hm, h⟩ := h.of_identifier hp.after
    obtain ⟨us, m', rfl, hon, h⟩ := h.of_expect hm rfl
    obtain ⟨hon, h⟩ := h.of_advance hon.after
    obtain ⟨φ, semicolon, rest, hus, hafter, hnext, e, hφ, rfl⟩ := h.ended hexpr hon
    refine ⟨.var x φ semicolon, rest, ?_, hafter, ⟨hφ.wellFormed, ?_, hφ.depth_le⟩, hnext⟩
    · rw [show us = _ from hus]
      simp [Sentence.yield]
    · rw [Sentence.tree, hφ.tree]
  · obtain ⟨us, rfl⟩ := hp.eq_cons hk rfl
    obtain ⟨hon, h⟩ := (Clean.mk hrun herrors).of_advance hp.after
    obtain ⟨φ, semicolon, rest, hus, hafter, hnext, e, hφ, rfl⟩ := h.ended hexpr hon
    refine ⟨.ret φ semicolon, rest, ?_, hafter, ⟨hφ.wellFormed, ?_, hφ.depth_le⟩, hnext⟩
    · rw [show us = _ from hus]
      simp [Sentence.yield]
    · rw [Sentence.tree, hφ.tree]
  · obtain ⟨φ, semicolon, rest, hus, hafter, hnext, e, hφ, rfl⟩ :=
      (Clean.mk hrun herrors).ended hexpr hp
    refine ⟨.expr φ semicolon, rest, hus, hafter, ⟨hφ.wellFormed, ?_, hφ.depth_le⟩, hnext⟩
    rw [Sentence.tree, hφ.tree]

theorem startsAfresh_of_append {ts us : List Terminal} (h : StartsAfresh (ts ++ us)) :
    StartsAfresh ts := by
  cases ts with
  | nil =>
      intro t ht
      cases ht
  | cons t ts => exact h

/-- The statements of a block have been read up to its closing brace. A broken
statement would have recorded an error, so there is none. -/
theorem Clean.blockRest (hexpr : ReadsPhrases room expr) {n : Nat} {b : Block}
    (h : Clean (blockRest expr n) p b q) (hp : p.On ts) (hn : ts.length < n) :
    ∃ σs rest, ts = Sentence.yieldAll σs ++ .symbol .rightBrace :: rest ∧ q.After rest ∧
      Sentence.AllWrite σs room b := by
  induction n generalizing p q b ts with
  | zero => omega
  | succ n ih =>
      obtain ⟨hrun, herrors⟩ := h
      unfold Parse.blockRest at hrun
      rw [current_bind_run] at hrun
      split at hrun
      · rename_i hk
        obtain ⟨us, rfl⟩ := hp.eq_cons hk rfl
        obtain ⟨rfl, rfl⟩ := (Clean.mk hrun herrors).pure_inv
        exact ⟨[], us, rfl, hp.after, trivial, rfl, Nat.zero_le _⟩
      · -- At the end of the input the brace is missing, which is an error.
        split at hrun
        · cases hrun
        · obtain ⟨s, m, hs, h⟩ := (Clean.mk hrun herrors).of_attempt fun o => by
            cases o <;> infer_instance
          obtain ⟨σ, rest, rfl, hm, hσ, hnext⟩ := hs.statement hexpr hp
          obtain ⟨hon, h⟩ := h.of_advance hm
          obtain ⟨ss, m', hss, h⟩ := h.bind_inv
          have hlength : rest.length < n := by
            have := σ.yield_length_pos
            simp only [List.length_append] at hn
            omega
          obtain ⟨σs, rest', rfl, hafter, hσs⟩ := ih hss hon hlength
          obtain ⟨rfl, rfl⟩ := h.pure_inv
          refine ⟨σ :: σs, rest', ?_, hafter, ⟨hσ.wellFormed, ?_, hσs.wellFormed⟩, ?_, ?_⟩
          · simp [Sentence.yieldAll]
          · exact hnext.imp_right startsAfresh_of_append
          · rw [Sentence.treeAll, hσ.tree, hσs.tree]
          · exact Nat.max_le.mpr ⟨hσ.depth_le, hσs.depth_le⟩

theorem Clean.block (hexpr : ReadsPhrases room expr) {b : Block}
    (h : Clean (block expr) p b q) (hp : p.After ts) :
    ∃ σs rest, ts = Sentence.yieldAll σs ++ .symbol .rightBrace :: rest ∧ q.After rest ∧
      Sentence.AllWrite σs room b := by
  obtain ⟨hon, h⟩ := h.of_advance hp
  exact h.of_turns.blockRest hexpr hon hon.length_lt

/-! ### Primary expressions -/

theorem fits_of_fits_binding {φ : Phrase} (h : φ.Fits φ.binding) (min : Precedence) :
    φ.Fits min := by
  cases φ with
  | binary op l r => exact absurd h (Nat.lt_irrefl _)
  | _ => trivial

theorem lt_binding_of_fits {φ : Phrase} {op : BinaryOp} (h : φ.Fits op.precedence) :
    op.precedence < φ.binding := by
  cases φ with
  | binary op' l r => exact h
  | unary op' e => exact op.precedence_lt_unary
  | _ => exact lt_of_lt_of_le op.precedence_lt_unary Precedence.unary.le_call

theorem unary_le_binding_of_fits {φ : Phrase} (h : φ.Fits .unary) :
    .unary ≤ φ.binding := by
  cases φ with
  | binary op l r =>
      exact absurd (Nat.lt_trans h op.precedence_lt_unary) (Nat.lt_irrefl _)
  | unary op e => exact Nat.le_refl _
  | _ => exact Precedence.unary.le_call

theorem fits_of_lt_binding {φ : Phrase} {min : Precedence} (h : min < φ.binding) :
    φ.Fits min := by
  cases φ with
  | binary op l r => exact h
  | _ => trivial

theorem Clean.unary (hexpr : ReadsPhrases room expr) {op : UnaryOp} {e : Expr}
    (h : Clean (unary expr op) p e q) (hp : p.On (.symbol op.kind :: ts)) :
    ∃ φ rest, Found φ (room + 1) φ.binding (.symbol op.kind :: ts) e rest q := by
  obtain ⟨hon, h⟩ := h.of_advance hp.after
  obtain ⟨operand, m, he, h⟩ := h.bind_inv
  obtain ⟨φ, rest, hφ⟩ := hexpr (by decide) he hon
  obtain ⟨rfl, rfl⟩ := h.pure_inv
  refine ⟨.unary op φ, rest, ?_, hφ.after, ⟨?_, ?_, ?_⟩, trivial, hφ.stops⟩
  · rw [show ts = _ from hφ.yield]
    rfl
  · exact ⟨unary_le_binding_of_fits hφ.fits, hφ.writes.wellFormed⟩
  · rw [Phrase.tree, hφ.writes.tree]
  · have := hφ.writes.depth_le
    simp only [Phrase.depth]
    omega

theorem Clean.grouped (hexpr : ReadsPhrases room expr) {e : Expr}
    (h : Clean (grouped expr) p e q) (hp : p.On (.symbol .leftParen :: ts)) :
    ∃ φ rest, Found φ (room + 1) φ.binding (.symbol .leftParen :: ts) e rest q := by
  obtain ⟨hon, h⟩ := h.of_advance hp.after
  obtain ⟨inner, m, he, h⟩ := h.bind_inv
  obtain ⟨φ, rest, hφ⟩ := hexpr.lowest he hon
  obtain ⟨us, m', rfl, hon, h⟩ := h.of_expect hφ.after rfl
  obtain ⟨rfl, rfl⟩ := h.pure_inv
  refine ⟨.paren φ, us, ?_, hon.after, ⟨hφ.writes.wellFormed, hφ.writes.tree, ?_⟩, trivial,
    stops_call us⟩
  · rw [show ts = _ from hφ.yield]
    simp [Phrase.yield]
  · have := hφ.writes.depth_le
    simp only [Phrase.depth]
    omega

theorem Clean.conditional (hexpr : ReadsPhrases room expr) {e : Expr}
    (h : Clean (conditional expr) p e q) (hp : p.On (.symbol .ifWord :: ts)) :
    ∃ φ rest, Found φ (room + 1) φ.binding (.symbol .ifWord :: ts) e rest q := by
  obtain ⟨hon, h⟩ := h.of_advance hp.after
  obtain ⟨c, m₁, hc, h⟩ := h.bind_inv
  obtain ⟨φ, rest, hφ⟩ := hexpr.lowest hc hon
  obtain ⟨us, m₂, rfl, hon, h⟩ := h.of_expect hφ.after rfl
  obtain ⟨b, m₃, hb, h⟩ := h.bind_inv
  obtain ⟨σs, rest, hus, hafter, hσs⟩ := hb.block hexpr hon.after
  have hyield := hφ.yield
  have h := h.of_nextKind
  split at h
  · rename_i hk
    obtain ⟨us', rfl⟩ := hafter.eq_cons hk rfl
    obtain ⟨hon, h⟩ := h.of_advance hafter
    obtain ⟨us'', m₄, rfl, hon, h⟩ := h.of_expect hon.after rfl
    obtain ⟨b', m₅, hb', h⟩ := h.bind_inv
    obtain ⟨τs, rest', hus'', hafter, hτs⟩ := hb'.block hexpr hon.after
    obtain ⟨rfl, rfl⟩ := h.pure_inv
    refine ⟨.cond φ σs (some τs), rest', ?_, hafter,
      ⟨⟨hφ.writes.wellFormed, hσs.wellFormed, hτs.wellFormed⟩, ?_, ?_⟩, trivial,
      stops_call rest'⟩
    · rw [show ts = _ from hyield, show us = _ from hus, show us'' = _ from hus'']
      simp [Phrase.yield, Sentence.yieldElse]
    · simp only [Phrase.tree, Sentence.treeElse, hφ.writes.tree, hσs.tree, hτs.tree]
    · have := hφ.writes.depth_le
      have := hσs.depth_le
      have := hτs.depth_le
      simp only [Phrase.depth, Sentence.depthElse]
      omega
  · obtain ⟨rfl, rfl⟩ := h.pure_inv
    refine ⟨.cond φ σs none, rest, ?_, hafter,
      ⟨⟨hφ.writes.wellFormed, hσs.wellFormed, trivial⟩, ?_, ?_⟩, trivial, stops_call rest⟩
    · rw [show ts = _ from hyield, show us = _ from hus]
      simp [Phrase.yield, Sentence.yieldElse]
    · simp only [Phrase.tree, Sentence.treeElse, hφ.writes.tree, hσs.tree]
    · have := hφ.writes.depth_le
      have := hσs.depth_le
      simp only [Phrase.depth, Sentence.depthElse]
      omega

theorem Clean.function (hexpr : ReadsPhrases room expr) {e : Expr}
    (h : Clean (function expr) p e q) (hp : p.On (.symbol .func :: ts)) :
    ∃ φ rest, Found φ (room + 1) φ.binding (.symbol .func :: ts) e rest q := by
  obtain ⟨us, m₁, hts, hon, h⟩ := h.of_expect hp.after rfl
  obtain rfl : ts = _ := hts
  obtain ⟨xs, m₂, hxs, h⟩ := h.bind_inv
  obtain ⟨rest, rfl, hafter⟩ := hxs.params hon.after
  obtain ⟨us, m₃, rfl, hon, h⟩ := h.of_expect hafter rfl
  obtain ⟨b, m₄, hb, h⟩ := h.bind_inv
  obtain ⟨σs, rest, hus, hafter, hσs⟩ := hb.block hexpr hon.after
  obtain ⟨rfl, rfl⟩ := h.pure_inv
  refine ⟨.func xs σs, rest, ?_, hafter, ⟨hσs.wellFormed, ?_, ?_⟩, trivial, stops_call rest⟩
  · rw [show us = _ from hus]
    simp [Phrase.yield]
  · rw [Phrase.tree, hσs.tree]
  · have := hσs.depth_le
    simp only [Phrase.depth]
    omega

theorem found_atom {φ : Phrase} {us : List Terminal} (hp : p.On ts)
    (hts : ts = φ.yield ++ us) (htail : ts.tail = us) (hfits : φ.Fits φ.binding)
    (hcall : φ.binding = .call) (hφ : φ.WellFormed) (hdepth : φ.depth = 1) :
    ∃ φ' rest, Found φ' (room + 1) φ'.binding ts φ.tree rest p := by
  refine ⟨φ, us, hts, htail ▸ hp.after, ⟨hφ, rfl, by omega⟩, hfits, ?_⟩
  rw [hcall]
  exact stops_call us

theorem Clean.primary (hexpr : ReadsPhrases room expr) {e : Expr}
    (h : Clean (primary expr) p e q) (hp : p.On ts) :
    ∃ φ rest, Found φ (room + 1) φ.binding ts e rest q := by
  obtain ⟨hrun, herrors⟩ := h
  unfold Parse.primary at hrun
  rw [current_bind_run] at hrun
  generalize hk : p.current.kind = kind at hrun
  split at hrun
  · obtain ⟨us, hts⟩ := hp.exists_cons (by rw [hk]; decide)
    rw [Token.terminal_eq_name hk] at hts
    obtain ⟨rfl, rfl⟩ := (Clean.mk hrun herrors).pure_inv
    exact found_atom (φ := .name p.current.literal) hp hts (by rw [hts]; rfl) trivial rfl
      trivial rfl
  · obtain ⟨us, hts⟩ := hp.exists_cons (by rw [hk]; decide)
    rw [Token.terminal_eq_int hk] at hts
    cases hn : integer? (Text.readDecimal p.current.literal) with
    | none =>
        rw [hn] at hrun
        cases hrun
    | some n =>
        rw [hn] at hrun
        obtain ⟨rfl, rfl⟩ := (Clean.mk hrun herrors).pure_inv
        exact found_atom (φ := .int p.current.literal n) hp hts (by rw [hts]; rfl) trivial rfl
          hn rfl
  · obtain ⟨us, hts⟩ := hp.exists_cons (by rw [hk]; decide)
    rw [Token.terminal_eq_str hk] at hts
    obtain ⟨rfl, rfl⟩ := (Clean.mk hrun herrors).pure_inv
    exact found_atom (φ := .str p.current.literal) hp hts (by rw [hts]; rfl) trivial rfl
      trivial rfl
  · obtain ⟨us, hts⟩ := hp.eq_cons hk rfl
    obtain ⟨rfl, rfl⟩ := (Clean.mk hrun herrors).pure_inv
    exact found_atom (φ := .bool true) hp hts (by rw [hts]; rfl) trivial rfl trivial rfl
  · obtain ⟨us, hts⟩ := hp.eq_cons hk rfl
    obtain ⟨rfl, rfl⟩ := (Clean.mk hrun herrors).pure_inv
    exact found_atom (φ := .bool false) hp hts (by rw [hts]; rfl) trivial rfl trivial rfl
  · obtain ⟨us, rfl⟩ := hp.eq_cons hk rfl
    have h : Clean (Parse.unary expr .not) p e q := ⟨hrun, herrors⟩
    exact h.unary hexpr hp
  · obtain ⟨us, rfl⟩ := hp.eq_cons hk rfl
    have h : Clean (Parse.unary expr .minus) p e q := ⟨hrun, herrors⟩
    exact h.unary hexpr hp
  · obtain ⟨us, rfl⟩ := hp.eq_cons hk rfl
    have h : Clean (Parse.unary expr .plus) p e q := ⟨hrun, herrors⟩
    exact h.unary hexpr hp
  · obtain ⟨us, rfl⟩ := hp.eq_cons hk rfl
    exact Clean.grouped hexpr ⟨hrun, herrors⟩ hp
  · obtain ⟨us, rfl⟩ := hp.eq_cons hk rfl
    exact Clean.conditional hexpr ⟨hrun, herrors⟩ hp
  · obtain ⟨us, rfl⟩ := hp.eq_cons hk rfl
    exact Clean.function hexpr ⟨hrun, herrors⟩ hp
  · obtain ⟨us, rfl⟩ := hp.eq_cons hk rfl
    obtain ⟨es, m, hes, h⟩ := (Clean.mk hrun herrors).bind_inv
    obtain ⟨φs, rest, hus, hafter, hφs⟩ := hes.exprs hexpr hp.after rfl
    obtain ⟨rfl, rfl⟩ := h.pure_inv
    refine ⟨.array φs, rest, ?_, hafter, ⟨hφs.wellFormed, ?_, ?_⟩, trivial, stops_call rest⟩
    · rw [show us = _ from hus]
      simp [Phrase.yield]
    · rw [Phrase.tree, hφs.tree]
    · have := hφs.depth_le
      simp only [Phrase.depth]
      omega
  · obtain ⟨us, rfl⟩ := hp.eq_cons hk rfl
    obtain ⟨ps, m, hps, h⟩ := (Clean.mk hrun herrors).bind_inv
    obtain ⟨φs, rest, hus, hafter, hφs⟩ := hps.hashPairs hexpr hp.after
    obtain ⟨rfl, rfl⟩ := h.pure_inv
    refine ⟨.hash φs, rest, ?_, hafter, ⟨hφs.wellFormed, ?_, ?_⟩, trivial, stops_call rest⟩
    · rw [show us = _ from hus]
      simp [Phrase.yield]
    · rw [Phrase.tree, hφs.tree]
    · have := hφs.depth_le
      simp only [Phrase.depth]
      omega
  · cases hrun

/-! ### Operators -/

theorem BinaryOp.kind_of_continuation? {kind : TokenKind} {op : BinaryOp}
    (h : kind.continuation? = some (.binary op)) : kind = op.kind := by
  cases kind <;> simp [TokenKind.continuation?] at h <;> subst h <;> rfl

theorem kind_of_continuation?_call {kind : TokenKind} (h : kind.continuation? = some .call) :
    kind = .leftParen := by
  cases kind <;> first | (cases h; done) | rfl

theorem kind_of_continuation?_index {kind : TokenKind}
    (h : kind.continuation? = some .index) : kind = .leftBracket := by
  cases kind <;> first | (cases h; done) | rfl

theorem isSymbol_of_continuation? {kind : TokenKind} {k : Continuation}
    (h : kind.continuation? = some k) : kind.isSymbol = true := by
  cases kind <;> first | (cases h; done) | decide

/-- A continuation has been read. It goes on with the phrase before it, which binds
tightly enough. -/
theorem Clean.continued (hexpr : ReadsPhrases room expr) {left e : Expr} {k : Continuation}
    {φ : Phrase} {kind : TokenKind} (hk : kind.continuation? = some k)
    (h : Clean (continued expr left k) p e q) (hp : p.On (.symbol kind :: ts))
    (hφ : φ.Writes (room + 1) left) (hbinding : k.precedence ≤ φ.binding) :
    ∃ (ψ : Phrase) (rest : List Terminal),
      φ.yield ++ .symbol kind :: ts = ψ.yield ++ rest ∧ q.After rest ∧
      rest.length ≤ ts.length ∧ ψ.Writes (room + 1) e ∧ Stops ψ.binding rest ∧
      ψ.binding = k.precedence := by
  cases k with
  | binary op =>
      obtain rfl := BinaryOp.kind_of_continuation? hk
      obtain ⟨hon, h⟩ := h.of_advance hp.after
      obtain ⟨r, m, hr, h⟩ := h.bind_inv
      obtain ⟨ψ, rest, hψ⟩ := hexpr (le_of_lt op.precedence_lt_unary) hr hon
      obtain ⟨rfl, rfl⟩ := h.pure_inv
      obtain rfl : ts = ψ.yield ++ rest := hψ.yield
      refine ⟨.binary op φ ψ, rest, by simp [Phrase.yield], hψ.after, by simp, ⟨?_, ?_, ?_⟩,
        hψ.stops, rfl⟩
      · exact ⟨⟨hbinding, lt_binding_of_fits hψ.fits⟩, hφ.wellFormed, hψ.writes.wellFormed⟩
      · rw [Phrase.tree, hφ.tree, hψ.writes.tree]
      · have := hφ.depth_le
        have := hψ.writes.depth_le
        simp only [Phrase.depth]
        omega
  | call =>
      obtain rfl := kind_of_continuation?_call hk
      obtain ⟨es, m, hes, h⟩ := h.bind_inv
      obtain ⟨φs, rest, hts, hafter, hφs⟩ := hes.exprs hexpr hp.after rfl
      obtain ⟨rfl, rfl⟩ := h.pure_inv
      obtain rfl : ts = Phrase.yieldEach φs ++ .symbol .rightParen :: rest := hts
      refine ⟨.call φ φs, rest, by simp [Phrase.yield], hafter, by simp; omega, ⟨?_, ?_, ?_⟩,
        stops_call rest, rfl⟩
      · exact ⟨hbinding, hφ.wellFormed, hφs.wellFormed⟩
      · rw [Phrase.tree, hφ.tree, hφs.tree]
      · have := hφ.depth_le
        have := hφs.depth_le
        simp only [Phrase.depth]
        omega
  | index =>
      obtain rfl := kind_of_continuation?_index hk
      obtain ⟨hon, h⟩ := h.of_advance hp.after
      obtain ⟨i, m, hi, h⟩ := h.bind_inv
      obtain ⟨ψ, rest, hψ⟩ := hexpr.lowest hi hon
      obtain ⟨us, m', rfl, hclose, h⟩ := h.of_expect hψ.after rfl
      obtain ⟨rfl, rfl⟩ := h.pure_inv
      obtain rfl : ts = ψ.yield ++ .symbol .rightBracket :: us := hψ.yield
      refine ⟨.index φ ψ, us, by simp [Phrase.yield], hclose.after, by simp; omega, ⟨?_, ?_, ?_⟩,
        stops_call us, rfl⟩
      · exact ⟨hbinding, hφ.wellFormed, hψ.writes.wellFormed⟩
      · rw [Phrase.tree, hφ.tree, hψ.writes.tree]
      · have := hφ.depth_le
        have := hψ.writes.depth_le
        simp only [Phrase.depth]
        omega

/-- All continuations that bind more tightly than `min` have been read. The phrase
grows to the right, and it never holds together more loosely than `min`. -/
theorem Clean.continuations (hexpr : ReadsPhrases room expr) {min : Precedence} {n : Nat}
    {left e : Expr} {φ : Phrase} (h : Clean (continuations expr min n left) p e q)
    (hp : p.After ts) (hn : ts.length < n) (hφ : φ.Writes (room + 1) left)
    (hfits : φ.Fits min) (hstops : Stops φ.binding ts) :
    ∃ ψ rest, Found ψ (room + 1) min (φ.yield ++ ts) e rest q := by
  induction n generalizing p q left φ ts with
  | zero => omega
  | succ n ih =>
      have h := h.of_nextKind
      cases hk : p.next.kind.continuation? with
      | none =>
          rw [hk] at h
          obtain ⟨rfl, rfl⟩ := h.pure_inv
          exact ⟨φ, ts, rfl, hp, hφ, hfits, hp.stops fun k hk' => by rw [hk] at hk'; cases hk'⟩
      | some k =>
          rw [hk] at h
          by_cases hmin : k.precedence ≤ min
          · obtain ⟨rfl, rfl⟩ := Clean.pure_inv (by simpa only [if_pos hmin] using h)
            refine ⟨φ, ts, rfl, hp, hφ, hfits, hp.stops fun k' hk' => ?_⟩
            rw [hk] at hk'
            cases hk'
            exact hmin
          · replace h : Clean (do
                advance
                let longer ← Parse.continued expr left k
                Parse.continuations expr min n longer) p e q := by
              simpa only [if_neg hmin] using h
            -- `k` binds no more tightly than `φ`, or it would be a part of `φ` by now; and
            -- more tightly than `min`, so what it makes of `φ` fits as `φ` did.
            obtain ⟨us, rfl⟩ := hp.eq_cons rfl (isSymbol_of_continuation? hk)
            obtain ⟨hon, h⟩ := h.of_advance hp
            obtain ⟨longer, m, hlonger, h⟩ := h.bind_inv
            obtain ⟨ψ, rest, hyield, hafter, hlength, hψ, hnext, hbinding⟩ :=
              hlonger.continued hexpr hk hon hφ (hstops _ rfl k hk)
            rw [hyield]
            refine ih h hafter ?_ hψ ?_ hnext
            · simp only [List.length_cons] at hn
              omega
            · exact fits_of_lt_binding (hbinding ▸ lt_of_not_ge hmin)

theorem Clean.operators (hexpr : ReadsPhrases room expr) {min : Precedence} {e : Expr}
    (h : Clean (operators expr min) p e q) (hp : p.On ts) :
    ∃ φ rest, Found φ (room + 1) min ts e rest q := by
  obtain ⟨left, m, hleft, h⟩ := h.bind_inv
  obtain ⟨φ, rest, hφ⟩ := hleft.primary hexpr hp
  rw [hφ.yield]
  exact h.of_turns.continuations hexpr hφ.after hφ.after.length_lt hφ.writes
    (fits_of_fits_binding hφ.fits min) hφ.stops

end

/-! ### Levels -/

theorem Clean.nested {r : Parse Expr} {e : Expr} (h : Clean (nested r) p e q)
    (hp : p.On ts) : ∃ p' q' : Parser, Clean r p' e q' ∧ p'.On ts ∧
      q = { q' with depth := q'.depth - 1 } := by
  obtain ⟨hrun, herrors⟩ := h
  unfold Parse.nested at hrun
  cases hr : r { p with depth := p.depth + 1 } with
  | error e m =>
      rw [hr] at hrun
      cases hrun
  | ok a m =>
      rw [hr] at hrun
      cases hrun
      exact ⟨_, m, ⟨hr, herrors⟩, hp.withDepth _, rfl⟩

/-- On every level, what is read without an error is a phrase that needs no more
levels than there are. -/
theorem readsPhrases_expressionWithin (room : Nat) :
    ReadsPhrases room (expressionWithin room) := by
  induction room with
  | zero =>
      intro min p q e ts _ h _
      cases h.run
  | succ room ih =>
      intro min p q e ts _ h hp
      obtain ⟨p', q', hrun, hp', rfl⟩ := Clean.nested h hp
      obtain ⟨φ, rest, hφ⟩ := hrun.operators ih hp'
      exact ⟨φ, rest, hφ.yield, hφ.after.withDepth _, hφ.writes, hφ.fits, hφ.stops⟩

end Parse

/-! ### Programs -/

/-- Outside of all expressions every level is still free. -/
theorem Parse.expression_run {p : Parser} (h : p.depth = 0) (min : Precedence) :
    expression min p = expressionWithin maxNesting min p := by
  unfold expression
  rw [get_bind_run, h, Nat.sub_zero]

theorem Parse.statement_expression_run {p : Parser} (h : p.depth = 0) :
    statement expression p = statement (expressionWithin maxNesting) p := by
  unfold statement
  rw [current_bind_run, current_bind_run]
  generalize p.current.kind = kind
  split
  · rw [identifier_bind_run, identifier_bind_run]
    split
    · rw [expect_bind_run, expect_bind_run]
      split
      · rw [advance_bind_run, advance_bind_run, bind_run, bind_run,
          expression_run (p := p.advance.advance.advance) h]
      · rfl
    · rfl
  · rw [advance_bind_run, advance_bind_run, bind_run, bind_run,
      expression_run (p := p.advance) h]
  · rw [bind_run, bind_run, expression_run h]

/-- Statements that are read without an error are those of a derivation. -/
theorem Parser.On.allWrite {n : Nat} {p : Parser} {ts : List Terminal} (hp : p.On ts)
    (hn : ts.length < n) (hdepth : p.depth = 0)
    (herrors : (p.statements n).2.errors = p.errors) :
    ∃ σs, ts = Sentence.yieldAll σs ∧
      Sentence.AllWrite σs maxNesting (p.statements n).1 := by
  induction n generalizing p ts with
  | zero => omega
  | succ n ih =>
      rw [statements] at herrors ⊢
      split at herrors
      · rename_i hk
        rw [if_pos hk]
        cases ts with
        | nil => exact ⟨[], rfl, trivial, rfl, Nat.zero_le _⟩
        | cons t ts =>
            rw [hp.current_kind] at hk
            exact absurd hk (hp.present t List.mem_cons_self)
      · rename_i hk
        rw [if_neg hk]
        have hs := Parse.Orderly.leads (r := Parse.statement Parse.expression) p
        cases hr : Parse.statement Parse.expression p with
        | error e q =>
            rw [hr] at hs herrors
            have hgrow := (moves_synchronize q).advance.trans (moves_statements n _)
            have hlength := hgrow.errors_grow.length_le
            have := hs.2
            rw [herrors] at hlength
            omega
        | ok s q =>
            rw [hr] at hs herrors
            have hmoves : p.Moves q := hs
            have hlast := (Moves.refl.advance).trans (moves_statements n q.advance)
            -- Nothing is recorded by the end, so nothing was recorded up to here.
            have heq : q.errors = p.errors := by
              have hgrow := hlast.errors_grow
              rw [herrors] at hgrow
              exact hgrow.eq_of_length_le hmoves.errors_grow.length_le
            rw [Parse.statement_expression_run hdepth] at hr
            obtain ⟨σ, rest, rfl, hq, hσ, hnext⟩ := (Parse.Clean.mk hr heq).statement
              (Parse.readsPhrases_expressionWithin maxNesting) hp
            have hlength : rest.length < n := by
              have := σ.yield_length_pos
              simp only [List.length_append] at hn
              omega
            obtain ⟨σs, rfl, hσs⟩ := ih hq.advance hlength
              (by rw [← hdepth, ← hmoves.depth_eq]; rfl)
              (by rw [herrors, ← heq, hq.errors_advance])
            refine ⟨σ :: σs, rfl, ⟨hσ.wellFormed, hnext, hσs.wellFormed⟩, ?_, ?_⟩
            · rw [Sentence.treeAll, hσ.tree, hσs.tree]
            · exact Nat.max_le.mpr ⟨hσ.depth_le, hσs.depth_le⟩

end ScriptLang
