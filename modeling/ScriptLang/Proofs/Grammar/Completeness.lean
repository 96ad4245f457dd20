import ScriptLang.Proofs.Grammar.Soundness
import ScriptLang.Proofs.Parser.KnownTerminals

/-!
What the grammar derives, the parser accepts. Over the terminals of a derivation a
routine reads the tree of the derivation, provided that the terminals behind it do
not go on with it (`Follows`). The levels that this takes are the `depth` of the
derivation, to the letter: with one level less, the parser says that there are too
few.

The routines are taken in the same order as for soundness. The one place where
derivation and run differ in shape are the operators. A derivation that ends in an
operation has the left operand inside, while a run reads that operand first and
then goes on; so the lemma about operators (`Reads.operators_bind`) follows the
left operands down and is told what the run does behind the phrase.
-/

namespace ScriptLang

/-! ### What comes behind an expression -/

/-- The terminals can come behind an expression: they neither go on with it nor
begin with the `else` of a conditional. -/
structure Follows (min : Precedence) (ts : List Terminal) : Prop where
  stops : Stops min ts
  noElse : (Terminal.first ts).kind ≠ .elseWord

theorem follows_nil (min : Precedence) : Follows min [] :=
  ⟨stops_nil min, by decide⟩

/-- A token that can come behind an expression of any level. -/
def TokenKind.follows (kind : TokenKind) : Bool :=
  kind.continuation?.isNone && kind != .elseWord

theorem follows_symbol {kind : TokenKind} (min : Precedence) (ts : List Terminal)
    (h : kind.follows = true) : Follows min (.symbol kind :: ts) := by
  obtain ⟨hnone, helse⟩ := Bool.and_eq_true_iff.mp h
  refine ⟨fun t ht k hk => ?_, bne_iff_ne.mp helse⟩
  obtain rfl : .symbol kind = t := Option.some.inj ht
  rw [show (Terminal.symbol kind).kind = kind from rfl, Option.isNone_iff_eq_none.mp hnone] at hk
  cases hk

theorem Follows.mono {a b : Precedence} {ts : List Terminal} (h : Follows a ts) (hab : a ≤ b) :
    Follows b ts :=
  ⟨h.stops.mono hab, h.noElse⟩

theorem BinaryOp.continuation?_kind (op : BinaryOp) :
    op.kind.continuation? = some (.binary op) := by
  cases op <;> rfl

/-- What goes on with an expression comes behind every phrase that binds as tightly. -/
theorem follows_continuation {kind : TokenKind} {k : Continuation} {min : Precedence}
    (hk : kind.continuation? = some k) (hmin : k.precedence ≤ min) (ts : List Terminal) :
    Follows min (.symbol kind :: ts) := by
  refine ⟨fun t ht k' hk' => ?_, ?_⟩
  · obtain rfl : .symbol kind = t := Option.some.inj ht
    obtain rfl : k = k' := Option.some.inj (hk.symm.trans hk')
    exact hmin
  · rintro rfl
    cases hk

theorem Phrase.fits_lowest (φ : Phrase) : φ.Fits .lowest := by
  cases φ with
  | binary op l r => exact (Continuation.binary op).lowest_lt_precedence
  | _ => trivial

def TokenKind.Closes (kind : TokenKind) : Prop :=
  kind.follows = true ∧ kind ≠ .comma ∧ kind.opensPhrase = false

instance (kind : TokenKind) : Decidable kind.Closes :=
  inferInstanceAs (Decidable (_ ∧ _))

namespace Parser

variable {p : Parser} {φ : Phrase} {σ : Sentence} {ts : List Terminal}

theorem After.next_opensPhrase (h : p.After (φ.yield ++ ts)) :
    p.next.kind.opensPhrase = true := by
  obtain ⟨t, us, hyield, ht⟩ := φ.yield_eq_cons
  rw [h.next_kind, hyield]
  exact ht

theorem On.current_opensPhrase (h : p.On (φ.yield ++ ts)) :
    p.current.kind.opensPhrase = true := by
  obtain ⟨t, us, hyield, ht⟩ := φ.yield_eq_cons
  rw [h.current_kind, hyield]
  exact ht

theorem On.current_opensSentence (h : p.On (σ.yield ++ ts)) :
    p.current.kind.opensSentence = true := by
  obtain ⟨t, us, hyield, ht⟩ := σ.yield_eq_cons
  rw [h.current_kind, hyield]
  exact ht

end Parser

/-- A phrase that does not begin with another phrase. -/
def Phrase.isPrimary : Phrase → Bool
  | .binary _ _ _ | .call _ _ | .index _ _ => false
  | _ => true

/-- Induction over the phrases that a phrase begins with. -/
theorem Phrase.leftInduction {motive : Phrase → Prop}
    (primary : ∀ φ : Phrase, φ.isPrimary = true → motive φ)
    (binary : ∀ op l r, motive l → motive (.binary op l r))
    (call : ∀ f φs, motive f → motive (.call f φs))
    (index : ∀ c i, motive c → motive (.index c i)) : ∀ φ, motive φ
  | .binary op l r => binary op l r (leftInduction primary binary call index l)
  | .call f φs => call f φs (leftInduction primary binary call index f)
  | .index c i => index c i (leftInduction primary binary call index c)
  | .name _ | .int _ _ | .str _ | .bool _ | .paren _ | .unary _ _ | .cond _ _ _
  | .func _ _ | .array _ | .hash _ => primary _ rfl

/-- A sentence comes to its end before these terminals. With a semicolon it always
does. -/
def EndsBefore (semicolon : Bool) (ts : List Terminal) : Prop :=
  semicolon = true ∨ Follows .lowest ts ∧ (Terminal.first ts).kind ≠ .semicolon

theorem EndsBefore.follows {semicolon : Bool} {ts : List Terminal}
    (h : EndsBefore semicolon ts) : Follows .lowest (ending semicolon ++ ts) := by
  cases semicolon with
  | true => exact follows_symbol .lowest ts rfl
  | false =>
      rcases h with h | h
      · cases h
      · exact h.1

/-- A sentence of a program or a block comes to its end before the rest of it. -/
theorem endsBefore_yieldAll {σ : Sentence} {σs : List Sentence} {ts : List Terminal}
    (h : Sentence.AllWellFormed (σ :: σs)) (hts : Follows .lowest ts)
    (hts' : (Terminal.first ts).kind ≠ .semicolon) :
    EndsBefore σ.semicolon (Sentence.yieldAll σs ++ ts) := by
  refine h.2.1.imp_right fun hafresh => ?_
  cases σs with
  | nil => exact ⟨hts, hts'⟩
  | cons τ τs =>
      obtain ⟨t, us, hyield, ht⟩ := τ.yield_eq_cons
      rw [Sentence.yieldAll, hyield] at hafresh ⊢
      refine ⟨⟨startsAfresh_iff_stops.mp hafresh, ?_⟩, ?_⟩
      · intro hk
        rw [show t.kind = .elseWord from hk] at ht
        cases ht
      · intro hk
        rw [show t.kind = .semicolon from hk] at ht
        cases ht

namespace Parse

/-- The routine reads phrases, on each level that it is given. -/
def ReadsDerived (room : Nat) (expr : Precedence → Parse Expr) : Prop :=
  ∀ {min : Precedence} {p : Parser} {φ : Phrase} {rest : List Terminal}, min ≤ .unary →
    φ.WellFormed → φ.Fits min → p.On (φ.yield ++ rest) → Follows min rest →
    Reads (expr min) p room φ.depth φ.tree rest

variable {p : Parser} {rest : List Terminal}

/-! ### Names -/

theorem Reads.moreParams {room n : Nat} {xs : List String}
    (hp : p.After (yieldMoreNames xs ++ .symbol .rightParen :: rest))
    (hn : (yieldMoreNames xs ++ .symbol .rightParen :: rest).length < n) :
    Reads (moreParams n) p room 0 xs (.symbol .rightParen :: rest) := by
  induction xs generalizing p n with
  | nil =>
      cases n with
      | zero => omega
      | succ n =>
          refine .next_is_not ?_ (.pure hp)
          rw [hp.next_kind]
          simp [yieldMoreNames]
          decide
  | cons x xs ih =>
      cases n with
      | zero => omega
      | succ n =>
          refine .next_is hp.next_kind (.advance hp fun hon => .identifier hon.after fun q hq => ?_)
          refine (ih hq ?_).finish fun q hq => .pure hq
          simp [yieldMoreNames] at hn ⊢
          omega

theorem Reads.params {room : Nat} {xs : List String}
    (hp : p.After (yieldNames xs ++ .symbol .rightParen :: rest)) :
    Reads params p room 0 xs rest := by
  cases xs with
  | nil => exact .next_is hp.next_kind (.advance hp fun hon => .pure hon.after)
  | cons x xs =>
      replace hp : p.After (.name x :: (yieldMoreNames xs ++ .symbol .rightParen :: rest)) := hp
      refine .next_is_not (by rw [hp.next_kind]; simp [Terminal.kind]) ?_
      refine .identifier hp fun q hq => .turns ?_
      refine (Reads.moreParams hq hq.length_lt).finish fun q hq => ?_
      exact .expect hq fun hon => .pure hon.after

section

variable {expr : Precedence → Parse Expr} {room : Nat}

/-! ### Lists of expressions -/

theorem ReadsDerived.lowest (hexpr : ReadsDerived room expr) {φ : Phrase}
    (hφ : φ.WellFormed) (hp : p.On (φ.yield ++ rest)) (hrest : Follows .lowest rest) :
    Reads (expr .lowest) p room φ.depth φ.tree rest :=
  hexpr (by decide) hφ φ.fits_lowest hp hrest

theorem follows_yieldMore {close : TokenKind} (h : close.Closes) (φs : List Phrase) :
    Follows .lowest (Phrase.yieldMore φs ++ .symbol close :: rest) := by
  cases φs with
  | nil => exact follows_symbol .lowest rest h.1
  | cons φ φs => exact follows_symbol .lowest _ rfl

theorem Reads.moreExprs [∀ m, Orderly (expr m)] (hexpr : ReadsDerived room expr) {close : TokenKind}
    (hclose : close.Closes) {n : Nat} {φs : List Phrase} (hφs : Phrase.EachWellFormed φs)
    (hp : p.After (Phrase.yieldMore φs ++ .symbol close :: rest))
    (hn : (Phrase.yieldMore φs ++ .symbol close :: rest).length < n) :
    Reads (moreExprs expr n) p room (Phrase.depthEach φs) (Phrase.treeEach φs)
      (.symbol close :: rest) := by
  induction φs generalizing p n with
  | nil =>
      cases n with
      | zero => omega
      | succ n =>
          refine .next_is_not ?_ (.pure hp)
          rw [hp.next_kind]
          exact hclose.2.1
  | cons φ φs ih =>
      cases n with
      | zero => omega
      | succ n =>
          rw [Phrase.yieldMore, List.cons_append, List.append_assoc] at hp hn
          refine .next_is hp.next_kind (.advance hp fun hon => .advance hon.after fun hon => ?_)
          refine (hexpr.lowest hφs.1 hon (follows_yieldMore hclose φs)).bind fun q hq => ?_
          refine (ih hφs.2 hq ?_).finish fun q hq => .pure hq
          simp only [List.length_cons, List.length_append] at hn ⊢
          omega

theorem Reads.exprs [∀ m, Orderly (expr m)] (hexpr : ReadsDerived room expr) {close : TokenKind}
    {φs : List Phrase} (hφs : Phrase.EachWellFormed φs)
    (hp : p.After (Phrase.yieldEach φs ++ .symbol close :: rest))
    (hclose : close.Closes) :
    Reads (exprs expr close) p room (Phrase.depthEach φs) (Phrase.treeEach φs) rest := by
  cases φs with
  | nil => exact .next_is hp.next_kind (.advance hp fun hon => .pure hon.after)
  | cons φ φs =>
      rw [Phrase.yieldEach, List.append_assoc] at hp
      refine .next_is_not ?_ (.advance hp fun hon => ?_)
      · -- The list is not empty, for no phrase begins with the token that closes it.
        intro hk
        have hopens := hp.next_opensPhrase
        rw [hk, hclose.2.2] at hopens
        cases hopens
      · refine (hexpr.lowest hφs.1 hon (follows_yieldMore hclose φs)).bind fun q hq => .turns ?_
        refine (Reads.moreExprs hexpr hclose hφs.2 hq hq.length_lt).finish fun q hq => ?_
        exact .expect hq fun hon => .pure hon.after

set_option synthInstance.maxSize 512 in
theorem Reads.pairs [∀ m, Orderly (expr m)] (hexpr : ReadsDerived room expr) {n : Nat}
    {φ ψ : Phrase} {φs : List (Phrase × Phrase)}
    (hφs : Phrase.PairsWellFormed ((φ, ψ) :: φs))
    (hp : p.After (Phrase.yieldPairs ((φ, ψ) :: φs) ++ .symbol .rightBrace :: rest))
    (hn : (Phrase.yieldPairs ((φ, ψ) :: φs) ++ .symbol .rightBrace :: rest).length < n) :
    Reads (pairs expr n) p room (Phrase.depthPairs ((φ, ψ) :: φs))
      (Phrase.treePairs ((φ, ψ) :: φs)) (.symbol .rightBrace :: rest) := by
  induction φs generalizing p n φ ψ with
  | nil =>
      cases n with
      | zero => omega
      | succ n =>
          simp only [Phrase.yieldPairs, Phrase.yieldMorePairs, List.append_assoc,
            List.cons_append, List.nil_append] at hp
          refine .advance hp fun hon => ?_
          refine (hexpr.lowest hφs.1 hon (follows_symbol _ _ rfl)).bind fun q hq => ?_
          refine .expect hq fun hon => .advance hon.after fun hon => ?_
          refine (hexpr.lowest hφs.2.1 hon (follows_symbol _ _ rfl)).bind fun q hq => ?_
          refine .next_is_not ?_ (.pure hq)
          rw [hq.next_kind]
          simp [Terminal.kind]
  | cons pair φs ih =>
      obtain ⟨φ', ψ'⟩ := pair
      cases n with
      | zero => omega
      | succ n =>
          have hyield : Phrase.yieldPairs ((φ, ψ) :: (φ', ψ') :: φs) ++
              .symbol .rightBrace :: rest = φ.yield ++ .symbol .colon :: (ψ.yield ++
              .symbol .comma :: (Phrase.yieldPairs ((φ', ψ') :: φs) ++
              .symbol .rightBrace :: rest)) := by
            simp [Phrase.yieldPairs, Phrase.yieldMorePairs]
          rw [hyield] at hp hn
          refine .advance hp fun hon => ?_
          refine (hexpr.lowest hφs.1 hon (follows_symbol _ _ rfl)).bind fun q hq => ?_
          refine .expect hq fun hon => .advance hon.after fun hon => ?_
          refine (hexpr.lowest hφs.2.1 hon (follows_symbol _ _ rfl)).bind fun q hq => ?_
          refine .next_is hq.next_kind (.advance hq fun hon => ?_)
          refine (ih hφs.2.2 hon.after ?_).finish fun q hq => .pure hq
          simp only [List.length_cons, List.length_append] at hn ⊢
          omega

theorem Reads.hashPairs [∀ m, Orderly (expr m)] (hexpr : ReadsDerived room expr)
    {φs : List (Phrase × Phrase)} (hφs : Phrase.PairsWellFormed φs)
    (hp : p.After (Phrase.yieldPairs φs ++ .symbol .rightBrace :: rest)) :
    Reads (hashPairs expr) p room (Phrase.depthPairs φs) (Phrase.treePairs φs) rest := by
  cases φs with
  | nil => exact .next_is hp.next_kind (.advance hp fun hon => .pure hon.after)
  | cons pair φs =>
      obtain ⟨φ, ψ⟩ := pair
      refine .next_is_not ?_ (.turns ?_)
      · rw [Phrase.yieldPairs, List.append_assoc] at hp
        intro hk
        have hopens := hp.next_opensPhrase
        rw [hk] at hopens
        cases hopens
      · refine (Reads.pairs hexpr hφs hp hp.length_lt).finish fun q hq => ?_
        exact .expect hq fun hon => .pure hon.after

/-! ### Statements and blocks -/

theorem Reads.skipSemicolon {semicolon : Bool} (hp : p.After (ending semicolon ++ rest))
    (hrest : EndsBefore semicolon rest) : Reads skipSemicolon p room 0 () rest := by
  cases semicolon with
  | true =>
      refine .next_is hp.next_kind ?_
      have h : Reads (Pure.pure ()) p.advance room 0 () rest := .pure hp.advance.after
      exact h.congr rfl hp.errors_advance
  | false =>
      rcases hrest with h | ⟨-, h⟩
      · cases h
      · exact .next_is_not (by rw [hp.next_kind]; exact h) (.pure hp)

theorem Reads.ended (hexpr : ReadsDerived room expr) {f : Expr → Stmt} {φ : Phrase}
    {semicolon : Bool} (hφ : φ.WellFormed)
    (hp : p.On (φ.yield ++ ending semicolon ++ rest)) (hrest : EndsBefore semicolon rest) :
    Reads (do let e ← expr .lowest; Parse.skipSemicolon; Pure.pure (f e)) p room φ.depth
      (f φ.tree) rest := by
  rw [List.append_assoc] at hp
  refine (hexpr.lowest hφ hp hrest.follows).finish fun q hq => ?_
  exact (Reads.skipSemicolon hq hrest).finish fun q hq => .pure hq

theorem Reads.statement (hexpr : ReadsDerived room expr) {σ : Sentence} (hσ : σ.WellFormed)
    (hp : p.On (σ.yield ++ rest)) (hrest : EndsBefore σ.semicolon rest) :
    Reads (statement expr) p room σ.depth σ.tree rest := by
  refine .current ?_
  cases σ with
  | var x φ semicolon =>
      rw [show p.current.kind = .var from hp.current_kind]
      replace hp : p.After
          (.name x :: .symbol .equal :: (φ.yield ++ ending semicolon ++ rest)) := hp.after
      refine .identifier hp fun q hq => .expect hq fun hon => .advance hon.after fun hon => ?_
      exact .ended hexpr hσ hon hrest
  | ret φ semicolon =>
      rw [show p.current.kind = .ret from hp.current_kind]
      exact .advance hp.after fun hon => .ended hexpr hσ hon hrest
  | expr φ semicolon =>
      have hopens : p.current.kind.opensPhrase = true := by
        rw [Sentence.yield, List.append_assoc] at hp
        exact hp.current_opensPhrase
      generalize p.current.kind = kind at hopens
      split
      · cases hopens
      · cases hopens
      · exact .ended hexpr hσ hp hrest

theorem Reads.blockRest [∀ m, Orderly (expr m)] (hexpr : ReadsDerived room expr) {n : Nat}
    {σs : List Sentence} (hσs : Sentence.AllWellFormed σs)
    (hp : p.On (Sentence.yieldAll σs ++ .symbol .rightBrace :: rest))
    (hn : (Sentence.yieldAll σs ++ .symbol .rightBrace :: rest).length < n) :
    Reads (blockRest expr n) p room (Sentence.depthAll σs) (Sentence.treeAll σs) rest := by
  induction σs generalizing p n with
  | nil =>
      cases n with
      | zero => omega
      | succ n =>
          refine .current ?_
          rw [if_pos (show p.current.kind = .rightBrace from hp.current_kind)]
          exact .pure hp.after
  | cons σ σs ih =>
      cases n with
      | zero => omega
      | succ n =>
          rw [Sentence.yieldAll, List.append_assoc] at hp hn
          have hopens := hp.current_opensSentence
          refine .current ?_
          rw [if_neg (by intro hk; rw [hk] at hopens; cases hopens),
            if_neg (by intro hk; rw [hk] at hopens; cases hopens)]
          have hbrace : (Terminal.first (.symbol .rightBrace :: rest)).kind ≠ .semicolon := by
            simp [Terminal.kind]
          have hfollows : Follows .lowest (.symbol .rightBrace :: rest) := follows_symbol _ _ rfl
          have hend := endsBefore_yieldAll hσs hfollows hbrace
          refine (Reads.statement hexpr hσs.1 hp hend).attempt_bind
            (fun o => by cases o <;> infer_instance) fun q hq => .advance hq fun hon => ?_
          refine (ih hσs.2.2 hon ?_).finish fun q hq => .pure hq
          have := σ.yield_length_pos
          simp only [List.length_append] at hn ⊢
          omega

theorem Reads.block [∀ m, Orderly (expr m)] (hexpr : ReadsDerived room expr) {σs : List Sentence}
    (hσs : Sentence.AllWellFormed σs)
    (hp : p.After (Sentence.yieldAll σs ++ .symbol .rightBrace :: rest)) :
    Reads (block expr) p room (Sentence.depthAll σs) (Sentence.treeAll σs) rest :=
  .advance hp fun hon => .turns (.blockRest hexpr hσs hon hon.length_lt)

/-! ### Primary expressions -/

theorem fits_of_unary_le_binding {φ : Phrase} (h : .unary ≤ φ.binding) : φ.Fits .unary := by
  cases φ with
  | binary op l r => exact absurd op.precedence_lt_unary (Nat.not_lt_of_le h)
  | _ => trivial

theorem Reads.unary (hexpr : ReadsDerived room expr) {op : UnaryOp} {φ : Phrase}
    (hφ : .unary ≤ φ.binding ∧ φ.WellFormed)
    (hp : p.On (.symbol op.kind :: (φ.yield ++ rest))) (hrest : Follows .unary rest) :
    Reads (unary expr op) p (room + 1) (φ.depth + 1) (.unary op φ.tree) rest := by
  refine .advance hp.after fun hon => ?_
  exact (hexpr (by decide) hφ.2 (fits_of_unary_le_binding hφ.1) hon hrest).deeper.finish
    fun q hq => .pure hq

theorem Reads.grouped (hexpr : ReadsDerived room expr) {φ : Phrase} (hφ : φ.WellFormed)
    (hp : p.On (.symbol .leftParen :: (φ.yield ++ .symbol .rightParen :: rest))) :
    Reads (grouped expr) p (room + 1) (φ.depth + 1) φ.tree rest := by
  refine .advance hp.after fun hon => ?_
  refine (hexpr.lowest hφ hon (follows_symbol _ _ rfl)).deeper.finish fun q hq => ?_
  exact .expect hq fun hon => .pure hon.after

theorem Reads.conditional [∀ m, Orderly (expr m)] (hexpr : ReadsDerived room expr)
    {φ : Phrase} {σs : List Sentence} {o : Option (List Sentence)}
    (hφ : (Phrase.cond φ σs o).WellFormed)
    (hp : p.On (.symbol .ifWord :: (φ.yield ++ .symbol .leftBrace :: (Sentence.yieldAll σs ++
      .symbol .rightBrace :: (Sentence.yieldElse o ++ rest)))))
    (hrest : Follows .call rest) :
    Reads (conditional expr) p (room + 1)
      (max φ.depth (max (Sentence.depthAll σs) (Sentence.depthElse o)) + 1)
      (.cond φ.tree (Sentence.treeAll σs) (Sentence.treeElse o)) rest := by
  refine Reads.deeper (.advance hp.after fun hon => ?_)
  refine (hexpr.lowest hφ.1 hon (follows_symbol _ _ rfl)).bind
    fun q hq => .expect hq fun hon => ?_
  refine (Reads.block hexpr hφ.2.1 hon.after).bind fun q hq => ?_
  cases o with
  | none => exact .next_is_not (by rw [hq.next_kind]; exact hrest.noElse) (.pure hq)
  | some τs =>
      rw [Sentence.yieldElse, List.cons_append, List.cons_append, List.append_assoc] at hq
      refine .next_is hq.next_kind (.advance hq fun hon => .expect hon.after fun hon => ?_)
      exact (Reads.block hexpr hφ.2.2 hon.after).finish fun q hq => .pure hq

theorem Reads.function [∀ m, Orderly (expr m)] (hexpr : ReadsDerived room expr)
    {xs : List String} {σs : List Sentence} (hσs : Sentence.AllWellFormed σs)
    (hp : p.On (.symbol .func :: .symbol .leftParen :: (yieldNames xs ++
      .symbol .rightParen :: .symbol .leftBrace :: (Sentence.yieldAll σs ++
      .symbol .rightBrace :: rest)))) :
    Reads (function expr) p (room + 1) (Sentence.depthAll σs + 1)
      (.func xs (Sentence.treeAll σs)) rest := by
  refine .deeper (.expect hp.after fun hon => ?_)
  refine ((Reads.params hon.after).bind fun q hq => .expect hq fun hon => ?_).need_eq
    (Nat.zero_max _)
  exact (Reads.block hexpr hσs hon.after).finish fun q hq => .pure hq

theorem Reads.primary [∀ m, Orderly (expr m)] (hexpr : ReadsDerived room expr) {φ : Phrase}
    (hprimary : φ.isPrimary = true) (hφ : φ.WellFormed) (hp : p.On (φ.yield ++ rest))
    (hrest : Follows φ.binding rest) :
    Reads (primary expr) p (room + 1) φ.depth φ.tree rest := by
  refine .current ?_
  cases φ with
  | name x =>
      obtain ⟨hk, hliteral⟩ := Token.literal_of_terminal_eq_name hp.current
      rw [hk, hliteral]
      exact (Reads.pure hp.after).deeper
  | int digits n =>
      obtain ⟨hk, hliteral⟩ := Token.literal_of_terminal_eq_int hp.current
      rw [hk, hliteral]
      simp only [show integer? (Text.readDecimal digits) = some n from hφ]
      exact (Reads.pure hp.after).deeper
  | str raw =>
      obtain ⟨hk, hliteral⟩ := Token.literal_of_terminal_eq_str hp.current
      rw [hk, hliteral]
      exact (Reads.pure hp.after).deeper
  | bool b =>
      rw [show p.current.kind = truthKind b from hp.current_kind]
      cases b with
      | true => exact (Reads.pure hp.after).deeper
      | false => exact (Reads.pure hp.after).deeper
  | paren φ =>
      rw [show p.current.kind = .leftParen from hp.current_kind]
      rw [Phrase.yield, List.cons_append, List.append_assoc] at hp
      exact Reads.grouped hexpr hφ hp
  | unary op φ =>
      rw [show p.current.kind = op.kind from hp.current_kind]
      have h := Reads.unary hexpr hφ hp hrest
      cases op with
      | not => exact h
      | minus => exact h
      | plus => exact h
  | cond φ σs o =>
      rw [show p.current.kind = .ifWord from hp.current_kind]
      have hyield : (Phrase.cond φ σs o).yield ++ rest = .symbol .ifWord :: (φ.yield ++
          .symbol .leftBrace :: (Sentence.yieldAll σs ++ .symbol .rightBrace ::
          (Sentence.yieldElse o ++ rest))) := by
        simp [Phrase.yield]
      rw [hyield] at hp
      exact Reads.conditional hexpr hφ hp hrest
  | func xs σs =>
      rw [show p.current.kind = .func from hp.current_kind]
      have hyield : (Phrase.func xs σs).yield ++ rest = .symbol .func :: .symbol .leftParen ::
          (yieldNames xs ++ .symbol .rightParen :: .symbol .leftBrace ::
          (Sentence.yieldAll σs ++ .symbol .rightBrace :: rest)) := by
        simp [Phrase.yield]
      rw [hyield] at hp
      exact Reads.function hexpr hφ hp
  | array φs =>
      rw [show p.current.kind = .leftBracket from hp.current_kind]
      rw [Phrase.yield, List.cons_append, List.append_assoc] at hp
      show Reads (do let items ← Parse.exprs expr .rightBracket; Pure.pure (Expr.array items)) p
        (room + 1) (Phrase.depthEach φs + 1) (Expr.array (Phrase.treeEach φs)) rest
      exact (Reads.exprs hexpr hφ hp.after (by decide)).deeper.finish fun q hq => .pure hq
  | hash φs =>
      rw [show p.current.kind = .leftBrace from hp.current_kind]
      rw [Phrase.yield, List.cons_append, List.append_assoc] at hp
      show Reads (do let ps ← Parse.hashPairs expr; Pure.pure (Expr.hash ps)) p
        (room + 1) (Phrase.depthPairs φs + 1) (Expr.hash (Phrase.treePairs φs)) rest
      exact (Reads.hashPairs hexpr hφ hp.after).deeper.finish fun q hq => .pure hq
  | binary op l r => cases hprimary
  | call f φs => cases hprimary
  | index c i => cases hprimary

/-! ### Operators -/

/-- One turn of the loop over the continuations and the turns after it. The next token
announces `k`, which binds more tightly than `min`. -/
theorem Reads.continuations_bind [∀ m, Orderly (expr m)] {min : Precedence}
    {n need need' : Nat} {left longer e : Expr} {kind : TokenKind} {k : Continuation}
    {us ts : List Terminal} (hk : kind.continuation? = some k) (hmin : min < k.precedence)
    (hp : p.After (.symbol kind :: (us ++ ts))) (hn : (.symbol kind :: (us ++ ts)).length < n)
    (hlonger : p.advance.On (.symbol kind :: (us ++ ts)) →
      Reads (continued expr left k) p.advance room need longer ts)
    (h : ∀ {n q}, Parser.After q ts → ts.length < n →
      Reads (continuations expr min n longer) q room need' e rest) :
    Reads (continuations expr min n left) p room (max need need') e rest := by
  cases n with
  | zero => omega
  | succ n =>
      refine .nextKind ?_
      rw [show p.next.kind = kind from hp.next_kind, hk]
      show Reads (if k.precedence ≤ min then _ else _) p room (max need need') e rest
      rw [if_neg (not_le_of_gt hmin)]
      refine .advance hp fun hon => (hlonger hon).bind fun m hm => h hm ?_
      simp only [List.length_cons, List.length_append] at hn
      omega

theorem Reads.continuations_stop {min : Precedence} {n : Nat} {left : Expr}
    (hp : p.After rest) (hrest : Stops min rest) :
    Reads (continuations expr min n left) p room 0 left rest := by
  cases n with
  | zero => exact .pure hp
  | succ n =>
      refine .nextKind ?_
      cases hk : p.next.kind.continuation? with
      | none => exact .pure hp
      | some k =>
          obtain ⟨us, rfl⟩ := hp.exists_cons
            (TokenKind.ne_endOfInput_of_isSymbol (isSymbol_of_continuation? hk))
          have hmin : k.precedence ≤ min := hrest _ rfl k (by rw [Token.kind_terminal, hk])
          show Reads (if k.precedence ≤ min then _ else _) p room 0 left _
          rw [if_pos hmin]
          exact .pure hp

/-- To read a phrase and to go on is to read the phrases that it begins with, one after
the other from the innermost on, and to go on. -/
theorem Reads.operators_bind [∀ m, Orderly (expr m)] (hexpr : ReadsDerived room expr)
    {min : Precedence} (hmin : min ≤ .unary) {need : Nat} {e : Expr} {φ : Phrase}
    {ts : List Terminal} (hφ : φ.WellFormed) (hfits : φ.Fits min) (hp : p.On (φ.yield ++ ts))
    (hts : Follows φ.binding ts)
    (h : ∀ {n q}, Parser.After q ts → ts.length < n →
      Reads (continuations expr min n φ.tree) q (room + 1) need e rest) :
    Reads (operators expr min) p (room + 1) (max φ.depth need) e rest := by
  have hcall : min < .call := Nat.lt_of_le_of_lt hmin (by decide)
  -- The loop is entered behind the innermost phrase on the left. Each case takes one
  -- turn of it and hands the rest of the loop on to the phrase inside.
  induction φ using Phrase.leftInduction generalizing need ts with
  | primary φ hprimary =>
      refine (Reads.primary hexpr hprimary hφ hp hts).bind fun q hq => ?_
      exact .turns (h hq hq.length_lt)
  | binary op l r ih =>
      obtain ⟨⟨hleft, hright⟩, hl, hr⟩ := hφ
      rw [Phrase.yield, List.append_assoc, List.cons_append] at hp
      have hfits' : l.Fits min := fits_of_lt_binding (lt_of_lt_of_le hfits hleft)
      refine (ih hl hfits' hp (follows_continuation op.continuation?_kind hleft _)
        fun hq hn => ?_).need_eq (Nat.max_assoc _ _ _).symm
      refine .continuations_bind op.continuation?_kind hfits hq hn (fun hon => ?_) h
      refine .advance hon.after fun hon => ?_
      exact (hexpr (le_of_lt op.precedence_lt_unary) hr
        (fits_of_lt_binding hright) hon hts).deeper.finish fun q hq => .pure hq
  | call f φs ih =>
      obtain ⟨hbinding, hf, hφs⟩ := hφ
      rw [Phrase.yield, List.append_assoc, List.cons_append] at hp
      have hfits' : f.Fits min := fits_of_lt_binding (lt_of_lt_of_le hcall hbinding)
      refine (ih hf hfits' hp (follows_continuation (k := .call) rfl hbinding _)
        fun hq hn => ?_).need_eq (Nat.max_assoc _ _ _).symm
      refine .continuations_bind (k := .call) rfl hcall hq hn (fun hon => ?_) h
      rw [List.append_assoc] at hon
      exact (Reads.exprs hexpr hφs hon.after (by decide)).deeper.finish fun q hq => .pure hq
  | index c i ih =>
      obtain ⟨hbinding, hc, hi⟩ := hφ
      rw [Phrase.yield, List.append_assoc, List.cons_append] at hp
      have hfits' : c.Fits min := fits_of_lt_binding (lt_of_lt_of_le hcall hbinding)
      refine (ih hc hfits' hp (follows_continuation (k := .index) rfl hbinding _)
        fun hq hn => ?_).need_eq (Nat.max_assoc _ _ _).symm
      refine .continuations_bind (k := .index) rfl hcall hq hn (fun hon => ?_) h
      rw [List.append_assoc] at hon
      refine .advance hon.after fun hon => ?_
      refine (hexpr.lowest hi hon
        (follows_symbol _ _ rfl)).deeper.finish fun q hq => ?_
      exact .expect hq fun hon => .pure hon.after

/-- An expression is read to its end, where nothing goes on with it. -/
theorem Reads.operators [∀ m, Orderly (expr m)] (hexpr : ReadsDerived room expr)
    {min : Precedence} (hmin : min ≤ .unary) {φ : Phrase} (hφ : φ.WellFormed)
    (hfits : φ.Fits min) (hp : p.On (φ.yield ++ rest)) (hrest : Follows min rest) :
    Reads (operators expr min) p (room + 1) φ.depth φ.tree rest := by
  have hbinding : min ≤ φ.binding := by
    cases φ with
    | binary op l r => exact le_of_lt hfits
    | unary op e => exact hmin
    | _ => exact min.le_call
  exact (Reads.operators_bind hexpr hmin hφ hfits hp (hrest.mono hbinding)
    fun hq _ => .continuations_stop hq hrest.stops).need_eq (Nat.max_zero _)

end

/-! ### Levels -/

/-- On every level, phrases are read with exactly the levels that they need. -/
theorem readsDerived_expressionWithin (room : Nat) :
    ReadsDerived room (expressionWithin room) := by
  induction room with
  | zero =>
      intro min p φ rest _ _ _ hp _
      have hdepth := φ.depth_pos
      -- No level is left and every phrase takes one, so there is only the error.
      exact ⟨fun h => absurd h (by omega), fun _ => ⟨p.current.span, by
        show _ ∈ p.errors ++ [_]
        simp⟩⟩
  | succ room ih =>
      intro min p φ rest hmin hφ hfits hp hrest
      exact .nested (.operators ih hmin hφ hfits (hp.withDepth _) hrest)

end Parse

/-! ### Programs -/

namespace Parser

/-- What the first statement has recorded is there at the end of the program. -/
theorem errors_last_statements {p : Parser} (h : p.current.kind ≠ .endOfInput) (n : Nat) :
    ((Parse.statement Parse.expression).last p).errors <+:
      (p.statements (n + 1)).2.errors := by
  rw [statements, if_neg h]
  unfold Parse.last
  cases hr : Parse.statement Parse.expression p with
  | ok s q =>
      exact (Moves.refl.advance.trans (moves_statements n q.advance)).errors_grow
  | error e q =>
      exact ((moves_synchronize q).advance.trans (moves_statements n _)).errors_grow

/-- The sentences of a derivation are read with exactly the levels that they need. -/
theorem On.statements_eq {n : Nat} {p : Parser} {σs : List Sentence}
    (hσs : Sentence.AllWellFormed σs) (hp : p.On (Sentence.yieldAll σs))
    (hn : (Sentence.yieldAll σs).length < n) (hdepth : p.depth = 0) :
    (Sentence.depthAll σs ≤ maxNesting →
      (p.statements n).1 = Sentence.treeAll σs ∧ (p.statements n).2.errors = p.errors) ∧
    (maxNesting < Sentence.depthAll σs → TooDeep (p.statements n).2.errors) := by
  induction σs generalizing n p with
  | nil =>
      cases n with
      | zero => omega
      | succ n =>
          rw [statements, if_pos (show p.current.kind = .endOfInput from hp.current_kind)]
          exact ⟨fun _ => ⟨rfl, rfl⟩, fun h => absurd h (Nat.not_lt_zero _)⟩
  | cons σ σs ih =>
      cases n with
      | zero => omega
      | succ n =>
          rw [Sentence.yieldAll] at hp hn
          have hkind : p.current.kind ≠ .endOfInput := by
            have hopens := hp.current_opensSentence
            intro hk
            rw [hk] at hopens
            cases hopens
          have hend : EndsBefore σ.semicolon (Sentence.yieldAll σs) := by
            have h := endsBefore_yieldAll hσs (follows_nil .lowest) (by decide)
            rwa [List.append_nil] at h
          have hs := Parse.Reads.statement
            (Parse.readsDerived_expressionWithin maxNesting) hσs.1 hp hend
          have hrun := Parse.statement_expression_run hdepth
          rw [Sentence.depthAll]
          by_cases hσ : σ.depth ≤ maxNesting
          · -- The statement has been read, so it is up to the sentences after it.
            obtain ⟨q, ⟨hq, herrors⟩, hafter⟩ := hs.enough hσ
            rw [← hrun] at hq
            have hmoves : p.Moves q := Parse.Orderly.moves hq
            have hlength : (Sentence.yieldAll σs).length < n := by
              have := σ.yield_length_pos
              simp only [List.length_append] at hn
              omega
            obtain ⟨hfits, hdeep⟩ := ih hσs.2.2 hafter.advance hlength
              (hmoves.depth_eq.trans hdepth)
            rw [statements, if_neg hkind, hq]
            refine ⟨fun h => ?_, fun h => hdeep (by omega)⟩
            obtain ⟨htree, herrors'⟩ := hfits (by omega)
            refine ⟨?_, by rw [← herrors, ← hafter.errors_advance]; exact herrors'⟩
            rw [Sentence.treeAll, ← htree]
          · have hdeep := hs.tooDeep (by omega)
            unfold Parse.last at hdeep
            rw [← hrun] at hdeep
            exact ⟨fun h => absurd h (by omega),
              fun _ => hdeep.mono (errors_last_statements hkind n)⟩

end Parser

end ScriptLang
