import ScriptLang.Proofs.Parser.Moves

/-!
How far a routine depends on the routine for expressions that it is given. What counts is the
number of tokens that remain: no move adds one, and to move on from a token takes one away
(`Parser.remaining_eq`). If two routines for expressions do the same wherever fewer than so many
tokens remain, then so do two routines made from them (`Coupling.within`). For the parts of an
expression it is enough that fewer tokens remain behind the current one; a statement and a block
may begin with an expression, so for them the current token counts.
-/

namespace ScriptLang

def tokensIn : List Item → Nat
  | [] => 0
  | .token t :: items => t.weight + tokensIn items
  | .error _ :: items => tokensIn items

theorem tokensIn_le_length (items : List Item) : tokensIn items ≤ items.length := by
  induction items with
  | nil => exact Nat.le_refl _
  | cons item items ih =>
      cases item with
      | token t =>
          have := t.weight_le_one
          simp only [tokensIn, List.length_cons]
          omega
      | error e => exact Nat.le_succ_of_le ih

theorem tokensIn_readToken (size : Nat) (items : List Item) :
    tokensIn items =
      (readToken size items).token.weight + tokensIn (readToken size items).rest := by
  induction items with
  | nil => rfl
  | cons item items ih =>
      cases item with
      | token t => rfl
      | error e => exact ih

theorem Token.weight_of_ne {t : Token} (h : t.kind ≠ .endOfInput) : t.weight = 1 := if_neg h

namespace Parser

variable {p q : Parser} {d b : Nat}

/-- The number of tokens that remain, the current one included. -/
def remaining (p : Parser) : Nat :=
  p.current.weight + p.next.weight + tokensIn p.ahead

theorem remaining_eq (p : Parser) : p.remaining = p.current.weight + p.advance.remaining := by
  have := tokensIn_readToken p.size p.ahead
  simp only [remaining, advance]
  omega

theorem remaining_lt (p : Parser) : p.remaining < p.left + 2 := by
  have := tokensIn_le_length p.ahead
  have := p.current.weight_le_one
  simp only [remaining, left]
  omega

theorem remaining_advance_le (p : Parser) : p.advance.remaining ≤ p.remaining := by
  rw [p.remaining_eq]
  exact Nat.le_add_left _ _

theorem remaining_advance_lt (h : p.current.kind ≠ .endOfInput) :
    p.advance.remaining < p.remaining := by
  rw [p.remaining_eq, Token.weight_of_ne h]
  omega

theorem Moves.remaining_le (h : p.Moves q) : q.remaining ≤ p.remaining := by
  induction h with
  | refl => exact Nat.le_refl _
  | @advance q _ ih => exact Nat.le_trans q.remaining_advance_le ih
  | record _ _ ih => exact ih

theorem Moves.remaining_advance_le (h : p.Moves q) : q.advance.remaining ≤ p.advance.remaining := by
  induction h with
  | refl => exact Nat.le_refl _
  | @advance q _ ih => exact Nat.le_trans q.advance.remaining_advance_le ih
  | record _ _ ih => exact ih

/-- At this depth, and fewer than so many tokens remain. -/
structure Within (d b : Nat) (p : Parser) : Prop where
  depth_eq : p.depth = d
  remaining_lt : p.remaining < b

/-- At this depth, and fewer than so many tokens remain behind the current one. -/
structure Before (d b : Nat) (p : Parser) : Prop where
  depth_eq : p.depth = d
  remaining_lt : p.advance.remaining < b

theorem Within.before (h : p.Within d b) : p.Before d b :=
  ⟨h.depth_eq, Nat.lt_of_le_of_lt p.remaining_advance_le h.remaining_lt⟩

theorem Before.advance (h : p.Before d b) : p.advance.Within d b :=
  ⟨h.depth_eq, h.remaining_lt⟩

theorem before_remaining (h : p.current.kind ≠ .endOfInput) : p.Before p.depth p.remaining :=
  ⟨rfl, remaining_advance_lt h⟩

theorem before_remaining_advance (hq : p.Moves q) (h : q.next.kind ≠ .endOfInput) :
    q.advance.Before p.depth p.remaining :=
  ⟨hq.depth_eq,
    Nat.lt_of_lt_of_le (remaining_advance_lt h)
      (Nat.le_trans q.remaining_advance_le hq.remaining_le)⟩

theorem Moves.within (h : p.Within d b) (hq : p.Moves q) : q.Within d b :=
  ⟨hq.depth_eq.trans h.depth_eq, Nat.lt_of_le_of_lt hq.remaining_le h.remaining_lt⟩

theorem Moves.before (h : p.Before d b) (hq : p.Moves q) : q.Before d b :=
  ⟨hq.depth_eq.trans h.depth_eq, Nat.lt_of_le_of_lt hq.remaining_advance_le h.remaining_lt⟩

theorem Before.record (h : p.Before d b) (e : SyntaxError) : (p.record e).Before d b :=
  ⟨h.depth_eq, h.remaining_lt⟩

end Parser

/-- The same parser at a depth, with fewer than so many tokens remaining. -/
def Coupling.within (d b : Nat) : Coupling :=
  .diagonal (Parser.Within d b) (Parser.Before d b) (Parser.Before d b) (Parser.Before d b)
    Parser.Within.before id id Parser.Before.advance (fun _ h => h.record _) (fun _ h => h.record _)

namespace Parse

variable {α β : Type} {d b : Nat} {r r' : Parse α} {p : Parser}

theorem eq_of_ends {C : Coupling} {result result' : EStateM.Result Stopped Parser α}
    (hafter : ∀ {q q'}, C.after q q' → q = q') (h : C.Ends result result') : result = result' := by
  cases h with
  | ok a hq => rw [hafter hq]
  | stopped e hq => rw [hafter (C.after_of_stopped hq)]

theorem same_of_within [Coupled (.within d b) .moved r r'] (h : p.Within d b) : r p = r' p :=
  eq_of_ends And.left (ends_moved (C := .within d b) ⟨rfl, h⟩)

theorem same_of_before [Coupled (.within d b) .current r r'] (h : p.Before d b) : r p = r' p :=
  eq_of_ends And.left (ends_on (C := .within d b) ⟨rfl, h⟩)

/-- As a routine only moves on, it is enough to know what it does at first. -/
theorem coupled_within [Orderly r] (h : ∀ {p : Parser}, p.Within d b → r p = r' p) :
    Coupled (.within d b) .moved r r' := by
  refine ⟨?_⟩
  rintro p _ ⟨rfl, hp⟩
  have hleads := Orderly.leads (r := r) p
  rw [← h hp]
  generalize r p = result at hleads
  cases result with
  | ok a q => exact .ok a ⟨rfl, (hleads.within hp).before⟩
  | error e q => exact .stopped e ⟨rfl, (hleads.1.within hp).before⟩

instance (priority := low) [Orderly r] : Coupled (.within d b) .moved r r :=
  coupled_within fun _ => rfl

/-- If a first part is run, what comes after it matters only where the first part has led. -/
theorem same_bind_of_run {r : Parse α} {f f' : α → Parse β} {p : Parser}
    (hf : ∀ a (q : Parser), r p = .ok a q → f a q = f' a q) : (r >>= f) p = (r >>= f') p := by
  rw [bind_run, bind_run]
  cases hr : r p with
  | ok a q => exact hf a q hr
  | error e q => rfl

theorem same_bind {r r' : Parse α} {f f' : α → Parse β} [Orderly r] {p : Parser}
    (h : r p = r' p) (hf : ∀ a (q : Parser), p.Moves q → f a q = f' a q) :
    (r >>= f) p = (r' >>= f') p := by
  have hr : (r >>= f') p = (r' >>= f') p := by rw [bind_run, bind_run, h]
  rw [← hr]
  exact same_bind_of_run fun a q hrun => hf a q (Orderly.moves hrun)

theorem same_advance_bind {f f' : Unit → Parse β} {p : Parser}
    (h : f () p.advance = f' () p.advance) : (advance >>= f) p = (advance >>= f') p := h

theorem same_nested {r r' : Parse α} {p : Parser}
    (h : r { p with depth := p.depth + 1 } = r' { p with depth := p.depth + 1 }) :
    nested r p = nested r' p := by
  unfold nested
  rw [h]

end Parse

end ScriptLang
