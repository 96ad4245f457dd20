import ScriptLang.Proofs.Parser.LexicalErrors
import ScriptLang.Proofs.Parser.Recovery

/-!
The braces that a block owes. Where a statement of a block begins, the text in front of the parser
closes a number of braces that it does not open (`Parser.owed`). A block that knows of one open
brace is right if that number is one. No statement takes a closing brace that is not its own, so
the number never becomes smaller (`Cut.owed_le_afterStatement`); but a statement that is given up
between its own braces leaves their closing ones behind, and the next closing brace is taken for
the end of the block.
-/

namespace ScriptLang

/-! ### Counting braces -/

/-- How many braces are closed from a token of this kind on without being opened there, when it is
so many behind it. -/
def TokenKind.owedBefore (n : Nat) : TokenKind → Nat
  | .leftBrace => n - 1
  | .rightBrace => n + 1
  | _ => n

/-- How many braces are closed in some items without being opened there. -/
def owedBraces : List Item → Nat
  | [] => 0
  | .token t :: items => t.kind.owedBefore (owedBraces items)
  | .error _ :: items => owedBraces items

/-- Each brace in some items has its partner there. -/
structure Balanced (items : List Item) : Prop where
  open_eq : openBraces 0 items = 0
  owed_eq : owedBraces items = 0

/-- Of the braces that are open before some items, those stay open that the items do not close. -/
theorem openBraces_eq (n : Nat) (items : List Item) :
    openBraces n items = openBraces 0 items + (n - owedBraces items) := by
  induction items generalizing n with
  | nil => exact (Nat.zero_add _).symm
  | cons item items ih =>
      cases item with
      | token t =>
          simp only [openBraces, owedBraces]
          rw [ih (t.kind.openAfter n), ih (t.kind.openAfter 0)]
          cases t.kind <;> simp only [TokenKind.openAfter, TokenKind.owedBefore] <;> omega
      | error e => exact ih n

theorem openBraces_append (n : Nat) (items more : List Item) :
    openBraces n (items ++ more) = openBraces (openBraces n items) more := by
  induction items generalizing n with
  | nil => rfl
  | cons item items ih =>
      cases item with
      | token t => exact ih _
      | error e => exact ih n

theorem owedBraces_append (items more : List Item) :
    owedBraces (items ++ more) =
      owedBraces items + (owedBraces more - openBraces 0 items) := by
  induction items with
  | nil => simp [owedBraces, openBraces]
  | cons item items ih =>
      cases item with
      | token t =>
          simp only [List.cons_append, owedBraces, openBraces]
          rw [ih, openBraces_eq (t.kind.openAfter 0)]
          cases t.kind <;> simp only [TokenKind.openAfter, TokenKind.owedBefore] <;> omega
      | error e => exact ih

theorem openBraces_suffix {items more : List Item} (h : openBraces 0 (items ++ more) = 0) :
    openBraces 0 more = 0 := by
  rw [openBraces_append] at h
  have := openBraces_mono (Nat.zero_le (openBraces 0 items)) more
  omega

theorem openBraces_eq_zero_iff {n : Nat} {items : List Item} :
    openBraces n items = 0 ↔ openBraces 0 items = 0 ∧ n ≤ owedBraces items := by
  rw [openBraces_eq]
  omega

namespace Parser

def front (p : Parser) : List Item := .token p.current :: .token p.next :: p.ahead

def owed (p : Parser) : Nat := owedBraces p.front

end Parser

/-! ### Statements of a block -/

namespace Parse

variable (expr : Precedence → Parse Expr)

/-- Where a block goes on after a statement. If the statement is given up on a closing brace, the
block stays there, and it ends. -/
def afterStatement (p : Parser) : Parser :=
  match statement expr p with
  | .ok _ q => q.advance
  | .error _ q =>
    if q.synchronize.current.kind = .rightBrace then q.synchronize else q.synchronize.advance

theorem afterStatement_of_ok {p q : Parser} {s : Stmt} (h : statement expr p = .ok s q) :
    afterStatement expr p = q.advance := by
  rw [afterStatement, h]

theorem afterStatement_of_error {p q : Parser} {e : Stopped}
    (h : statement expr p = .error e q) :
    afterStatement expr p =
      if q.synchronize.current.kind = .rightBrace then q.synchronize
      else q.synchronize.advance := by
  rw [afterStatement, h]

/-- Reading a block from `p` on, statement by statement, the parser comes to `q`. -/
inductive ComesTo : Parser → Parser → Prop
  | here {p : Parser} : ComesTo p p
  | next {p q : Parser} :
      p.current.kind ≠ .rightBrace → ComesTo (afterStatement expr p) q → ComesTo p q

variable {expr} {p q r : Parser}

theorem ComesTo.to_end (h : ComesTo expr p r) (hq : ComesTo expr p q)
    (hend : q.current.kind = .rightBrace) : ComesTo expr r q := by
  induction h with
  | here => exact hq
  | next hne _ ih =>
      cases hq with
      | here => exact absurd hend hne
      | next _ hq => exact ih hq

end Parse

namespace Cut

variable {K : Cut} {m n : Nat} {p q : Parser}

theorem owed_eq_of_ahead {items : List Item}
    (h : .token p.next :: p.ahead = items ++ [.token K.mark]) :
    p.owed = owedBraces (.token p.current :: items) := by
  have hmark : owedBraces [.token K.mark] = 0 := by
    simp only [owedBraces, K.isSemicolon]
    rfl
  have hfront : p.front = (.token p.current :: items) ++ [.token K.mark] :=
    congrArg (Item.token p.current :: ·) h
  rw [Parser.owed, hfront, owedBraces_append, hmark, Nat.zero_sub, Nat.add_zero]

namespace On

/-- The parser knows of no more open braces than the text in front of it closes. -/
theorem le_owed (h : K.On n p p) : n ≤ p.owed := by
  rcases h with h | ⟨rfl, -⟩
  · obtain ⟨items, hitems, -, hopen, -⟩ := h.ahead
    have hfront : openBraces n (.token p.current :: items) = 0 := hopen
    rw [owed_eq_of_ahead hitems]
    exact (openBraces_eq_zero_iff.mp hfront).2
  · exact Nat.zero_le _

theorem of_le_owed (h : K.On (m + 1) p p) (hn : n ≤ p.owed) : K.On n p p := by
  have hfacing := h.facing_succ
  obtain ⟨items, hitems, hitems', hopen, hpresent⟩ := hfacing.ahead
  have hfront : openBraces (m + 1) (.token p.current :: items) = 0 := hopen
  rw [owed_eq_of_ahead hitems] at hn
  have hfront' : openBraces n (.token p.current :: items) = 0 :=
    openBraces_eq_zero_iff.mpr ⟨(openBraces_eq_zero_iff.mp hfront).1, hn⟩
  exact .inl ⟨⟨hfacing.depth_eq, hfacing.errors_eq, items, hitems, hitems', hfront', hpresent⟩,
    hfacing.current_eq, hfacing.current_ne⟩

end On

section

variable {expr : Precedence → Parse Expr} [∀ m, Parse.Orderly (expr m)]

/-- A statement in front of which a brace is open either is read or is given up before the brace is
closed. -/
theorem statement_cases (he : K.Kept expr) (h : K.On (n + 1) p p) :
    (∃ s q, Parse.statement expr p = .ok s q ∧ p.Moves q ∧ K.Read (n + 1) q q) ∨
      ∃ e q, Parse.statement expr p = .error e q ∧ p.Moves q.synchronize ∧
        p.errors.length < q.synchronize.errors.length ∧
        K.On (n + 1) q.synchronize q.synchronize := by
  have hs := ends_statement he h
  have hleads := Parse.Orderly.leads (r := Parse.statement expr) p
  generalize Parse.statement expr p = result at hs hleads
  cases hs with
  | @ok s q _ hq =>
      obtain hq | ⟨hzero, -⟩ := hq
      · exact .inl ⟨s, q, rfl, hleads, hq⟩
      · cases hzero
  | @stopped e q _ hq =>
      have hsync := q.moves_synchronize
      exact .inr ⟨e, q, rfl, hleads.1.trans hsync,
        Nat.lt_of_lt_of_le hleads.2 hsync.errors_grow.length_le, hq.synchronize⟩

theorem on_afterStatement (he : K.Kept expr) (h : K.On (n + 1) p p) :
    K.On (n + 1) (Parse.afterStatement expr p) (Parse.afterStatement expr p) := by
  obtain ⟨s, q, hr, -, hq⟩ | ⟨e, q, hr, -, -, hq⟩ := statement_cases he h
  · rw [Parse.afterStatement_of_ok expr hr]
    exact hq.advance
  · rw [Parse.afterStatement_of_error expr hr]
    split
    · exact hq
    · exact (hq.facing_of_ne_rightBrace ‹_›).advance

/-- No statement takes a closing brace that is not its own. -/
theorem owed_le_afterStatement (he : K.Kept expr) (h : K.On (n + 1) p p) :
    p.owed ≤ (Parse.afterStatement expr p).owed := by
  -- Take the parser to know of as many open braces as the text closes. Behind the statement it
  -- still knows of them all, so the text still closes as many.
  obtain ⟨m, hm⟩ : ∃ m, p.owed = m + 1 := ⟨p.owed - 1, by have := h.le_owed; omega⟩
  rw [hm]
  exact (on_afterStatement he (h.of_le_owed (Nat.le_of_eq hm.symm))).le_owed

theorem on_of_comesTo (he : K.Kept expr) (h : K.On (n + 1) p p)
    (hq : Parse.ComesTo expr p q) : K.On (n + 1) q q ∧ p.owed ≤ q.owed := by
  induction hq with
  | here => exact ⟨h, Nat.le_refl _⟩
  | next _ _ ih =>
      obtain ⟨hon, hle⟩ := ih (on_afterStatement he h)
      exact ⟨hon, Nat.le_trans (owed_le_afterStatement he h) hle⟩

/-- A block comes to an end on a closing brace. -/
theorem exists_blockRest_eq (he : K.Kept expr) {k : Nat} (h : K.On (n + 1) p p)
    (hk : p.left < k) :
    ∃ b q, Parse.blockRest expr k p = .ok b q ∧ Parse.ComesTo expr p q ∧
      q.current.kind = .rightBrace := by
  -- Each statement that is read or given up takes a turn and leaves fewer tokens before the brace.
  induction k generalizing p with
  | zero => omega
  | succ k ih =>
      unfold Parse.blockRest
      rw [Parse.current_bind_run]
      by_cases hclose : p.current.kind = .rightBrace
      · rw [if_pos hclose]
        exact ⟨[], p, rfl, .here, hclose⟩
      rw [if_neg hclose, if_neg h.current_ne]
      rw [Parse.bind_run]
      unfold Parse.attempt
      obtain ⟨s, q, hr, hmoves, hq⟩ | ⟨e, q, hr, hmoves, -, hq⟩ := statement_cases he h
      · have hle := hmoves.left_le
        have hlt := hq.left_advance_lt
        obtain ⟨b, last, hrun, hlast, hend⟩ := ih hq.advance (by omega)
        rw [hr]
        dsimp only
        rw [Parse.advance_bind_run, Parse.bind_run, hrun]
        refine ⟨s :: b, last, rfl, .next hclose ?_, hend⟩
        rwa [Parse.afterStatement_of_ok expr hr]
      · rw [hr]
        dsimp only
        rw [Parse.modify_bind_run, Parse.current_bind_run]
        have hafter := Parse.afterStatement_of_error expr hr
        by_cases hstay : q.synchronize.current.kind = .rightBrace
        · rw [if_pos hstay] at hafter ⊢
          exact ⟨[], q.synchronize, rfl, .next hclose (hafter ▸ .here), hstay⟩
        · rw [if_neg hstay] at hafter ⊢
          have hfacing := hq.facing_of_ne_rightBrace hstay
          have hle := hmoves.left_le
          have hlt := hfacing.left_advance_lt
          obtain ⟨b, last, hrun, hlast, hend⟩ := ih hfacing.advance (by omega)
          exact ⟨b, last, hrun, .next hclose (hafter ▸ hlast), hend⟩

/-- The block has read each of its statements with as many braces as it owes if it owes as many
at its end as at its beginning. -/
theorem owed_eq_iff (he : K.Kept expr) (h : K.On (n + 1) p p) (hq : Parse.ComesTo expr p q)
    (hend : q.current.kind = .rightBrace) :
    q.owed = p.owed ↔ ∀ r, Parse.ComesTo expr p r → r.current.kind ≠ .rightBrace →
      (Parse.afterStatement expr r).owed = r.owed := by
  constructor
  · intro howed r hr hne
    obtain ⟨hon, hle⟩ := on_of_comesTo he h hr
    have hafter := owed_le_afterStatement he hon
    cases hr.to_end hq hend with
    | here => exact absurd hend hne
    | next _ hrest =>
        have hlast := (on_of_comesTo he (on_afterStatement he hon) hrest).2
        omega
  · intro hall
    induction hq with
    | here => rfl
    | next hne _ ih =>
        rw [ih (on_afterStatement he h) hend fun r hr => hall r (.next hne hr), hall _ .here hne]

end

/-- Where the text closes a brace that is not open there, an error is found. -/
theorem errors_lt_statements (h : K.On (n + 1) p p) {k : Nat} (hk : p.left < k) :
    p.errors.length < (p.statements k).2.errors.length := by
  induction k generalizing p with
  | zero => omega
  | succ k ih =>
      rw [Parser.statements, if_neg h.current_ne]
      obtain ⟨s, q, hr, hmoves, hq⟩ | ⟨e, q, hr, -, hlt, -⟩ :=
        statement_cases (kept_expression K) h
      · have hle := hmoves.left_le
        have hlt := hq.left_advance_lt
        rw [hr]
        exact Nat.lt_of_le_of_lt hmoves.advance.errors_grow.length_le (ih hq.advance (by omega))
      · have hmoves := Parser.Moves.refl.advance.trans (q.synchronize.advance.moves_statements k)
        rw [hr]
        exact Nat.lt_of_lt_of_le hlt hmoves.errors_grow.length_le

end Cut

end ScriptLang
