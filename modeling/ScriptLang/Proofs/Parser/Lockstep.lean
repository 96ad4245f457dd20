import ScriptLang.Proofs.Parser.Moves

/-!
Two parsers in lockstep. The texts in front of them are the same up to a semicolon; behind
it one text ends, and the other one goes on (`Cut`). As long as neither has come to the
semicolon they do the same, and a routine that comes to it stops there: no routine looks
beyond a semicolon that it stands on.

This only holds where no brace is open. Inside a block a broken statement is given up at
the semicolon and the next one is read, so it must be known that the semicolon lies behind
the block. The parser takes a brace for the end of a block that may have been meant for
something inside it, but never the other way round: it always knows of at most as many open
braces as there are. What is carried along is therefore that the text up to the semicolon
closes as many braces as the parser has open (`openBraces`), and fewer will be closed all
the more.
-/

namespace ScriptLang

/-! ### Braces -/

/-- How many braces are open behind a token of this kind, when so many are open before it.
Where none is open, a closing brace closes nothing. -/
def TokenKind.openAfter (n : Nat) : TokenKind → Nat
  | .leftBrace => n + 1
  | .rightBrace => n - 1
  | _ => n

def openBraces : Nat → List Item → Nat
  | n, [] => n
  | n, .token t :: items => openBraces (t.kind.openAfter n) items
  | n, .error _ :: items => openBraces n items

/-- A kind of token that is not a brace and does not end a statement. -/
def TokenKind.isPlain : TokenKind → Bool
  | .leftBrace | .rightBrace | .semicolon | .endOfInput => false
  | _ => true

theorem TokenKind.openAfter_of_isPlain {kind : TokenKind} (h : kind.isPlain = true) (n : Nat) :
    kind.openAfter n = n := by
  cases kind <;> first | rfl | cases h

theorem TokenKind.openAfter_le {kind : TokenKind} (h : kind ≠ .leftBrace) (n : Nat) :
    kind.openAfter n ≤ n := by
  unfold openAfter
  split
  · exact absurd rfl h
  · exact Nat.sub_le _ _
  · exact Nat.le_refl _

theorem TokenKind.le_openAfter {kind : TokenKind} (h : kind ≠ .rightBrace) (n : Nat) :
    n ≤ kind.openAfter n := by
  unfold openAfter
  split
  · exact Nat.le_succ _
  · exact absurd rfl h
  · exact Nat.le_refl _

theorem TokenKind.openAfter_mono {m n : Nat} (h : m ≤ n) (kind : TokenKind) :
    kind.openAfter m ≤ kind.openAfter n := by
  unfold openAfter
  split <;> omega

theorem openBraces_mono {m n : Nat} (h : m ≤ n) (items : List Item) :
    openBraces m items ≤ openBraces n items := by
  induction items generalizing m n with
  | nil => exact h
  | cons item items ih =>
      cases item with
      | token t => exact ih (t.kind.openAfter_mono h)
      | error e => exact ih h

/-! ### Two parsers before a semicolon -/

/-- A semicolon in a text, and what comes behind it. -/
structure Cut where
  mark : Token
  isSemicolon : mark.kind = .semicolon
  behind : List Item

namespace Cut

/-- Behind their current tokens the parsers have the same in front of them up to the
semicolon, and where `n` braces are open now, none is open there. The first text ends with
the semicolon. -/
structure Ahead (K : Cut) (n : Nat) (p p' : Parser) : Prop where
  depth_eq : p.depth = p'.depth
  /-- Of lexical errors behind the semicolon, some may have been recorded already. -/
  errors_eq : (∀ e, .error e ∉ K.behind) → p.errors = p'.errors
  ahead : ∃ items, .token p.next :: p.ahead = items ++ [.token K.mark] ∧
    .token p'.next :: p'.ahead = items ++ .token K.mark :: K.behind ∧
    openBraces n items = 0 ∧ ∀ t, .token t ∈ items → t.kind ≠ .endOfInput

/-- The parsers stand on the same token before the semicolon, which has been counted among
the open braces. -/
structure Facing (K : Cut) (n : Nat) (p p' : Parser) : Prop extends K.Ahead n p p' where
  current_eq : p.current = p'.current
  current_ne : p.current.kind ≠ .endOfInput

/-- The parsers stand on the same token before the semicolon, where a routine may have
ended that has read something. -/
structure Read (K : Cut) (n : Nat) (p p' : Parser) : Prop extends K.Facing n p p' where
  not_leftBrace : p.current.kind ≠ .leftBrace

structure Reached (K : Cut) (p p' : Parser) : Prop where
  current : p.current = K.mark
  current' : p'.current = K.mark
  next : p.next.kind = .endOfInput
  ahead : p.ahead = []
  next' : p'.next = (readToken p'.size K.behind).token
  ahead' : p'.ahead = (readToken p'.size K.behind).rest
  depth_eq : p.depth = p'.depth
  errors_eq : (∀ e, .error e ∉ K.behind) → p.errors = p'.errors

/-- The parsers stand on the same token, where `n` braces are open before it. They may
stand on the semicolon only if no brace is open. -/
def On (K : Cut) (n : Nat) (p p' : Parser) : Prop :=
  K.Facing (p.current.kind.openAfter n) p p' ∨ (n = 0 ∧ K.Reached p p')

variable {K : Cut} {m n : Nat} {p p' : Parser}

/-! ### Moving on -/

theorem readToken_cut (K : Cut) (items : List Item) (size size' : Nat) :
    (readToken size (items ++ [.token K.mark])).passed =
        (readToken size' (items ++ .token K.mark :: K.behind)).passed ∧
      ∃ rest, .token (readToken size (items ++ [.token K.mark])).token ::
            (readToken size (items ++ [.token K.mark])).rest = rest ++ [.token K.mark] ∧
        .token (readToken size' (items ++ .token K.mark :: K.behind)).token ::
            (readToken size' (items ++ .token K.mark :: K.behind)).rest =
          rest ++ .token K.mark :: K.behind ∧
        (∀ n, openBraces n rest = openBraces n items) ∧ ∀ item ∈ rest, item ∈ items := by
  induction items with
  | nil => exact ⟨rfl, [], rfl, rfl, fun _ => rfl, nofun⟩
  | cons item items ih =>
      cases item with
      | token t => exact ⟨rfl, .token t :: items, rfl, rfl, fun _ => rfl, fun _ h => h⟩
      | error e =>
          obtain ⟨hpassed, rest, hrest, hrest', hopen, hmem⟩ := ih
          exact ⟨congrArg (SyntaxError.lexical e :: ·) hpassed, rest, hrest, hrest', hopen,
            fun item h => List.mem_cons_of_mem _ (hmem item h)⟩

theorem passed_eq_nil {items : List Item} (h : ∀ e, .error e ∉ items) (size : Nat) :
    (readToken size items).passed = [] := by
  cases items with
  | nil => rfl
  | cons item items =>
      cases item with
      | token t => rfl
      | error e => exact absurd List.mem_cons_self (h e)

namespace Ahead

theorem mono (h : K.Ahead n p p') (hle : m ≤ n) : K.Ahead m p p' := by
  obtain ⟨items, hitems, hitems', hopen, hpresent⟩ := h.ahead
  have hmono := openBraces_mono hle items
  exact ⟨h.depth_eq, h.errors_eq, items, hitems, hitems', by omega, hpresent⟩

theorem next_eq (h : K.Ahead n p p') : p.next = p'.next := by
  obtain ⟨items, hitems, hitems', -, -⟩ := h.ahead
  cases items <;> grind

theorem next_ne (h : K.Ahead n p p') : p.next.kind ≠ .endOfInput := by
  obtain ⟨items, hitems, -, -, hpresent⟩ := h.ahead
  cases items with
  | nil =>
      obtain ⟨hnext, -⟩ := List.cons.inj hitems
      rw [Item.token.inj hnext, K.isSemicolon]
      decide
  | cons item items =>
      obtain ⟨rfl, -⟩ := List.cons.inj hitems
      exact hpresent _ List.mem_cons_self

theorem left_le (h : K.Ahead n p p') : p.left ≤ p'.left := by
  have hweight : p.next.weight = p'.next.weight := by rw [h.next_eq]
  obtain ⟨items, hitems, hitems', -, -⟩ := h.ahead
  have hlength := congrArg List.length hitems
  have hlength' := congrArg List.length hitems'
  simp only [List.length_cons, List.length_nil, List.length_append] at hlength hlength'
  unfold Parser.left
  omega

theorem left_advance_lt (h : K.Ahead n p p') : p.advance.left < p.left :=
  Parser.left_advance_lt h.next_ne

theorem advance (h : K.Ahead n p p') : K.On n p.advance p'.advance := by
  obtain ⟨items, hitems, hitems', hopen, hpresent⟩ := h.ahead
  cases items with
  | nil =>
      obtain ⟨hnext, hahead⟩ := List.cons.inj hitems
      obtain ⟨hnext', hahead'⟩ := List.cons.inj hitems'
      replace hahead : p.ahead = [] := hahead
      replace hahead' : p'.ahead = K.behind := hahead'
      refine .inr ⟨hopen, Item.token.inj hnext, Item.token.inj hnext', ?_, ?_, ?_, ?_,
        h.depth_eq, fun hclean => ?_⟩
      · simp only [Parser.advance, hahead]
        rfl
      · simp only [Parser.advance, hahead]
        rfl
      · simp only [Parser.advance, hahead']
      · simp only [Parser.advance, hahead']
      · simp only [Parser.advance, hahead, hahead', passed_eq_nil hclean, h.errors_eq hclean]
        rfl
  | cons item items =>
      obtain ⟨rfl, hahead⟩ := List.cons.inj hitems
      obtain ⟨hnext', hahead'⟩ := List.cons.inj hitems'
      replace hahead : p.ahead = items ++ [.token K.mark] := hahead
      replace hahead' : p'.ahead = items ++ .token K.mark :: K.behind := hahead'
      obtain ⟨hpassed, rest, hrest, hrest', hopen', hmem⟩ :=
        readToken_cut K items p.size p'.size
      rw [← hahead] at hpassed hrest
      rw [← hahead'] at hpassed hrest'
      refine .inl ⟨⟨h.depth_eq, fun hclean => ?_, rest, hrest, hrest', ?_, fun t ht => ?_⟩,
        (Item.token.inj hnext').symm, h.next_ne⟩
      · show p.errors ++ _ = p'.errors ++ _
        rw [h.errors_eq hclean, hpassed]
      · rw [hopen']
        exact hopen
      · exact hpresent t (List.mem_cons_of_mem _ (hmem _ ht))

end Ahead

theorem Facing.mono (h : K.Facing n p p') (hle : m ≤ n) : K.Facing m p p' :=
  ⟨h.toAhead.mono hle, h.current_eq, h.current_ne⟩

theorem Facing.record (h : K.Facing n p p') (e : SyntaxError) :
    K.Facing n (p.record e) (p'.record e) := by
  refine ⟨⟨h.depth_eq, fun hclean => ?_, h.ahead⟩, h.current_eq, h.current_ne⟩
  show p.errors ++ [e] = p'.errors ++ [e]
  rw [h.errors_eq hclean]

theorem Facing.withDepth (h : K.Facing n p p') (d : Nat) :
    K.Facing n { p with depth := d } { p' with depth := d } :=
  ⟨⟨rfl, h.errors_eq, h.ahead⟩, h.current_eq, h.current_ne⟩

theorem Reached.record (h : K.Reached p p') (e : SyntaxError) :
    K.Reached (p.record e) (p'.record e) := by
  refine ⟨h.current, h.current', h.next, h.ahead, h.next', h.ahead', h.depth_eq,
    fun hclean => ?_⟩
  show p.errors ++ [e] = p'.errors ++ [e]
  rw [h.errors_eq hclean]

theorem Reached.withDepth (h : K.Reached p p') (d : Nat) :
    K.Reached { p with depth := d } { p' with depth := d } :=
  ⟨h.current, h.current', h.next, h.ahead, h.next', h.ahead', rfl, h.errors_eq⟩

theorem Read.withDepth (h : K.Read n p p') (d : Nat) :
    K.Read n { p with depth := d } { p' with depth := d } :=
  ⟨h.toFacing.withDepth d, h.not_leftBrace⟩

/-- What a routine has read leaves no more braces open. -/
theorem Read.on (h : K.Read n p p') : K.On n p p' :=
  .inl (h.toFacing.mono (TokenKind.openAfter_le h.not_leftBrace n))

namespace On

theorem mono (h : K.On n p p') (hle : m ≤ n) : K.On m p p' := by
  rcases h with h | ⟨rfl, h⟩
  · exact .inl (h.mono (p.current.kind.openAfter_mono hle))
  · exact .inr ⟨Nat.le_zero.mp hle, h⟩

theorem record (h : K.On n p p') (e : SyntaxError) : K.On n (p.record e) (p'.record e) := by
  rcases h with h | ⟨hn, h⟩
  · exact .inl (h.record e)
  · exact .inr ⟨hn, h.record e⟩

theorem withDepth (h : K.On n p p') (d : Nat) :
    K.On n { p with depth := d } { p' with depth := d } := by
  rcases h with h | ⟨hn, h⟩
  · exact .inl (h.withDepth d)
  · exact .inr ⟨hn, h.withDepth d⟩

theorem depth_eq (h : K.On n p p') : p.depth = p'.depth := by
  rcases h with h | ⟨-, h⟩ <;> exact h.depth_eq

theorem current_eq (h : K.On n p p') : p.current = p'.current := by
  rcases h with h | ⟨-, h⟩
  · exact h.current_eq
  · rw [h.current, h.current']

theorem current_ne (h : K.On n p p') : p.current.kind ≠ .endOfInput := by
  rcases h with h | ⟨-, h⟩
  · exact h.current_ne
  · rw [h.current, K.isSemicolon]
    decide

/-- Only on a semicolon the parsers may have come to the end. -/
theorem facing (h : K.On n p p') (hk : p.current.kind ≠ .semicolon) :
    K.Facing (p.current.kind.openAfter n) p p' := by
  rcases h with h | ⟨-, h⟩
  · exact h
  · exact absurd (by rw [h.current, K.isSemicolon]) hk

theorem facing_succ (h : K.On (n + 1) p p') :
    K.Facing (p.current.kind.openAfter (n + 1)) p p' := by
  rcases h with h | ⟨hn, -⟩
  · exact h
  · cases hn

theorem read (h : K.On n p p') {kind : TokenKind} (hk : p.current.kind = kind)
    (hkind : kind.isPlain = true) : K.Read n p p' := by
  subst hk
  have hfacing := h.facing fun hsemicolon => by rw [hsemicolon] at hkind; cases hkind
  rw [TokenKind.openAfter_of_isPlain hkind] at hfacing
  exact ⟨hfacing, fun hleft => by rw [hleft] at hkind; cases hkind⟩

/-- A closing brace ends what the last opening one has begun. -/
theorem read_rightBrace (h : K.On (n + 1) p p') (hk : p.current.kind = .rightBrace) :
    K.Read n p p' := by
  have hfacing := h.facing_succ
  rw [hk] at hfacing
  exact ⟨hfacing, by rw [hk]; decide⟩

theorem facing_of_ne_rightBrace (h : K.On (n + 1) p p') (hk : p.current.kind ≠ .rightBrace) :
    K.Facing (n + 1) p p' :=
  h.facing_succ.mono (TokenKind.le_openAfter hk (n + 1))

theorem facing_of_ne (h : K.On n p p') (hk : p.current.kind ≠ .semicolon)
    (hk' : p.current.kind ≠ .rightBrace) : K.Facing n p p' :=
  (h.facing hk).mono (TokenKind.le_openAfter hk' n)

/-- To give a statement up leaves the parsers on the same token, with no more braces
open. -/
theorem synchronize (h : K.On n p p') : K.On n p.synchronize p'.synchronize := by
  induction p using Parser.synchronize.induct generalizing p' with
  | case1 p hstop =>
      rw [Parser.synchronize.eq_1 p, if_pos hstop, Parser.synchronize.eq_1 p', if_pos]
      · exact h
      · rcases h with h | ⟨-, h⟩
        · rw [← h.current_eq, ← h.next_eq]
          exact hstop
        · rw [h.current', K.isSemicolon]
          exact .inl rfl
  | case2 p hgo ih =>
      have hfacing := h.facing_of_ne (fun hsemicolon => hgo (.inl hsemicolon))
        fun hright => hgo (.inr (.inl hright))
      rw [Parser.synchronize.eq_1 p, if_neg hgo, Parser.synchronize.eq_1 p', if_neg]
      · exact ih hfacing.advance
      · rw [← hfacing.current_eq, ← hfacing.next_eq]
        exact hgo

end On

variable {kind : TokenKind}

theorem Ahead.advance_plain (h : K.Ahead n p p') (hk : p.next.kind = kind)
    (hkind : kind.isPlain = true) : K.Read n p.advance p'.advance :=
  h.advance.read hk hkind

theorem Ahead.advance_leftBrace (h : K.Ahead n p p') (hk : p.next.kind = .leftBrace) :
    K.Facing (n + 1) p.advance p'.advance := by
  have hcurrent : p.advance.current.kind = .leftBrace := hk
  have hfacing := h.advance.facing (by rw [hcurrent]; decide)
  rwa [hcurrent] at hfacing

theorem Ahead.advance_rightBrace (h : K.Ahead (n + 1) p p') (hk : p.next.kind = .rightBrace) :
    K.Read n p.advance p'.advance :=
  h.advance.read_rightBrace hk

end Cut

end ScriptLang
