import ScriptLang.Proofs.Parser.Moves
import ScriptLang.Proofs.Token.Scanned

/-!
Reading a source text to its end. Parsing a program is one long row of moves, and
the row ends where the text ends, so every lexical error of the text is recorded
once, in the order of the text (`lexicalErrors_parse`).
-/

namespace ScriptLang

def SyntaxError.lexical? : SyntaxError → Option LexicalError
  | .lexical e => some e
  | _ => none

def Item.error? : Item → Option LexicalError
  | .token _ => none
  | .error e => some e

/-- Reading a token loses no lexical error. -/
theorem faults_readToken (size : Nat) (items : List Item) :
    (readToken size items).passed.filterMap SyntaxError.lexical? ++
        (readToken size items).rest.filterMap Item.error? =
      items.filterMap Item.error? := by
  induction items with
  | nil => rfl
  | cons item items ih =>
      cases item with
      | token t => rfl
      | error e => exact congrArg (e :: ·) ih

theorem rest_readToken_suffix (size : Nat) (items : List Item) :
    (readToken size items).rest <:+ items := by
  induction items with
  | nil => exact List.suffix_rfl
  | cons item items ih =>
      cases item with
      | token t => exact List.suffix_cons _ _
      | error l => exact ih.trans (List.suffix_cons _ _)

theorem token_readToken (size : Nat) (items : List Item) :
    (readToken size items).token = Token.endAt size ∨
      .token (readToken size items).token ∈ items := by
  induction items with
  | nil => exact .inl rfl
  | cons item items ih =>
      cases item with
      | token t => exact .inr List.mem_cons_self
      | error l => exact ih.imp_right (List.mem_cons_of_mem _)

theorem rest_readToken_eq_nil {size : Nat} {items : List Item}
    (hitems : ∀ t, .token t ∈ items → t.kind ≠ .endOfInput)
    (h : (readToken size items).token.kind = .endOfInput) :
    (readToken size items).rest = [] := by
  induction items with
  | nil => rfl
  | cons first items ih =>
      cases first with
      | token t => exact absurd h (hitems t List.mem_cons_self)
      | error e => exact ih (fun t ht => hitems t (List.mem_cons_of_mem _ ht)) h

theorem isName_readToken {size : Nat} {items : List Item}
    (hitems : ∀ t, .token t ∈ items → t.Scanned)
    (h : (readToken size items).token.kind = .identifier) :
    IsName (readToken size items).token.literal := by
  rcases token_readToken size items with hend | hmem
  · rw [hend] at h
    cases h
  · exact (hitems _ hmem).isName h

namespace Parser

/-- The lexical errors of the text, those that are recorded before those that are
still to be read. -/
def faults (p : Parser) : List LexicalError :=
  p.errors.filterMap SyntaxError.lexical? ++ p.ahead.filterMap Item.error?

/-- The parser while it reads a source text: identifiers are names, and behind the
end of the input there is nothing. -/
structure Scanned (p : Parser) : Prop where
  ahead : ∀ t, .token t ∈ p.ahead → t.Scanned
  current : p.current.kind = .identifier → IsName p.current.literal
  next : p.next.kind = .identifier → IsName p.next.literal
  next_end : p.next.kind = .endOfInput → p.ahead = []
  current_end : p.current.kind = .endOfInput → p.next.kind = .endOfInput

theorem Scanned.advance {p : Parser} (h : p.Scanned) : p.advance.Scanned where
  ahead t ht := h.ahead t ((rest_readToken_suffix _ _).mem ht)
  current := h.next
  next := isName_readToken h.ahead
  next_end := rest_readToken_eq_nil fun t ht => (h.ahead t ht).kind_ne
  current_end hk := by
    show (readToken p.size p.ahead).token.kind = .endOfInput
    rw [h.next_end hk]
    rfl

theorem Moves.faults_eq {p q : Parser} (h : p.Moves q) : q.faults = p.faults := by
  induction h with
  | refl => rfl
  | @advance q _ ih =>
      rw [← ih]
      simp only [faults, Parser.advance, List.filterMap_append, List.append_assoc,
        faults_readToken]
  | @record q e _ he ih =>
      have hlexical : e.lexical? = none := by
        cases e with
        | lexical l => exact absurd rfl (he.1 l)
        | _ => rfl
      rw [← ih]
      simp [faults, Parser.record, hlexical]

theorem Moves.scanned {p q : Parser} (h : p.Moves q) (hp : p.Scanned) : q.Scanned := by
  induction h with
  | refl => exact hp
  | advance _ ih => exact ih.advance
  | record _ _ ih => exact ⟨ih.ahead, ih.current, ih.next, ih.next_end, ih.current_end⟩

/-! ### Whole programs -/

/-- After a statement the program has come closer to its end, or is there. -/
theorem left_advance_lt_or_end {p q : Parser} (h : p.Moves q) :
    q.advance.left < p.left ∨ q.advance.current.kind = .endOfInput := by
  by_cases hk : q.next.kind = .endOfInput
  · exact .inr hk
  · exact .inl (Nat.lt_of_lt_of_le (left_advance_lt hk) h.left_le)

def EnoughTurns (n : Nat) (p : Parser) : Prop :=
  p.left + 2 ≤ n ∨ (p.current.kind = .endOfInput ∧ 1 ≤ n)

/-- A turn is used up for every statement, and as many are enough for the rest: the end has
come closer, unless it was reached. -/
theorem EnoughTurns.next {n : Nat} {p q : Parser} (h : p.EnoughTurns (n + 1))
    (hk : p.current.kind ≠ .endOfInput) (hq : p.Moves q) : q.advance.EnoughTurns n := by
  rcases h with hn | ⟨hend, -⟩
  · rcases left_advance_lt_or_end hq with hlt | hend
    · exact .inl (by omega)
    · exact .inr ⟨hend, by omega⟩
  · exact absurd hend hk

/-- The statements are read to the end of the input. -/
theorem current_kind_statements {n : Nat} {p : Parser} (hp : p.Scanned) (hn : p.EnoughTurns n) :
    (p.statements n).2.current.kind = .endOfInput := by
  induction n generalizing p with
  | zero => rcases hn with hn | ⟨-, hn⟩ <;> omega
  | succ n ih =>
      rw [statements]
      split
      · assumption
      · rename_i hk
        have hs := Parse.Orderly.leads (r := Parse.statement Parse.expression) p
        cases hr : Parse.statement Parse.expression p with
        | ok s q =>
            rw [hr] at hs
            exact ih (Moves.scanned hs hp).advance (hn.next hk hs)
        | error e q =>
            rw [hr] at hs
            have hmoves := hs.1.trans q.moves_synchronize
            exact ih (hmoves.scanned hp).advance (hn.next hk hmoves)

/-- It does not matter how many more turns there are than enough. -/
theorem statements_eq_of_enoughTurns {n n' : Nat} {p : Parser} (h : p.EnoughTurns n)
    (h' : p.EnoughTurns n') : p.statements n = p.statements n' := by
  induction n generalizing n' p with
  | zero => rcases h with h | ⟨-, h⟩ <;> omega
  | succ n ih =>
      obtain ⟨n', rfl⟩ : ∃ k, n' = k + 1 :=
        ⟨n' - 1, by rcases h' with h' | ⟨-, h'⟩ <;> omega⟩
      rw [statements, statements]
      split
      · rfl
      · rename_i hk
        have hs := Parse.Orderly.leads (r := Parse.statement Parse.expression) p
        cases hr : Parse.statement Parse.expression p with
        | ok s q =>
            rw [hr] at hs
            dsimp only
            rw [ih (h.next hk hs) (h'.next hk hs)]
        | error e q =>
            rw [hr] at hs
            have hmoves := hs.1.trans q.moves_synchronize
            exact ih (h.next hk hmoves) (h'.next hk hmoves)

theorem scanned_ofSource (source : String) : (ofSource source).Scanned := by
  have hscan : ∀ t, .token t ∈ scan source → t.Scanned := fun t => scanned_of_mem_scan
  let first := readToken (endOf source).span.start (scan source)
  have hfirst : ∀ t, .token t ∈ first.rest → t.Scanned :=
    fun t ht => hscan t ((rest_readToken_suffix _ _).mem ht)
  exact {
    ahead := fun t ht => hfirst t ((rest_readToken_suffix _ _).mem ht)
    current := isName_readToken hscan
    next := isName_readToken hfirst
    next_end := rest_readToken_eq_nil fun t ht => (hfirst t ht).kind_ne
    current_end := fun hk => by
      have hrest : first.rest = [] :=
        rest_readToken_eq_nil (fun t ht => (hscan t ht).kind_ne) hk
      show (readToken (endOf source).span.start first.rest).token.kind = .endOfInput
      rw [hrest]
      rfl }

theorem faults_ofSource (source : String) :
    (ofSource source).faults = (scan source).filterMap Item.error? := by
  let start : Parser :=
    ⟨endOf source, endOf source, scan source, (endOf source).span.start, [], 0⟩
  exact (Moves.advance (.advance (.refl (p := start)))).faults_eq

end Parser

/-- The lexical errors that parsing records are those of the text. -/
theorem lexicalErrors_parse (source : String) :
    (parse source).2.filterMap SyntaxError.lexical? =
      (scan source).filterMap Item.error? := by
  let p := Parser.ofSource source
  have hp : p.Scanned := Parser.scanned_ofSource source
  let last := (p.statements (p.left + 2)).2
  have hmoves : p.Moves last := p.moves_statements _
  have hend : last.current.kind = .endOfInput :=
    Parser.current_kind_statements hp (.inl (Nat.le_refl _))
  have hahead : last.ahead = [] := by
    have hscanned := hmoves.scanned hp
    exact hscanned.next_end (hscanned.current_end hend)
  have hfaults : last.faults = p.faults := hmoves.faults_eq
  -- With nothing left to read, all lexical errors are among those recorded.
  rw [Parser.faults, hahead, Parser.faults_ofSource] at hfaults
  show last.errors.filterMap SyntaxError.lexical? = _
  simpa using hfaults

end ScriptLang
