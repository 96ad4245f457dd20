import ScriptLang.Proofs.Parser.LexicalErrors
import ScriptLang.Proofs.Token.Places

/-!
Errors come in the order of their places, but for the lexical ones, which are recorded as soon
as they are read. An error about a token is about the current one or the next one. So nothing
is ever recorded in front of an earlier error if no routine complains of the current token
after one has complained of the next.

A routine that looks at the current token begins where no error so far is behind that token
(`Parser.OrderedToCurrent`); for the others it is enough that none is behind the next one
(`Parser.OrderedToNext`), and so it is where they end. Moving on by a token turns the latter into
the former, which is what recovery does before the next statement is read.
-/

namespace ScriptLang

/-- Whether an error is about a token, and not about text that is none. -/
def SyntaxError.aboutToken (e : SyntaxError) : Bool := e.lexical?.isNone

/-- Errors about tokens come in the order of their places, and none is behind an offset. -/
structure OrderedUpTo (offset : Nat) (es : List SyntaxError) : Prop where
  ordered : (es.filter SyntaxError.aboutToken).Pairwise fun e e' => e.span.start ≤ e'.span.start
  le_offset : ∀ e ∈ es, e.aboutToken = true → e.span.start ≤ offset

namespace OrderedUpTo

variable {n m : Nat} {es : List SyntaxError}

theorem mono (h : OrderedUpTo n es) (hle : n ≤ m) : OrderedUpTo m es :=
  ⟨h.ordered, fun e he ht => Nat.le_trans (h.le_offset e he ht) hle⟩

theorem append_lexical (h : OrderedUpTo n es) {passed : List SyntaxError}
    (hpassed : ∀ e ∈ passed, e.aboutToken = false) : OrderedUpTo n (es ++ passed) where
  ordered := by
    have hnone : passed.filter SyntaxError.aboutToken = [] :=
      List.filter_eq_nil_iff.mpr fun e he => by simp [hpassed e he]
    rw [List.filter_append, hnone, List.append_nil]
    exact h.ordered
  le_offset e he ht := by
    rcases List.mem_append.mp he with he | he
    · exact h.le_offset e he ht
    · rw [hpassed e he] at ht
      cases ht

theorem record (h : OrderedUpTo n es) {e : SyntaxError} (hle : n ≤ e.span.start) :
    OrderedUpTo e.span.start (es ++ [e]) where
  ordered := by
    rw [List.filter_append]
    refine List.pairwise_append.mpr ⟨h.ordered, (List.pairwise_singleton _ e).filter _, ?_⟩
    intro e₁ h₁ e₂ h₂
    obtain ⟨h₁, ht⟩ := List.mem_filter.mp h₁
    obtain rfl := List.mem_singleton.mp (List.mem_filter.mp h₂).1
    exact Nat.le_trans (h.le_offset e₁ h₁ ht) hle
  le_offset e₁ h₁ ht := by
    rcases List.mem_append.mp h₁ with h₁ | h₁
    · exact Nat.le_trans (h.le_offset e₁ h₁ ht) hle
    · rw [List.mem_singleton.mp h₁]

end OrderedUpTo

/-! ### Reading tokens -/

theorem aboutToken_of_mem_passed {size : Nat} {items : List Item} {e : SyntaxError}
    (h : e ∈ (readToken size items).passed) : e.aboutToken = false := by
  induction items with
  | nil => cases h
  | cons item items ih =>
      cases item with
      | token t => cases h
      | error l =>
          rcases List.mem_cons.mp h with rfl | h
          · rfl
          · exact ih h

theorem token_readToken_le {size : Nat} {items : List Item}
    (h : items.Pairwise fun a b => a.span.start ≤ b.span.start) {item : Item}
    (hitem : item ∈ (readToken size items).rest) :
    (readToken size items).token.span.start ≤ item.span.start := by
  induction items with
  | nil => cases hitem
  | cons first items ih =>
      obtain ⟨hfirst, hrest⟩ := List.pairwise_cons.mp h
      cases first with
      | token t => exact hfirst item hitem
      | error l => exact ih hrest hitem

/-- A token of a source text, or the end of it. -/
def Token.IsOf (source : String) (t : Token) : Prop :=
  t = endOf source ∨ .token t ∈ scan source

theorem Token.IsOf.liesIn {source : String} {t : Token} (h : t.IsOf source) :
    t.span.LiesIn source := by
  rcases h with rfl | h
  · exact liesIn_endOf source
  · exact liesIn_of_mem_scan h

namespace Parser

variable {source : String} {p q : Parser}

/-- What the parser has still to read is the end of a source text, and what it has complained
of are tokens of it. -/
structure AheadIn (source : String) (p : Parser) : Prop where
  size_eq : p.size = byteLength source.toList
  ahead : p.ahead <:+ scan source
  errors : ∀ e ∈ p.errors, e.aboutToken = true → ∃ t, Token.IsOf source t ∧ e.span = t.span

/-- The next token is of the text too, and stands in front of what is still to be read. -/
structure NextIn (source : String) (p : Parser) : Prop extends p.AheadIn source where
  next : p.next.IsOf source
  next_le : ∀ item ∈ p.ahead, p.next.span.start ≤ item.span.start

theorem AheadIn.advance (h : p.AheadIn source) : p.advance.NextIn source where
  size_eq := h.size_eq
  ahead := (rest_readToken_suffix _ _).trans h.ahead
  errors e he ht := by
    rcases List.mem_append.mp he with he | he
    · exact h.errors e he ht
    · rw [aboutToken_of_mem_passed he] at ht
      cases ht
  next := by
    rcases token_readToken p.size p.ahead with hend | hmem
    · exact .inl (hend.trans (by rw [h.size_eq]; rfl))
    · exact .inr (h.ahead.subset hmem)
  next_le item hitem :=
    token_readToken_le ((pairwise_start_itemsFrom _ _).sublist h.ahead.sublist) hitem

theorem NextIn.next_le_advance (h : p.NextIn source) :
    p.next.span.start ≤ p.advance.next.span.start := by
  show p.next.span.start ≤ (readToken p.size p.ahead).token.span.start
  rcases token_readToken p.size p.ahead with hend | hmem
  · rw [hend, h.size_eq]
    exact Nat.le_trans (Nat.le_add_right _ _) h.next.liesIn.stop_le
  · exact h.next_le _ hmem

theorem NextIn.record (h : p.NextIn source) {e : SyntaxError} {t : Token}
    (ht : t.IsOf source) (he : e.span = t.span) : (p.record e).NextIn source where
  size_eq := h.size_eq
  ahead := h.ahead
  errors e' he' ht' := by
    rcases List.mem_append.mp he' with he' | he'
    · exact h.errors e' he' ht'
    · rw [List.mem_singleton.mp he']
      exact ⟨t, ht, he⟩
  next := h.next
  next_le := h.next_le

structure OrderedToNext (source : String) (p : Parser) : Prop where
  nextIn : p.NextIn source
  ordered : OrderedUpTo p.next.span.start p.errors

structure OrderedToCurrent (source : String) (p : Parser) : Prop where
  nextIn : p.NextIn source
  current : p.current.IsOf source
  current_le : p.current.span.start ≤ p.next.span.start
  ordered : OrderedUpTo p.current.span.start p.errors

theorem OrderedToCurrent.toNext (h : p.OrderedToCurrent source) : p.OrderedToNext source :=
  ⟨h.nextIn, h.ordered.mono h.current_le⟩

/-- The token that no error is behind has become the current one. -/
theorem OrderedToNext.advance (h : p.OrderedToNext source) : p.advance.OrderedToCurrent source where
  nextIn := h.nextIn.toAheadIn.advance
  current := h.nextIn.next
  current_le := h.nextIn.next_le_advance
  ordered := h.ordered.append_lexical fun _ => aboutToken_of_mem_passed

theorem OrderedToNext.record (h : p.OrderedToNext source) {e : SyntaxError}
    (he : e.span = p.next.span) : (p.record e).OrderedToNext source where
  nextIn := h.nextIn.record h.nextIn.next he
  ordered := by
    have hrecorded := h.ordered.record (e := e) (by rw [he])
    exact hrecorded.mono (by rw [he]; exact Nat.le_refl _)

theorem OrderedToCurrent.record (h : p.OrderedToCurrent source) {e : SyntaxError}
    (he : e.span = p.current.span) : (p.record e).OrderedToNext source where
  nextIn := h.nextIn.record h.current he
  ordered := by
    have hrecorded := h.ordered.record (e := e) (by rw [he])
    exact hrecorded.mono (by rw [he]; exact h.current_le)

end Parser

def Coupling.ordered (source : String) : Coupling :=
  .diagonal (Parser.OrderedToCurrent source) (Parser.OrderedToCurrent source)
    (Parser.OrderedToNext source) (Parser.OrderedToNext source) id
    Parser.OrderedToCurrent.toNext id Parser.OrderedToNext.advance
    (fun he h => h.record (he.span_eq _)) (fun he h => h.record (he.span_eq _))

/-! ### Programs -/

namespace Parser

variable {source : String} {p : Parser}

theorem OrderedToCurrent.statements (h : p.OrderedToCurrent source) (n : Nat) :
    (p.statements n).2.OrderedToNext source :=
  ((Coupling.ordered source).statements ⟨rfl, h⟩ n).2.2

theorem orderedToCurrent_ofSource (source : String) :
    (ofSource source).OrderedToCurrent source := by
  let start : Parser :=
    ⟨endOf source, endOf source, scan source, (endOf source).span.start, [], 0⟩
  have hstart : start.AheadIn source :=
    ⟨rfl, List.suffix_rfl, fun _ he => absurd he List.not_mem_nil⟩
  have hordered : OrderedUpTo start.advance.next.span.start [] :=
    ⟨.nil, fun _ he => absurd he List.not_mem_nil⟩
  have hfirst : start.advance.OrderedToNext source :=
    ⟨hstart.advance, hordered.append_lexical fun _ => aboutToken_of_mem_passed⟩
  exact hfirst.advance

end Parser

/-- The errors about tokens in a source text. Each has the place of a token of the text or of
its end, and they come in the order of their places. -/
theorem aboutToken_parse (source : String) :
    (∀ e ∈ (parse source).2, e.aboutToken = true →
      ∃ t, Token.IsOf source t ∧ e.span = t.span) ∧
    ((parse source).2.filter SyntaxError.aboutToken).Pairwise
      fun e e' => e.span.start ≤ e'.span.start := by
  let p := Parser.ofSource source
  have hlast := (Parser.orderedToCurrent_ofSource source).statements (p.left + 2)
  exact ⟨hlast.nextIn.errors, hlast.ordered.ordered⟩

end ScriptLang
