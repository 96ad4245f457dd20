import ScriptLang.Proofs.Parser.LexicalErrors
import ScriptLang.Proofs.Token.Seam

/-!
Parsing does not depend on where things stand. The parser looks at the kinds and the literals of
tokens, and hands their places on to the errors that it records. So if all places are changed in
some way (`Relocation`) and other errors have already been found, it does the same and records
the same errors at the changed places (`statements_relocate`): the parser and the relocated one
are coupled.

One such change is that everything stands further on (`Parser.further`), as behind another text.
-/

namespace ScriptLang

/-- A change of all places in a text. The end of the text is a place like all others. -/
structure Relocation where
  span : Span → Span
  size : Nat → Nat
  span_end : ∀ n, span ⟨n, 0⟩ = ⟨size n, 0⟩

def Relocation.further (n : Nat) : Relocation where
  span := Span.shift n
  size m := m + n
  span_end _ := rfl

namespace Parser

/-- The same parser where everything has another place, when errors have been found before. -/
def relocate (f : Relocation) (before : List SyntaxError) (p : Parser) : Parser where
  current := p.current.mapSpan f.span
  next := p.next.mapSpan f.span
  ahead := p.ahead.map (Item.mapSpan f.span)
  size := f.size p.size
  errors := before ++ p.errors.map (SyntaxError.mapSpan f.span)
  depth := p.depth

variable (f : Relocation) (before : List SyntaxError) (p : Parser)

theorem readToken_relocate (size : Nat) (items : List Item) :
    readToken (f.size size) (items.map (Item.mapSpan f.span)) =
      ⟨(readToken size items).passed.map (SyntaxError.mapSpan f.span),
        (readToken size items).token.mapSpan f.span,
        (readToken size items).rest.map (Item.mapSpan f.span)⟩ := by
  induction items with
  | nil =>
      show (⟨[], Token.endAt (f.size size), []⟩ : Reading) = ⟨[], ⟨_, _, f.span ⟨size, 0⟩⟩, []⟩
      rw [f.span_end]
      rfl
  | cons item items ih =>
      cases item with
      | token t => rfl
      | error e =>
          show { readToken (f.size size) (items.map (Item.mapSpan f.span)) with
            passed := .lexical (e.mapSpan f.span) ::
              (readToken (f.size size) (items.map (Item.mapSpan f.span))).passed } = _
          rw [ih]
          rfl

theorem advance_relocate : (p.relocate f before).advance = p.advance.relocate f before := by
  unfold advance relocate
  simp only [readToken_relocate, List.map_append, List.append_assoc]

theorem record_relocate (e : SyntaxError) :
    (p.relocate f before).record (e.mapSpan f.span) = (p.record e).relocate f before := by
  simp [record, relocate]

theorem left_relocate : (p.relocate f before).left = p.left := by
  simp only [left, relocate, List.length_map]
  rfl

end Parser

theorem SyntaxError.OfToken.mapSpan_eq {e : Span → SyntaxError} (h : OfToken e)
    (f : Span → Span) (span : Span) : (e span).mapSpan f = e (f span) := by
  cases h <;> rfl

def Coupling.relocated (f : Relocation) (before : List SyntaxError) : Coupling where
  moved p p' := p' = p.relocate f before
  on p p' := p' = p.relocate f before
  after p p' := p' = p.relocate f before
  stopped p p' := p' = p.relocate f before
  on_of_moved := id
  after_of_on := id
  after_of_stopped := id
  sameView := by
    rintro p _ rfl
    exact ⟨rfl, rfl, rfl, p.left_relocate f before, rfl⟩
  advance := by
    rintro p _ rfl
    exact p.advance_relocate f before
  recordCurrent := by
    rintro p _ e he rfl
    rw [← p.record_relocate f before, he.mapSpan_eq]
    rfl
  recordNext := by
    rintro p _ e he rfl
    rw [← p.record_relocate f before, he.mapSpan_eq]
    rfl

namespace Parser

theorem statements_relocate (f : Relocation) (before : List SyntaxError) (turns : Nat)
    (p : Parser) :
    (p.relocate f before).statements turns =
      ((p.statements turns).1, (p.statements turns).2.relocate f before) := by
  obtain ⟨hsame, hafter⟩ := (Coupling.relocated f before).statements (p := p) rfl turns
  exact Prod.ext hsame hafter

/-! ### Further on in a text -/

def further (n : Nat) (before : List SyntaxError) (p : Parser) : Parser :=
  p.relocate (.further n) before

variable (n : Nat) (before : List SyntaxError) (p : Parser)

theorem further_zero : p.further 0 before = { p with errors := before ++ p.errors } := by
  have hahead : p.ahead.map (Item.shift 0) = p.ahead := List.map_id'' Item.shift_zero _
  have herrors : p.errors.map (SyntaxError.shift 0) = p.errors :=
    List.map_id'' SyntaxError.shift_zero _
  show { p with ahead := p.ahead.map (Item.shift 0),
                errors := before ++ p.errors.map (SyntaxError.shift 0) } = _
  rw [hahead, herrors]

theorem advance_further : (p.further n before).advance = p.advance.further n before :=
  advance_relocate _ _ _

theorem left_further : (p.further n before).left = p.left :=
  left_relocate _ _ _

theorem statements_further (turns : Nat) :
    (p.further n before).statements turns =
      ((p.statements turns).1, (p.statements turns).2.further n before) :=
  statements_relocate _ _ _ _

end Parser

end ScriptLang
