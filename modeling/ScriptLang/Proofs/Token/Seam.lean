import ScriptLang.Proofs.Text.StringUnit
import ScriptLang.SyntaxError
import ScriptLang.Token.Scan

/-!
Texts that are put together at a line break. No token and no comment goes on beyond the
end of a line, only a string does; so up to a line break a text is read in the same way
whatever comes behind it, unless a string is open there (`pieces_seam`).

What comes behind a stretch of text is read there as it would be read at the beginning,
only further on (`itemsFrom_add`).
-/

namespace ScriptLang

/-! ### Changed places -/

def Token.mapSpan (f : Span → Span) (t : Token) : Token := ⟨t.kind, t.literal, f t.span⟩

def LexicalError.mapSpan (f : Span → Span) : LexicalError → LexicalError
  | .unexpectedCharacter c span => .unexpectedCharacter c (f span)
  | .unterminatedString span => .unterminatedString (f span)

def Item.mapSpan (f : Span → Span) : Item → Item
  | .token t => .token (t.mapSpan f)
  | .error e => .error (e.mapSpan f)

def SyntaxError.mapSpan (f : Span → Span) : SyntaxError → SyntaxError
  | .lexical e => .lexical (e.mapSpan f)
  | .unexpectedToken expected found span => .unexpectedToken expected found (f span)
  | .noExpression found span => .noExpression found (f span)
  | .integerTooLarge literal span => .integerTooLarge literal (f span)
  | .tooDeeplyNested span => .tooDeeplyNested (f span)

/-! ### Places further on in a text -/

def Span.shift (n : Nat) (s : Span) : Span := ⟨s.start + n, s.length⟩

def Item.shift (n : Nat) : Item → Item := Item.mapSpan (Span.shift n)

def SyntaxError.shift (n : Nat) : SyntaxError → SyntaxError := SyntaxError.mapSpan (Span.shift n)

theorem Item.shift_zero (item : Item) : item.shift 0 = item := by
  cases item with
  | token t => rfl
  | error e => cases e <;> rfl

theorem SyntaxError.shift_zero (e : SyntaxError) : e.shift 0 = e := by
  cases e with
  | lexical e => cases e <;> rfl
  | _ => rfl

theorem Piece.item?_add (p : Piece) (start n : Nat) :
    p.item? (start + n) = (p.item? start).map (Item.shift n) := by
  unfold Piece.item?
  cases p.sort <;> rfl

theorem itemsFrom_add (start n : Nat) (ps : List Piece) :
    itemsFrom (start + n) ps = (itemsFrom start ps).map (Item.shift n) := by
  induction ps generalizing start with
  | nil => rfl
  | cons p ps ih =>
      have hstart : start + n + byteLength p.text = start + byteLength p.text + n := by omega
      rw [itemsFrom, itemsFrom, p.item?_add start n, hstart, ih]
      cases p.item? start <;> rfl

theorem itemsFrom_append (start : Nat) (ps qs : List Piece) :
    itemsFrom start (ps ++ qs) =
      itemsFrom start ps ++ itemsFrom (start + byteLength (ps.flatMap Piece.text)) qs := by
  induction ps generalizing start with
  | nil => rfl
  | cons p ps ih =>
      rw [List.cons_append, itemsFrom, itemsFrom, List.flatMap_cons, byteLength_append,
        ← Nat.add_assoc, ih]
      cases p.item? start <;> rfl

/-! ### Reading up to a line break -/

theorem head?_seam {d : Char} (hd : d ≠ '\n') (cs rest : List Char) :
    (cs ++ '\n' :: rest).head? = some d ↔ cs.head? = some d := by
  cases cs <;> simp [hd.symm]

theorem takeWhile_seam {p : Char → Bool} (hp : p '\n' = false) (cs rest : List Char) :
    (cs ++ '\n' :: rest).takeWhile p = cs.takeWhile p := by
  induction cs with
  | nil => simp [hp]
  | cons c cs ih => simp only [List.cons_append, List.takeWhile_cons, ih]

theorem closingQuote?_append {cs : List Char} {n : Nat} (h : Text.closingQuote? cs = some n)
    (rest : List Char) : Text.closingQuote? (cs ++ rest) = some n ∧ n < cs.length := by
  obtain ⟨units, behind, rfl, rfl⟩ := Text.closingQuote?_eq_some_iff.mp h
  refine ⟨?_, by simp⟩
  rw [List.append_assoc, List.cons_append]
  exact Text.closingQuote?_units units (behind ++ rest)

theorem length_le_of_lead (c : Char) (cs : List Char) : (lead c cs).2 ≤ cs.length := by
  have hhead {d : Char} (hd : cs.head? = some d) : 1 ≤ cs.length := by
    cases cs with
    | nil => cases hd
    | cons c cs => exact Nat.succ_pos _
  have htake (p : Char → Bool) : (cs.takeWhile p).length ≤ cs.length :=
    (List.takeWhile_sublist p).length_le
  unfold lead
  repeat' split
  all_goals first
    | exact Nat.zero_le _
    | exact htake _
    | exact Nat.le_refl _
    | exact hhead ‹_›
    | exact (closingQuote?_append ‹_› []).2

/-- A piece that begins before a line break is the same whatever comes behind it, unless it
is a string that is left open. -/
theorem lead_seam {c : Char} {cs : List Char} (h : (lead c cs).1 ≠ .openString)
    (rest : List Char) : lead c (cs ++ '\n' :: rest) = lead c cs := by
  by_cases hc : c = '\n'
  · subst hc
    rfl
  · have hquote : c = '"' → ∃ n, Text.closingQuote? cs = some n := by
      rintro rfl
      cases hclose : Text.closingQuote? cs with
      | none => exact absurd (by simp [lead, punctuation?, comparison?, doubled?, hclose]) h
      | some n => exact ⟨n, rfl⟩
    unfold lead
    simp only [head?_seam hc, head?_seam (d := '=') (by decide),
      head?_seam (d := '/') (by decide), takeWhile_seam (p := isWordPart) rfl,
      takeWhile_seam (p := Char.isDigit) rfl, takeWhile_seam (p := (· != '\n')) rfl]
    by_cases hc : c = '"'
    · obtain ⟨n, hn⟩ := hquote hc
      simp only [hn, (closingQuote?_append hn _).1]
    · simp only [hc, if_false]

theorem pieces_seam {cs : List Char} (h : ∀ p ∈ pieces cs, p.sort ≠ .openString)
    (rest : List Char) :
    pieces (cs ++ '\n' :: rest) = pieces cs ++ pieces ('\n' :: rest) := by
  induction cs using pieces.induct with
  | case1 => rw [pieces_nil]; rfl
  | case2 c cs sort more hlead ih =>
      have hmore : (lead c cs).2 = more := by rw [hlead]
      rw [pieces_cons, hmore] at h
      have hle : more ≤ cs.length := hmore ▸ length_le_of_lead c cs
      rw [List.cons_append, pieces_cons, pieces_cons c cs,
        lead_seam (h _ List.mem_cons_self) rest, hmore, List.take_append_of_le_length hle,
        List.drop_append_of_le_length hle,
        ih fun p hp => h p (List.mem_cons_of_mem _ hp), List.cons_append]

/-- A string that is left open is an error among the items. -/
theorem unterminatedString_mem_itemsFrom {p : Piece} {ps : List Piece} (h : p ∈ ps)
    (hsort : p.sort = .openString) (start : Nat) :
    ∃ span, .error (.unterminatedString span) ∈ itemsFrom start ps := by
  induction ps generalizing start with
  | nil => cases h
  | cons q ps ih =>
      rw [itemsFrom]
      rcases List.mem_cons.mp h with rfl | hmem
      · simp only [Piece.item?, hsort]
        exact ⟨_, List.mem_cons_self⟩
      · obtain ⟨span, hspan⟩ := ih hmem (start + byteLength q.text)
        refine ⟨span, ?_⟩
        cases q.item? start with
        | none => exact hspan
        | some item => exact List.mem_cons_of_mem _ hspan

/-! ### A semicolon on a line of its own -/

/-- The semicolon that begins the line after a text. -/
def semicolonAfter (source : String) : Token :=
  ⟨.semicolon, ";", ⟨byteLength source.toList + 1, 1⟩⟩

/-- What comes behind a text and a semicolon on a new line is read as by itself, unless the
text leaves a string open. -/
theorem scan_seam {source : String}
    (h : ∀ span, .error (.unterminatedString span) ∉ scan source) (more : String) :
    scan (source ++ "\n;" ++ more) = scan source ++ .token (semicolonAfter source) ::
      (scan more).map (Item.shift (byteLength (source ++ "\n;").toList)) := by
  have hsorts : ∀ p ∈ pieces source.toList, p.sort ≠ .openString := by
    intro p hp hsort
    obtain ⟨span, hspan⟩ := unterminatedString_mem_itemsFrom hp hsort 0
    exact h span hspan
  have hchars : (source ++ "\n;" ++ more).toList =
      source.toList ++ '\n' :: ';' :: more.toList := by
    simp [String.toList_append]
  have hlength : byteLength (source ++ "\n;").toList = byteLength source.toList + 1 + 1 := by
    simp only [String.toList_append, byteLength_append]
    rfl
  unfold scan
  rw [hchars, pieces_seam hsorts, itemsFrom_append, flatMap_text_pieces, Nat.zero_add,
    hlength, ← itemsFrom_add, Nat.zero_add]
  -- The line break is layout, and the semicolon is a token, whatever comes behind it.
  have hbreak : lead '\n' (';' :: more.toList) = (.layout, 0) := rfl
  have hsemicolon : lead ';' more.toList = (.token .semicolon, 0) := rfl
  rw [pieces_cons, hbreak, List.drop_zero, pieces_cons, hsemicolon, List.drop_zero]
  rfl

theorem scan_seam_nil {source : String}
    (h : ∀ span, .error (.unterminatedString span) ∉ scan source) :
    scan (source ++ "\n;") = scan source ++ [.token (semicolonAfter source)] := by
  have hempty : scan "" = [] := by
    unfold scan
    rw [String.toList_empty, pieces_nil]
    rfl
  have hscan := scan_seam h ""
  rwa [String.append_empty, hempty] at hscan

end ScriptLang
