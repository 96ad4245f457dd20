import ScriptLang.Proofs.Token.Layout

/-!
String literals of a source text. A text that begins with a quote is a string up to the quote behind
a row of units, and if no row of units has a quote behind it, it is a string that is left open, up
to its end. So the raw text of a string is a row of units wherever the lexer finds one, and when the
parser drops the backslashes it reads the same units, each as its character.
-/

namespace ScriptLang

open Text

/-! ### The lexer at a quote -/

theorem lead_openString {cs : List Char} (h : closingQuote? cs = none) :
    lead '"' cs = (.openString, cs.length) := by
  simp [lead, punctuation?, comparison?, doubled?, h]

/-- Up to the quote behind a row of units the text is a string. -/
theorem Lexer.next_units (units : List StringUnit) (rest : List Char) (byte : Nat) :
    next ⟨'"' :: (unitsText units ++ '"' :: rest), byte⟩ =
      (some (.token ⟨.string, String.ofList (unitsText units),
        ⟨byte, byteLength (unitsText units) + 2⟩⟩),
        ⟨rest, byte + (byteLength (unitsText units) + 2)⟩) := by
  have htake : (unitsText units ++ '"' :: rest).take ((unitsText units).length + 1) =
      unitsText units ++ ['"'] := List.take_length_add_append ..
  have hdrop : (unitsText units ++ '"' :: rest).drop ((unitsText units).length + 1) = rest :=
    List.drop_length_add_append ..
  have hlength : byteLength ('"' :: (unitsText units ++ ['"'])) =
      byteLength (unitsText units) + 2 := by
    rw [byteLength_cons, byteLength_append, Nat.add_comm]
    rfl
  rw [next_cons, lead_quote (closingQuote?_units units rest), htake, hdrop, hlength]
  simp only [Piece.item?, TokenKind.literal, hlength, List.tail_cons, List.dropLast_concat]

/-- Without a quote behind a row of units the string is open up to the end. -/
theorem Lexer.next_openString {cs : List Char}
    (h : ∀ units rest, cs ≠ unitsText units ++ '"' :: rest) (byte : Nat) :
    next ⟨'"' :: cs, byte⟩ =
      (some (.error (.unterminatedString ⟨byte, byteLength ('"' :: cs)⟩)),
        ⟨[], byte + byteLength ('"' :: cs)⟩) := by
  have hnone : closingQuote? cs = none := by
    refine Option.eq_none_iff_forall_ne_some.mpr fun n hn => ?_
    obtain ⟨units, rest, hcs, -⟩ := closingQuote?_eq_some_iff.mp hn
    exact h units rest hcs
  rw [next_cons, lead_openString hnone, List.take_length, List.drop_length]
  rfl

theorem Lexer.next_eq_string_iff (r t : List Char) (byte : Nat) :
    (∃ span byte', next ⟨'"' :: (r ++ '"' :: t), byte⟩ =
      (some (.token ⟨.string, String.ofList r, span⟩), ⟨t, byte'⟩)) ↔
    ∃ units, r = unitsText units := by
  constructor
  · rintro ⟨span, byte', hnext⟩
    by_cases hclosed : ∃ units rest, r ++ '"' :: t = unitsText units ++ '"' :: rest
    · obtain ⟨units, rest, hcs⟩ := hclosed
      rw [hcs, next_units] at hnext
      obtain ⟨hitem, -⟩ := Prod.mk.inj hnext
      obtain ⟨-, hliteral, -⟩ := Token.mk.inj (Item.token.inj (Option.some.inj hitem))
      exact ⟨units, (String.ofList_injective hliteral).symm⟩
    · rw [next_openString fun units rest hcs => hclosed ⟨units, rest, hcs⟩] at hnext
      cases hnext
  · rintro ⟨units, rfl⟩
    exact ⟨_, _, next_units units t byte⟩

theorem Lexer.next_eq_openString_iff (cs : List Char) (byte : Nat) :
    next ⟨'"' :: cs, byte⟩ =
      (some (.error (.unterminatedString ⟨byte, byteLength ('"' :: cs)⟩)),
        ⟨[], byte + byteLength ('"' :: cs)⟩) ↔
    ¬ ∃ units rest, cs = unitsText units ++ '"' :: rest := by
  constructor
  · rintro hnext ⟨units, rest, rfl⟩
    rw [next_units] at hnext
    cases hnext
  · intro hopen
    exact next_openString (fun units rest hcs => hopen ⟨units, rest, hcs⟩) byte

/-! ### Strings of a source text -/

/-- What the lexer takes for the raw text of a string is a row of units. -/
theorem exists_units_of_mem_scan {source : String} {t : Token} (h : .token t ∈ scan source)
    (ht : t.kind = .string) : ∃ units, t.literal.toList = unitsText units := by
  obtain ⟨c, cs, hwhole⟩ := exists_whole_of_mem_itemsFrom h
  have htext : '"' :: (t.literal.toList ++ ['"']) = c :: cs := by
    rw [← hwhole.text_eq, Token.text, if_pos ht]
    rfl
  obtain ⟨rfl, rfl⟩ := List.cons.inj htext
  have hlead := hwhole.lead_append [] nofun
  rw [List.append_nil, ht] at hlead
  cases hclose : closingQuote? (t.literal.toList ++ ['"']) with
  | none =>
      rw [lead_openString hclose] at hlead
      cases (Prod.mk.inj hlead).1
  | some n =>
      obtain ⟨units, rest, hunits, rfl⟩ := closingQuote?_eq_some_iff.mp hclose
      -- The quote that closes the string is the last character of its text.
      rw [lead_quote hclose] at hlead
      have hlength : t.literal.toList.length = (unitsText units).length := by
        have hlast := (Prod.mk.inj hlead).2
        rw [List.length_append] at hlast
        exact (Nat.succ.inj hlast).symm
      exact ⟨units, (List.append_inj hunits hlength).1⟩

theorem Parse.primary_string (expr : Precedence → Parse Expr) {p : Parser}
    {units : List StringUnit} (hkind : p.current.kind = .string)
    (hunits : p.current.literal.toList = unitsText units) :
    Parse.primary expr p = .ok (.str (String.ofList (units.map StringUnit.char))) p := by
  rw [primary, current_bind_run, hkind]
  dsimp only
  rw [hunits, unescape_units, pure_run]

/-- The lexer and the parser divide the text of a string in the same way.

A scan that takes one character at a time, and keeps in mind only whether a backslash takes it
along, finds the quote behind a row of units. So a text with a quote, `r`, a quote and `t` begins
with a string of the raw text `r`, with `t` left over, if and only if `r` is a row of units; and a
text that begins with a quote is a string that is left open, up to the end, if and only if behind
the quote no row of units has a quote behind it. To drop the backslashes of a row of units gives the
characters of the units, and no backslash is left over that takes nothing along. The raw text of
each string of a source text is such a row, and the parser reads it so. -/
theorem string_units_agree :
    (∀ (cs : List Char) (b : Nat), quoteOffset? false cs = some b ↔
      ∃ units rest, cs = unitsText units ++ '"' :: rest ∧ b = byteLength (unitsText units)) ∧
    (∀ r t : String,
      (∃ span byte, (Lexer.start ("\"" ++ r ++ "\"" ++ t)).next =
        (some (.token ⟨.string, r, span⟩), ⟨t.toList, byte⟩)) ↔
      ∃ units, r.toList = unitsText units) ∧
    (∀ units, unescape (unitsText units) = units.map StringUnit.char ∧
      ∀ front, unitsText units ≠ unitsText front ++ ['\\']) ∧
    (∀ cs : String,
      (Lexer.start ("\"" ++ cs)).next =
        (some (.error (.unterminatedString ⟨0, ("\"" ++ cs).utf8ByteSize⟩)),
          ⟨[], ("\"" ++ cs).utf8ByteSize⟩) ↔
      ¬ ∃ units rest, cs.toList = unitsText units ++ '"' :: rest) ∧
    (∀ (source : String) (t : Token), .token t ∈ scan source → t.kind = .string →
      ∃ units, t.literal.toList = unitsText units ∧
        ∀ (expr : Precedence → Parse Expr) (p : Parser), p.current = t →
          Parse.primary expr p = .ok (.str (String.ofList (units.map StringUnit.char))) p) := by
  refine ⟨fun cs b => quoteOffset?_eq_some_iff, fun r t => ?_,
    fun units => ⟨unescape_units units, unitsText_ne_append_backslash units⟩, fun cs => ?_,
    fun source t hmem ht => ?_⟩
  · have hstart : Lexer.start ("\"" ++ r ++ "\"" ++ t) =
        ⟨'"' :: (r.toList ++ '"' :: t.toList), 0⟩ := by
      simp [Lexer.start]
    rw [hstart, ← Lexer.next_eq_string_iff r.toList t.toList 0, String.ofList_toList]
  · have hstart : Lexer.start ("\"" ++ cs) = ⟨'"' :: cs.toList, 0⟩ := by
      simp [Lexer.start]
    have hsize : ("\"" ++ cs).utf8ByteSize = byteLength ('"' :: cs.toList) := by
      rw [← byteLength_toList, String.toList_append]
      rfl
    rw [hstart, hsize, ← Lexer.next_eq_openString_iff cs.toList 0, Nat.zero_add]
  · obtain ⟨units, hunits⟩ := exists_units_of_mem_scan hmem ht
    refine ⟨units, hunits, fun expr p hp => ?_⟩
    subst hp
    exact Parse.primary_string expr ht hunits

/-- The string `"\\\""`, a backslash and a quote, with a second string behind it. -/
theorem string_units_agree_backslashes :
    .token ⟨.string, "\\\\\\\"", ⟨0, 6⟩⟩ ∈ scan "\"\\\\\\\"\"\"\"" ∧
    ∃ units, "\\\\\\\"".toList = unitsText units ∧ units.map StringUnit.char = ['\\', '"'] := by
  have hmem : .token ⟨.string, "\\\\\\\"", ⟨0, 6⟩⟩ ∈ scan "\"\\\\\\\"\"\"\"" := by
    have hscan : (scan "\"\\\\\\\"\"\"\"").head? =
        some (.token ⟨.string, "\\\\\\\"", ⟨0, 6⟩⟩) := by
      cbv
    exact List.mem_of_head? hscan
  obtain ⟨units, hunits, -⟩ := string_units_agree.2.2.2.2 _ _ hmem rfl
  refine ⟨hmem, units, hunits, ?_⟩
  rw [← unescape_units, ← hunits]
  decide

end ScriptLang
