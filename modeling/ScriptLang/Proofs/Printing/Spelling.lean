import ScriptLang.Proofs.Parser.Outlook
import ScriptLang.Text.Basic

/-!
Text for terminals. `Spells cs ts` says that the characters `cs` are read as the
terminals `ts`, without a lexical error. A text is read from its beginning, so what
it spells is built from its end: every lemma puts one token, or some layout, in
front of a text that spells something already.

A token ends where its sort allows no more characters. For most tokens this is
settled by their own characters; words and numbers need something behind them that
does not go on with a word (`Breaks`), and an exclamation mark needs anything but
an equals sign.
-/

namespace ScriptLang

/-- The characters are read as these terminals, and no error is among them. -/
def Spells (cs : List Char) (ts : List Terminal) : Prop :=
  ∀ start, (itemsFrom start (pieces cs)).map Item.terminal? = ts.map some

/-- The characters do not go on with a word or a number. -/
def Breaks (cs : List Char) : Prop :=
  ∀ c ∈ cs.head?, isWordPart c = false

variable {c : Char} {cs rest : List Char} {n : Nat} {kind : TokenKind} {ts us : List Terminal}

theorem breaks_cons (cs : List Char) (h : isWordPart c = false) :
    Breaks (c :: cs) := by
  intro d hd
  obtain rfl : c = d := Option.some.inj hd
  exact h

theorem spells_nil : Spells [] [] := by
  intro start
  rw [pieces_nil]
  rfl

theorem spells_layout (hlead : lead c cs = (.layout, n)) (h : Spells (cs.drop n) ts) :
    Spells (c :: cs) ts := by
  intro start
  rw [pieces_cons, hlead]
  exact h _

theorem spells_token {t : Terminal} (hlead : lead c cs = (.token kind, n))
    (ht : ∀ span, Token.terminal ⟨kind, kind.literal (c :: cs.take n), span⟩ = t)
    (h : Spells (cs.drop n) ts) : Spells (c :: cs) (t :: ts) := by
  intro start
  rw [pieces_cons, hlead]
  show some (Token.terminal _) :: (itemsFrom _ _).map Item.terminal? = _
  rw [ht, h, List.map_cons]

theorem terminals_eq_of_spells {source : String} (h : Spells source.toList ts) :
    terminals source = ts := by
  have hscan : (scan source).map Item.terminal? = ts.map some := h 0
  have hid : (scan source).filterMap Item.terminal? =
      ((scan source).map Item.terminal?).filterMap id := by
    rw [List.filterMap_map]
    rfl
  rw [terminals, hid, hscan, List.filterMap_map]
  exact List.filterMap_some

theorem error_not_mem_scan_of_spells {source : String} (h : Spells source.toList ts)
    (e : LexicalError) : .error e ∉ scan source := by
  intro he
  have hscan : (scan source).map Item.terminal? = ts.map some := h 0
  have hnone : none ∈ ts.map some := by
    rw [← hscan]
    exact List.mem_map.mpr ⟨.error e, he, rfl⟩
  simp at hnone

/-! ### Symbols and layout -/

theorem spells_symbol (hlead : lead c cs = (.token kind, 0)) (hkind : kind.isSymbol = true)
    (h : Spells cs ts) : Spells (c :: cs) (.symbol kind :: ts) :=
  spells_token hlead (fun _ => Token.terminal_of_isSymbol hkind) h

theorem spells_symbol₂ {d : Char} (hlead : lead c (d :: cs) = (.token kind, 1))
    (hkind : kind.isSymbol = true) (h : Spells cs ts) :
    Spells (c :: d :: cs) (.symbol kind :: ts) :=
  spells_token hlead (fun _ => Token.terminal_of_isSymbol hkind) h

theorem spells_space (h : Spells cs ts) : Spells (' ' :: cs) ts :=
  spells_layout (n := 0) rfl h

theorem spells_newline (h : Spells cs ts) : Spells ('\n' :: cs) ts :=
  spells_layout (n := 0) rfl h

theorem kind_of_spells_equal {t : Terminal} (h : Spells ('=' :: cs) (t :: ts)) :
    t.kind = .equal ∨ t.kind = .equalEqual := by
  have h := h 0
  rw [pieces_cons] at h
  by_cases hnext : cs.head? = some '='
  · rw [show lead '=' cs = (.token .equalEqual, 1) from if_pos hnext] at h
    obtain rfl := Option.some.inj (List.cons.inj h).1
    exact .inr rfl
  · rw [show lead '=' cs = (.token .equal, 0) from if_neg hnext] at h
    obtain rfl := Option.some.inj (List.cons.inj h).1
    exact .inl rfl

/-! ### Words, numbers and strings -/

theorem takeWhile_append_of_breaks {p : Char → Bool} {word : List Char}
    (hword : ∀ d ∈ word, p d = true) (hrest : ∀ d ∈ rest.head?, p d = false) :
    (word ++ rest).takeWhile p = word := by
  rw [List.takeWhile_append_of_pos hword]
  cases rest with
  | nil => simp
  | cons d ds => simp [hrest d rfl]

theorem lead_word_append (hstart : isWordStart c = true) (hword : ∀ d ∈ cs, isWordPart d = true)
    (hrest : Breaks rest) :
    lead c (cs ++ rest) = (.token (wordKind (c :: cs)), cs.length) := by
  rw [lead_word _ hstart, takeWhile_append_of_breaks hword hrest]

theorem spells_keyword (hstart : isWordStart c = true)
    (hlead : lead c cs = (.token kind, cs.length)) (hkind : kind.isSymbol = true)
    (hrest : Breaks rest) (h : Spells rest ts) :
    Spells (c :: (cs ++ rest)) (.symbol kind :: ts) := by
  rw [lead_word _ hstart] at hlead
  -- All of the characters behind the first are part of the word.
  have hall : cs.takeWhile isWordPart = cs :=
    (List.takeWhile_sublist _).eq_of_length (Prod.mk.inj hlead).2
  have hword : cs.all isWordPart = true := by
    rw [← hall]
    exact List.all_takeWhile
  rw [hall] at hlead
  have hrest := lead_word_append hstart (List.all_eq_true.mp hword) hrest
  rw [hlead] at hrest
  refine spells_token hrest (fun _ => Token.terminal_of_isSymbol hkind) ?_
  rw [List.drop_left]
  exact h

theorem spells_keyword_space (hstart : isWordStart c = true)
    (hlead : lead c cs = (.token kind, cs.length)) (hkind : kind.isSymbol = true)
    (h : Spells rest ts) : Spells (c :: (cs ++ ' ' :: rest)) (.symbol kind :: ts) :=
  spells_keyword hstart hlead hkind (breaks_cons _ rfl) (spells_space h)

theorem spells_name {x : String} (hx : IsName x) (hrest : Breaks rest) (h : Spells rest ts) :
    Spells (x.toList ++ rest) (.name x :: ts) := by
  obtain ⟨c, cs, hchars, hstart, hword, hkind⟩ := hx
  have hlead := lead_word_append hstart hword hrest
  rw [hkind] at hlead
  rw [hchars, List.cons_append]
  refine spells_token hlead (fun span => ?_) ?_
  · rw [List.take_left, ← hchars]
    exact congrArg Terminal.name String.ofList_toList
  · rw [List.drop_left]
    exact h

theorem isAlpha_of_isDigit (h : c.isDigit = true) : c.isAlpha = false := by
  have hle : c.toNat ≤ 57 := (Char.isDigit_iff_toNat.mp h).2
  -- The letters come behind the digits.
  have hupper : ¬ c.isUpper = true := by
    intro hc
    have hge : 65 ≤ c.toNat :=
      UInt32.le_iff_toNat_le.mp (of_decide_eq_true hc).1
    omega
  have hlower : ¬ c.isLower = true := by
    intro hc
    have hge : 97 ≤ c.toNat :=
      UInt32.le_iff_toNat_le.mp (of_decide_eq_true (Bool.and_eq_true_iff.mp hc).1)
    omega
  exact Bool.or_eq_false_iff.mpr ⟨Bool.eq_false_iff.mpr hupper, Bool.eq_false_iff.mpr hlower⟩

theorem isWordStart_of_isDigit (h : c.isDigit = true) : isWordStart c = false := by
  have hne : c ≠ '_' := by
    rintro rfl
    cases h
  simp [isWordStart, isAlpha_of_isDigit h, hne]

theorem lead_digit (hdigit : c.isDigit = true) (cs : List Char) :
    lead c cs = (.token .int, (cs.takeWhile Char.isDigit).length) := by
  have hword : ¬ isWordStart c = true := by simp [isWordStart_of_isDigit hdigit]
  rw [lead_of_isWordPart (isWordPart_of_isDigit hdigit), if_neg hword, if_pos hdigit]

theorem spells_int {digits : String} (hne : digits.toList ≠ [])
    (hdigits : ∀ d ∈ digits.toList, d.isDigit = true) (hrest : Breaks rest)
    (h : Spells rest ts) : Spells (digits.toList ++ rest) (.int digits :: ts) := by
  have hbreak : ∀ d ∈ rest.head?, d.isDigit = false := by
    intro d hd
    refine Bool.eq_false_iff.mpr fun hdigit => ?_
    have hpart := isWordPart_of_isDigit hdigit
    rw [hrest d hd] at hpart
    cases hpart
  obtain ⟨c, cs, hchars⟩ := List.exists_cons_of_ne_nil hne
  rw [hchars] at hdigits
  have hlead := lead_digit (hdigits c List.mem_cons_self) (cs ++ rest)
  rw [takeWhile_append_of_breaks (fun d hd => hdigits d (List.mem_cons_of_mem _ hd)) hbreak]
    at hlead
  rw [hchars, List.cons_append]
  refine spells_token hlead (fun span => ?_) ?_
  · rw [List.take_left, ← hchars]
    exact congrArg Terminal.int String.ofList_toList
  · rw [List.drop_left]
    exact h

theorem lead_quote (hclose : Text.closingQuote? cs = some n) :
    lead '"' cs = (.token .string, n + 1) := by
  simp [lead, punctuation?, comparison?, doubled?, hclose]

theorem spells_str (content : List Char) (h : Spells rest ts) :
    Spells ('"' :: (Text.escape content ++ '"' :: rest))
      (.str (String.ofList (Text.escape content)) :: ts) := by
  have hlead := lead_quote (Text.closingQuote?_escape content rest)
  refine spells_token hlead (fun span => ?_) ?_
  · rw [List.take_length_add_append]
    simp [Token.terminal, TokenKind.literal]
  · rw [List.drop_length_add_append]
    exact h

end ScriptLang
