import ScriptLang.Token.Scan

/-!
The tokens that a source text can hold. None of them is the end of the input, and an
identifier is a name: only a word is read as one, and only a word that is no keyword.
-/

namespace ScriptLang

/-- The text of a name: a word that is no keyword. -/
def IsName (x : String) : Prop :=
  ∃ c cs, x.toList = c :: cs ∧ isWordStart c = true ∧ (∀ d ∈ cs, isWordPart d = true) ∧
    wordKind (c :: cs) = .identifier

/-- A token that a source text can hold: it is not the end of the input, and an
identifier is a name. -/
structure Token.Scanned (t : Token) : Prop where
  kind_ne : t.kind ≠ .endOfInput
  isName : t.kind = .identifier → IsName t.literal

theorem wordKind_ne_endOfInput (word : List Char) : wordKind word ≠ .endOfInput := by
  unfold wordKind
  split <;> decide

theorem kind_of_punctuation? {c : Char} {kind : TokenKind} (h : punctuation? c = some kind) :
    kind ≠ .endOfInput ∧ kind ≠ .identifier := by
  unfold punctuation? at h
  split at h <;> cases h <;> decide

theorem kind_of_comparison? {c : Char} {alone withEqual : TokenKind}
    (h : comparison? c = some (alone, withEqual)) :
    (alone ≠ .endOfInput ∧ alone ≠ .identifier) ∧
      (withEqual ≠ .endOfInput ∧ withEqual ≠ .identifier) := by
  unfold comparison? at h
  split at h <;> cases h <;> decide

theorem kind_of_doubled? {c : Char} {kind : TokenKind} (h : doubled? c = some kind) :
    kind ≠ .endOfInput ∧ kind ≠ .identifier := by
  unfold doubled? at h
  split at h <;> cases h <;> decide

theorem lead_ne_endOfInput (c : Char) (cs : List Char) :
    (lead c cs).1 ≠ .token .endOfInput := by
  have hp := @kind_of_punctuation? c
  have hc := @kind_of_comparison? c
  have hd := @kind_of_doubled? c
  unfold lead
  grind [wordKind_ne_endOfInput]

theorem isWordPart_of_isWordStart {c : Char} (h : isWordStart c = true) :
    isWordPart c = true := by
  simp only [isWordStart, Bool.or_eq_true] at h
  rcases h with h | h <;> simp [isWordPart, Char.isAlphanum, h]

theorem isWordPart_of_isDigit {c : Char} (h : c.isDigit = true) : isWordPart c = true := by
  simp [isWordPart, Char.isAlphanum, h]

/-- Letters, digits and underscores have no other use than in words and numbers. -/
theorem lead_of_isWordPart {c : Char} (h : isWordPart c = true) (cs : List Char) :
    lead c cs =
      if isWordStart c then
        (.token (wordKind (c :: cs.takeWhile isWordPart)), (cs.takeWhile isWordPart).length)
      else if c.isDigit then (.token .int, (cs.takeWhile Char.isDigit).length)
      else if Text.isBlank c then (.layout, 0)
      else (.stray c, 0) := by
  have hp : punctuation? c = none := by
    unfold punctuation?
    split <;> first | rfl | (revert h; decide)
  have hc : comparison? c = none := by
    unfold comparison?
    split <;> first | rfl | (revert h; decide)
  have hd : doubled? c = none := by
    unfold doubled?
    split <;> first | rfl | (revert h; decide)
  have hslash : c ≠ '/' := by
    rintro rfl
    revert h
    decide
  have hquote : c ≠ '"' := by
    rintro rfl
    revert h
    decide
  simp only [lead, hp, hc, hd, hslash, hquote, if_false]

theorem lead_word {c : Char} (cs : List Char) (h : isWordStart c = true) :
    lead c cs =
      (.token (wordKind (c :: cs.takeWhile isWordPart)), (cs.takeWhile isWordPart).length) := by
  rw [lead_of_isWordPart (isWordPart_of_isWordStart h), if_pos h]

theorem isWordStart_of_lead {c : Char} {cs : List Char}
    (h : (lead c cs).1 = .token .identifier) : isWordStart c = true := by
  have hp := @kind_of_punctuation? c
  have hc := @kind_of_comparison? c
  have hd := @kind_of_doubled? c
  -- Without the branch for words, no branch is left that makes identifiers.
  refine Decidable.byContradiction fun hstart => ?_
  unfold lead at h
  rw [if_neg hstart] at h
  grind

theorem lead_eq_identifier {c : Char} {cs : List Char}
    (h : (lead c cs).1 = .token .identifier) :
    isWordStart c = true ∧ (lead c cs).2 = (cs.takeWhile isWordPart).length ∧
      wordKind (c :: cs.takeWhile isWordPart) = .identifier := by
  have hstart := isWordStart_of_lead h
  rw [lead_word cs hstart] at h ⊢
  exact ⟨hstart, rfl, PieceSort.token.inj h⟩

theorem isName_of_lead {c : Char} {cs : List Char}
    (h : (lead c cs).1 = .token .identifier) :
    IsName (String.ofList (c :: cs.take (lead c cs).2)) := by
  obtain ⟨hstart, hmore, hword⟩ := lead_eq_identifier h
  have htake : cs.take (lead c cs).2 = cs.takeWhile isWordPart := by
    rw [hmore]
    exact (List.prefix_iff_eq_take.mp (List.takeWhile_prefix _)).symm
  refine ⟨c, cs.takeWhile isWordPart, by rw [htake, String.toList_ofList], hstart, ?_, hword⟩
  intro d hd
  exact List.all_eq_true.mp List.all_takeWhile d hd

theorem scanned_of_mem_itemsFrom {start : Nat} {source : List Char} {t : Token}
    (h : .token t ∈ itemsFrom start (pieces source)) : t.Scanned := by
  induction source using pieces.induct generalizing start with
  | case1 => simp [itemsFrom] at h
  | case2 c cs sort more hlead ih =>
      have hsort : (lead c cs).1 = sort := by rw [hlead]
      have hmore : (lead c cs).2 = more := by rw [hlead]
      rw [pieces_cons, hsort, hmore, itemsFrom] at h
      cases sort with
      | layout => exact ih h
      | token kind =>
          rcases List.mem_cons.mp h with ht | ht
          · obtain rfl := Item.token.inj ht
            refine ⟨fun hk => lead_ne_endOfInput c cs ?_, fun hk => ?_⟩
            · rw [hsort]
              exact congrArg PieceSort.token hk
            · obtain rfl : kind = .identifier := hk
              have := isName_of_lead hsort
              rwa [hmore] at this
          · exact ih ht
      | stray d =>
          rcases List.mem_cons.mp h with ht | ht
          · cases ht
          · exact ih ht
      | openString =>
          rcases List.mem_cons.mp h with ht | ht
          · cases ht
          · exact ih ht

theorem scanned_of_mem_scan {source : String} {t : Token} (h : .token t ∈ scan source) :
    t.Scanned :=
  scanned_of_mem_itemsFrom h

end ScriptLang
