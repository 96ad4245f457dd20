import ScriptLang.Proofs.Printing.Spelling
import ScriptLang.Proofs.Token.Tiling

/-!
Layout between tokens. A token ends at the latest where white space begins, and it is the same
token there whatever stood behind it before (`lead_take_append`); white space and comments up to
the end of their lines make no token (`itemsFrom_layout`). So a row of tokens can be laid out
anew, with any layout between them that begins with white space, and is read as the same row
(`scan_laidOut`).
-/

namespace ScriptLang

/-- White space, and comments that end with their lines. -/
inductive Layout : List Char → Prop
  | nil : Layout []
  | blank {c : Char} {cs : List Char} : Text.isBlank c = true → Layout cs → Layout (c :: cs)
  | comment {body cs : List Char} :
      '\n' ∉ body → Layout cs → Layout ('/' :: '/' :: body ++ '\n' :: cs)

def StartsBlank (cs : List Char) : Prop := ∀ c ∈ cs.head?, Text.isBlank c = true

variable {c : Char} {cs after : List Char} {kind : TokenKind} {n : Nat}

/-! ### White space -/

theorem isBlank_of_isWordPart (h : isWordPart c = true) : Text.isBlank c = false := by
  simp only [isWordPart, Char.isAlphanum, Char.isAlpha, Char.isUpper, Char.isLower, Char.isDigit,
    Bool.or_eq_true, Bool.and_eq_true, decide_eq_true_eq, beq_iff_eq, UInt32.le_iff_toNat_le,
    ge_iff_le] at h
  change (((65 ≤ c.toNat ∧ c.toNat ≤ 90) ∨ (97 ≤ c.toNat ∧ c.toNat ≤ 122)) ∨
    (48 ≤ c.toNat ∧ c.toNat ≤ 57)) ∨ c = '_' at h
  rcases h with h | rfl
  · refine Bool.eq_false_iff.mpr fun hblank => ?_
    simp only [Text.isBlank, Text.blankRanges, List.any_cons, List.any_nil, Bool.or_eq_true,
      Bool.and_eq_true, decide_eq_true_eq, Bool.false_eq_true, or_false] at hblank
    omega
  · decide

theorem lead_blank (h : Text.isBlank c = true) (cs : List Char) : lead c cs = (.layout, 0) := by
  have hpart : isWordPart c = false :=
    Bool.eq_false_iff.mpr fun hpart => by simp [isBlank_of_isWordPart hpart] at h
  have hstart : isWordStart c = false :=
    Bool.eq_false_iff.mpr fun hstart => by simp [isWordPart_of_isWordStart hstart] at hpart
  have hdigit : c.isDigit = false :=
    Bool.eq_false_iff.mpr fun hdigit => by simp [isWordPart_of_isDigit hdigit] at hpart
  have hp : punctuation? c = none := by
    unfold punctuation?
    split <;> first | rfl | (revert h; decide)
  have hc : comparison? c = none := by
    unfold comparison?
    split <;> first | rfl | (revert h; decide)
  have hd : doubled? c = none := by
    unfold doubled?
    split <;> first | rfl | (revert h; decide)
  have hslash : c ≠ '/' := by
    rintro rfl
    revert h
    decide
  have hquote : c ≠ '"' := by
    rintro rfl
    revert h
    decide
  simp [lead, hp, hc, hd, hslash, hquote, hstart, hdigit, h]

theorem lead_comment {body : List Char} (h : '\n' ∉ body) (rest : List Char) :
    lead '/' ('/' :: body ++ '\n' :: rest) = (.layout, body.length + 1) := by
  have hbody : (body ++ '\n' :: rest).takeWhile (· != '\n') = body :=
    takeWhile_append_of_breaks (fun d hd => by simpa using fun e : d = '\n' => h (e ▸ hd))
      (by simp)
  show (PieceSort.layout, ('/' :: (body ++ '\n' :: rest).takeWhile (· != '\n')).length) = _
  rw [hbody]
  rfl

theorem itemsFrom_layout {gap : List Char} (h : Layout gap) (start : Nat) (rest : List Char) :
    itemsFrom start (pieces (gap ++ rest)) =
      itemsFrom (start + byteLength gap) (pieces rest) := by
  induction h generalizing start with
  | nil => rfl
  | blank hblank _ ih =>
      rw [List.cons_append, pieces_cons, lead_blank hblank]
      show itemsFrom (start + byteLength [_]) (pieces (_ ++ rest)) = _
      rw [ih, Nat.add_assoc]
      rfl
  | @comment body gap hbody _ ih =>
      have hlead := lead_comment hbody (gap ++ rest)
      have htake : ('/' :: body ++ '\n' :: (gap ++ rest)).take (body.length + 1) = '/' :: body :=
        List.take_left' rfl
      have hdrop : ('/' :: body ++ '\n' :: (gap ++ rest)).drop (body.length + 1) =
          '\n' :: (gap ++ rest) := List.drop_left' rfl
      have htext : '/' :: '/' :: body ++ '\n' :: gap ++ rest =
          '/' :: ('/' :: body ++ '\n' :: (gap ++ rest)) := by simp
      rw [htext, pieces_cons, hlead]
      show itemsFrom (start + byteLength ('/' :: _)) (pieces (List.drop (body.length + 1) _)) = _
      -- The line break behind the comment is a blank.
      rw [htake, hdrop, pieces_cons, lead_blank rfl]
      show itemsFrom (_ + byteLength ['\n']) (pieces (gap ++ rest)) = _
      rw [ih]
      simp only [byteLength_cons, byteLength_append, byteLength_nil, Nat.add_assoc, Nat.zero_add,
        List.cons_append]

/-! ### Tokens before white space -/

theorem closingQuote?_take (h : Text.closingQuote? cs = some n) :
    Text.closingQuote? (cs.take (n + 1)) = some n := by
  obtain ⟨units, rest, rfl, rfl⟩ := Text.closingQuote?_eq_some_iff.mp h
  rw [List.take_length_add_append]
  exact Text.closingQuote?_units units []

theorem takeWhile_append_of_startsBlank {p : Char → Bool}
    (hp : ∀ d, p d = true → isWordPart d = true) (hafter : StartsBlank after) :
    (cs.take (cs.takeWhile p).length ++ after).takeWhile p = cs.takeWhile p := by
  rw [take_length_takeWhile]
  refine takeWhile_append_of_breaks (fun d hd => List.all_eq_true.mp List.all_takeWhile d hd) ?_
  intro d hd
  refine Bool.eq_false_iff.mpr fun hpart => ?_
  have hblank := hafter d hd
  rw [isBlank_of_isWordPart (hp d hpart)] at hblank
  cases hblank

theorem head?_ne_of_startsBlank (hafter : StartsBlank after) {d : Char}
    (hd : Text.isBlank d = false) : after.head? ≠ some d := by
  intro h
  rw [hafter d h] at hd
  cases hd

/-- A token stays the same token if white space, or the end of the text, comes behind it. -/
theorem lead_take_append (h : lead c cs = (.token kind, n)) (hafter : StartsBlank after) :
    lead c (cs.take n ++ after) = (.token kind, n) := by
  have hbegins := begins_lead c cs
  rw [h] at hbegins
  cases hbegins with
  | punctuation hp => simp [lead, hp]
  | withEqual hc hhead =>
      obtain ⟨ds, rfl⟩ := List.head?_eq_some_iff.mp hhead
      unfold comparison? at hc
      split at hc <;> cases hc <;> rfl
  | alone hc _ =>
      have hne := head?_ne_of_startsBlank hafter (d := '=') (by decide)
      unfold comparison? at hc
      split at hc <;> cases hc <;> exact if_neg hne
  | doubled hd hhead =>
      obtain ⟨ds, rfl⟩ := List.head?_eq_some_iff.mp hhead
      unfold doubled? at hd
      split at hd <;> cases hd <;> rfl
  | slash hc _ =>
      subst hc
      exact if_neg (head?_ne_of_startsBlank hafter (by decide))
  | string hc hclose =>
      subst hc
      exact lead_quote (closingQuote?_append (closingQuote?_take hclose) after).1
  | word hstart =>
      rw [lead_word _ hstart, takeWhile_append_of_startsBlank (fun _ => id) hafter]
  | number hdigit =>
      rw [lead_digit hdigit,
        takeWhile_append_of_startsBlank (fun _ => isWordPart_of_isDigit) hafter]

/-! ### Rows of tokens -/

def Token.text (t : Token) : List Char :=
  if t.kind = .string then '"' :: t.literal.toList ++ ['"'] else t.literal.toList

/-- The text of a token, with white space or nothing behind it, is read as the token. -/
structure Token.Whole (t : Token) (c : Char) (cs : List Char) : Prop where
  text_eq : t.text = c :: cs
  literal_eq : t.kind.literal (c :: cs) = t.literal
  lead_append : ∀ after, StartsBlank after → lead c (cs ++ after) = (.token t.kind, cs.length)

theorem exists_whole_of_mem_itemsFrom {start : Nat} {source : List Char} {t : Token}
    (h : .token t ∈ itemsFrom start (pieces source)) : ∃ c cs, t.Whole c cs := by
  induction source using pieces.induct generalizing start with
  | case1 => simp [itemsFrom] at h
  | case2 c cs sort more hlead ih =>
      have hbegins : Begins c cs sort more := by simpa only [hlead] using begins_lead c cs
      have hmore : more ≤ cs.length := by simpa only [hlead] using length_le_of_lead c cs
      rw [pieces_cons, hlead, itemsFrom] at h
      cases hitem : Piece.item? ⟨sort, c :: cs.take more⟩ start with
      | none =>
          simp only [hitem] at h
          exact ih h
      | some item =>
          simp only [hitem] at h
          rcases List.mem_cons.mp h with rfl | h
          · have htext : t.text = c :: cs.take more := (hbegins.standsFor hitem).1.symm
            cases sort with
            | token kind =>
                cases hitem
                refine ⟨c, cs.take more, htext, rfl, fun after hafter => ?_⟩
                rw [List.length_take, Nat.min_eq_left hmore]
                exact lead_take_append hlead hafter
            | _ => cases hitem
          · exact ih h

/-- Tokens with layout behind each of them. It begins with white space, and only behind the last
token there may be none. -/
structure Spaced (row : List (Token × List Char)) : Prop where
  layout : ∀ r ∈ row, Layout r.2
  startsBlank : ∀ r ∈ row, StartsBlank r.2
  between : ∀ r ∈ row.dropLast, r.2 ≠ []

theorem Spaced.tail {r : Token × List Char} {row : List (Token × List Char)}
    (h : Spaced (r :: row)) : Spaced row where
  layout r' hr' := h.layout r' (List.mem_cons_of_mem _ hr')
  startsBlank r' hr' := h.startsBlank r' (List.mem_cons_of_mem _ hr')
  between r' hr' := by
    cases row with
    | nil => cases hr'
    | cons r'' row => exact h.between r' (List.mem_cons_of_mem _ hr')

def laidOut (row : List (Token × List Char)) : List Char :=
  row.flatMap fun r => r.1.text ++ r.2

theorem Spaced.startsBlank_append {t : Token} {gap : List Char} {row : List (Token × List Char)}
    (h : Spaced ((t, gap) :: row)) : StartsBlank (gap ++ laidOut row) := by
  intro c hc
  cases gap with
  | cons d ds => exact h.startsBlank _ List.mem_cons_self c hc
  | nil =>
      cases row with
      | nil => cases hc
      | cons r row => exact absurd rfl (h.between (t, []) List.mem_cons_self)

def Item.unplaced : Item → Item := Item.mapSpan fun _ => ⟨0, 0⟩

theorem itemsFrom_laidOut {row : List (Token × List Char)} (hrow : Spaced row)
    (hwhole : ∀ r ∈ row, ∃ c cs, r.1.Whole c cs) (start : Nat) :
    (itemsFrom start (pieces (laidOut row))).map Item.unplaced =
      row.map fun r => (Item.token r.1).unplaced := by
  induction row generalizing start with
  | nil => rw [laidOut, List.flatMap_nil, pieces_nil]; rfl
  | cons r row ih =>
      obtain ⟨t, gap⟩ := r
      obtain ⟨c, cs, ht⟩ := hwhole _ List.mem_cons_self
      have hlead := ht.lead_append _ hrow.startsBlank_append
      have htext : laidOut ((t, gap) :: row) = c :: (cs ++ (gap ++ laidOut row)) := by
        rw [laidOut, List.flatMap_cons, ht.text_eq]
        simp only [List.cons_append, List.append_assoc]
        rfl
      have hgap := hrow.layout _ List.mem_cons_self
      rw [htext, pieces_cons, hlead, List.take_left, List.drop_left, itemsFrom]
      show Item.unplaced (.token ⟨t.kind, t.kind.literal (c :: cs), _⟩) ::
        (itemsFrom _ (pieces (gap ++ laidOut row))).map Item.unplaced = _
      rw [itemsFrom_layout hgap, ih hrow.tail fun r hr => hwhole r (List.mem_cons_of_mem _ hr),
        ht.literal_eq]
      rfl

/-- The tokens of a source text, laid out anew, are read as the same tokens. -/
theorem scan_laidOut {source : String} {first : List Char} {row : List (Token × List Char)}
    (hscan : scan source = row.map fun r => .token r.1) (hfirst : Layout first)
    (hrow : Spaced row) :
    (scan (String.ofList (first ++ laidOut row))).map Item.unplaced =
      (scan source).map Item.unplaced := by
  have hwhole : ∀ r ∈ row, ∃ c cs, r.1.Whole c cs := by
    intro r hr
    have hmem : .token r.1 ∈ scan source := by
      rw [hscan]
      exact List.mem_map.mpr ⟨r, hr, rfl⟩
    exact exists_whole_of_mem_itemsFrom hmem
  show (itemsFrom 0 (pieces (String.ofList (first ++ laidOut row)).toList)).map _ = _
  rw [String.toList_ofList, itemsFrom_layout hfirst, itemsFrom_laidOut hrow hwhole, hscan,
    List.map_map]
  rfl

end ScriptLang
