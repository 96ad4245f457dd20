import Mathlib
import ScriptLang.Proofs.Token.Seam

/-!
The items of a source text tile it. A `Lexer` is the place up to which a text has been
read, given twice: by the characters that are left and by the number of bytes before
them. Each time it is asked for the next item it first passes a gap, which is white space
and comments, and then the text of the item, up to where the item cannot go on
(`Lexer.Takes`). So the items and the gaps between them, one after another, are the
source, and the number of bytes always is that of the characters that have been read.
-/

namespace ScriptLang

theorem byteLength_toList (s : String) : byteLength s.toList = s.utf8ByteSize := by
  have hbytes (cs : List Char) : byteLength cs = (cs.flatMap String.utf8EncodeChar).length := by
    induction cs with
    | nil => rfl
    | cons c cs ih =>
        rw [byteLength_cons, List.flatMap_cons, List.length_append, String.length_utf8EncodeChar,
          ih]
  rw [hbytes, ← String.size_toByteArray, ← s.ofList_toList, String.toByteArray_ofList,
    List.utf8Encode, List.size_toByteArray, String.toList_ofList]

/-! ### One item after another -/

/-- How far a source text has been read. -/
structure Lexer where
  rest : List Char
  /-- The number of bytes before it. -/
  byte : Nat

namespace Lexer

def start (source : String) : Lexer := ⟨source.toList, 0⟩

/-- Reads on to the end of the next item, or to the end of the text if there is none. -/
def next : Lexer → Option Item × Lexer
  | ⟨[], byte⟩ => (none, ⟨[], byte⟩)
  | ⟨c :: cs, byte⟩ =>
    let (sort, more) := lead c cs
    let piece : Piece := ⟨sort, c :: cs.take more⟩
    let lexer : Lexer := ⟨cs.drop more, byte + byteLength piece.text⟩
    match piece.item? byte with
    | some item => (some item, lexer)
    | none => lexer.next
  termination_by lexer => lexer.rest.length
  decreasing_by simp only [List.length_drop, List.length_cons]; omega

/-- The lexer when it has been asked for so many items. -/
def after (lexer : Lexer) : Nat → Lexer
  | 0 => lexer
  | n + 1 => (lexer.after n).next.2

def items (lexer : Lexer) : List Item := itemsFrom lexer.byte (pieces lexer.rest)

theorem next_cons (c : Char) (cs : List Char) (byte : Nat) :
    next ⟨c :: cs, byte⟩ =
      match Piece.item? ⟨(lead c cs).1, c :: cs.take (lead c cs).2⟩ byte with
      | some item =>
        (some item, ⟨cs.drop (lead c cs).2, byte + byteLength (c :: cs.take (lead c cs).2)⟩)
      | none => next ⟨cs.drop (lead c cs).2, byte + byteLength (c :: cs.take (lead c cs).2)⟩ := by
  rw [next]

theorem items_cons (c : Char) (cs : List Char) (byte : Nat) :
    items ⟨c :: cs, byte⟩ =
      match Piece.item? ⟨(lead c cs).1, c :: cs.take (lead c cs).2⟩ byte with
      | some item =>
        item :: items ⟨cs.drop (lead c cs).2, byte + byteLength (c :: cs.take (lead c cs).2)⟩
      | none =>
        items ⟨cs.drop (lead c cs).2, byte + byteLength (c :: cs.take (lead c cs).2)⟩ := by
  unfold items
  rw [pieces_cons]
  exact itemsFrom.eq_2 byte _ _

/-- The next item is the first of those that are still to come, and the others come after
it. -/
theorem items_next (lexer : Lexer) :
    lexer.next.1 = lexer.items.head? ∧ lexer.next.2.items = lexer.items.tail := by
  induction lexer using next.induct with
  | case1 byte => simp [next, items, itemsFrom]
  | case2 c cs byte sort more hlead piece item hitem =>
      rw [next_cons, items_cons, hlead]
      simp only [piece] at hitem
      rw [hitem]
      exact ⟨rfl, rfl⟩
  | case3 c cs byte sort more hlead piece lexer hitem ih =>
      rw [next_cons, items_cons, hlead]
      simp only [piece] at hitem
      rw [hitem]
      exact ih

theorem items_after (lexer : Lexer) (n : Nat) : (lexer.after n).items = lexer.items.drop n := by
  induction n with
  | zero => rfl
  | succ n ih =>
      show (lexer.after n).next.2.items = _
      rw [(items_next _).2, ih, List.tail_drop]

theorem next_after (lexer : Lexer) (n : Nat) : (lexer.after n).next.1 = lexer.items[n]? := by
  rw [(items_next _).1, items_after, List.head?_drop]

end Lexer

/-! ### Beginnings of pieces -/

/-- The sort of a piece that begins with `c`, and how many of the characters `cs` behind it
belong to it: one constructor for each way in which a piece can begin. -/
inductive Begins (c : Char) (cs : List Char) : PieceSort → Nat → Prop
  | punctuation {kind : TokenKind} :
      punctuation? c = some kind → Begins c cs (.token kind) 0
  | withEqual {alone withEqual : TokenKind} :
      comparison? c = some (alone, withEqual) → cs.head? = some '=' →
      Begins c cs (.token withEqual) 1
  | alone {alone withEqual : TokenKind} :
      comparison? c = some (alone, withEqual) → cs.head? ≠ some '=' →
      Begins c cs (.token alone) 0
  | doubled {kind : TokenKind} :
      doubled? c = some kind → cs.head? = some c → Begins c cs (.token kind) 1
  | single {kind : TokenKind} :
      doubled? c = some kind → cs.head? ≠ some c → Begins c cs (.stray c) 0
  | comment : c = '/' → cs.head? = some '/' →
      Begins c cs .layout (cs.takeWhile (· != '\n')).length
  | slash : c = '/' → cs.head? ≠ some '/' → Begins c cs (.token .slash) 0
  | string {n : Nat} : c = '"' → Text.closingQuote? cs = some n →
      Begins c cs (.token .string) (n + 1)
  | openString : c = '"' → Text.closingQuote? cs = none → Begins c cs .openString cs.length
  | word : isWordStart c = true →
      Begins c cs (.token (wordKind (c :: cs.takeWhile isWordPart)))
        (cs.takeWhile isWordPart).length
  | number : c.isDigit = true → Begins c cs (.token .int) (cs.takeWhile Char.isDigit).length
  | blank : Text.isBlank c = true → Begins c cs .layout 0
  | stray : Begins c cs (.stray c) 0

theorem begins_lead (c : Char) (cs : List Char) :
    Begins c cs (lead c cs).1 (lead c cs).2 := by
  unfold lead
  split
  · exact .punctuation ‹_›
  split
  · split
    · exact .withEqual ‹_› ‹_›
    · exact .alone ‹_› ‹_›
  split
  · split
    · exact .doubled ‹_› ‹_›
    · exact .single ‹_› ‹_›
  split
  · split
    · exact .comment ‹_› ‹_›
    · exact .slash ‹_› ‹_›
  split
  · split
    · exact .string ‹_› ‹_›
    · exact .openString ‹_› ‹_›
  split
  · exact .word ‹_›
  split
  · exact .number ‹_›
  split
  · exact .blank ‹_›
  · exact .stray

/-! ### Gaps -/

/-- White space and comments, and what follows them. A comment begins with two slashes and
goes up to a line break, which does not belong to it, or to the end. -/
inductive Gap : List Char → List Char → Prop
  | nil {rest : List Char} : Gap [] rest
  | blank {c : Char} {gap rest : List Char} :
      Text.isBlank c = true → Gap gap rest → Gap (c :: gap) rest
  | comment {body gap rest : List Char} : '\n' ∉ body →
      (∀ d, (gap ++ rest).head? = some d → d = '\n') → Gap gap rest →
      Gap ('/' :: '/' :: body ++ gap) rest

theorem take_length_takeWhile (p : Char → Bool) (cs : List Char) :
    cs.take (cs.takeWhile p).length = cs.takeWhile p :=
  (List.prefix_iff_eq_take.mp (List.takeWhile_prefix p)).symm

theorem head?_drop_length_takeWhile {p : Char → Bool} {cs : List Char} {d : Char}
    (h : (cs.drop (cs.takeWhile p).length).head? = some d) : p d = false := by
  have hdrop := @List.drop_left _ (cs.takeWhile p) (cs.dropWhile p)
  rw [List.takeWhile_append_dropWhile] at hdrop
  have hhead := List.head?_dropWhile_not p cs
  rw [hdrop] at h
  rwa [h] at hhead

/-- Layout belongs to the gap that goes on behind it. -/
theorem Begins.gap {c : Char} {cs gap rest : List Char} {n : Nat} (h : Begins c cs .layout n)
    (hdrop : cs.drop n = gap ++ rest) (hgap : Gap gap rest) :
    Gap (c :: cs.take n ++ gap) rest := by
  cases h with
  | blank hblank => exact .blank hblank hgap
  | comment hc hhead =>
      obtain ⟨ds, rfl⟩ := List.head?_eq_some_iff.mp hhead
      subst hc
      have hbody : ('/' :: ds).takeWhile (· != '\n') = '/' :: ds.takeWhile (· != '\n') := rfl
      rw [take_length_takeWhile, hbody]
      refine .comment (fun hmem => ?_) (fun d hd => ?_) hgap
      · have hne := List.all_eq_true.mp List.all_takeWhile _ hmem
        simp at hne
      · rw [← hdrop] at hd
        simpa using head?_drop_length_takeWhile hd

/-! ### Texts of items -/

/-- Whether a token of this kind would go on with a character right behind it. -/
def TokenKind.goesOn : TokenKind → Char → Bool
  | .identifier | .var | .func | .ret | .ifWord | .elseWord | .trueWord | .falseWord => isWordPart
  | .int => Char.isDigit
  | .bang | .equal | .less | .greater => (· == '=')
  | .slash => (· == '/')
  | _ => fun _ => false

/-- An item stands for a text with something behind it. The literal of a token is its text,
without the quotes if it is a string, and the token does not go on behind it. A stray
character is itself the text, and a string that is left open goes to the end. -/
def Item.StandsFor : Item → List Char → List Char → Prop
  | .token t, text, after =>
    text = (if t.kind = .string then '"' :: t.literal.toList ++ ['"'] else t.literal.toList) ∧
      ∀ d, after.head? = some d → t.kind.goesOn d = false
  | .error (.unexpectedCharacter c _), text, _ => text = [c]
  | .error (.unterminatedString _), text, after => text.head? = some '"' ∧ after = []

theorem goesOn_wordKind (word : List Char) (d : Char) :
    wordKind word ≠ .string ∧ (wordKind word).goesOn d = isWordPart d := by
  unfold wordKind
  split <;> exact ⟨nofun, rfl⟩

theorem goesOn_of_punctuation? {c : Char} {kind : TokenKind} (h : punctuation? c = some kind)
    (d : Char) : kind ≠ .string ∧ kind.goesOn d = false := by
  unfold punctuation? at h
  split at h <;> cases h <;> exact ⟨nofun, rfl⟩

theorem goesOn_of_comparison? {c : Char} {alone withEqual : TokenKind}
    (h : comparison? c = some (alone, withEqual)) (d : Char) :
    (alone ≠ .string ∧ alone.goesOn d = (d == '=')) ∧
      (withEqual ≠ .string ∧ withEqual.goesOn d = false) := by
  unfold comparison? at h
  split at h <;> cases h <;> exact ⟨⟨nofun, rfl⟩, nofun, rfl⟩

theorem goesOn_of_doubled? {c : Char} {kind : TokenKind} (h : doubled? c = some kind)
    (d : Char) : kind ≠ .string ∧ kind.goesOn d = false := by
  unfold doubled? at h
  split at h <;> cases h <;> exact ⟨nofun, rfl⟩

theorem getElem?_of_closingQuote? {cs : List Char} {n : Nat}
    (h : Text.closingQuote? cs = some n) : cs[n]? = some '"' := by
  obtain ⟨units, rest, rfl, rfl⟩ := Text.closingQuote?_eq_some_iff.mp h
  simp

theorem standsFor_token {kind : TokenKind} {text after : List Char} {span : Span}
    (hkind : kind ≠ .string) (hgo : ∀ d, after.head? = some d → kind.goesOn d = false) :
    (Item.token ⟨kind, kind.literal text, span⟩).StandsFor text after := by
  refine ⟨?_, hgo⟩
  rw [if_neg hkind]
  unfold TokenKind.literal
  split
  · contradiction
  · exact String.toList_ofList.symm

theorem standsFor_string {cs : List Char} {n : Nat} {span : Span}
    (h : Text.closingQuote? cs = some n) :
    (Item.token ⟨.string, TokenKind.string.literal ('"' :: cs.take (n + 1)), span⟩).StandsFor
      ('"' :: cs.take (n + 1)) (cs.drop (n + 1)) := by
  refine ⟨?_, fun _ _ => rfl⟩
  rw [if_pos rfl, List.take_add_one, getElem?_of_closingQuote? h]
  simp [TokenKind.literal]

theorem Begins.standsFor {c : Char} {cs : List Char} {sort : PieceSort} {n byte : Nat}
    {item : Item} (h : Begins c cs sort n)
    (hitem : Piece.item? ⟨sort, c :: cs.take n⟩ byte = some item) :
    item.StandsFor (c :: cs.take n) (cs.drop n) := by
  cases h with
  | comment | blank => cases hitem
  | single | stray =>
      cases hitem
      rfl
  | openString hc hopen =>
      cases hitem
      exact ⟨congrArg some hc, List.drop_length⟩
  | punctuation hp =>
      cases hitem
      exact standsFor_token (goesOn_of_punctuation? hp c).1
        fun d _ => (goesOn_of_punctuation? hp d).2
  | withEqual hc _ =>
      cases hitem
      exact standsFor_token (goesOn_of_comparison? hc c).2.1
        fun d _ => (goesOn_of_comparison? hc d).2.2
  | alone hc hhead =>
      cases hitem
      refine standsFor_token (goesOn_of_comparison? hc c).1.1 fun d hd => ?_
      rw [(goesOn_of_comparison? hc d).1.2, beq_eq_false_iff_ne]
      rintro rfl
      exact hhead hd
  | doubled hd _ =>
      cases hitem
      exact standsFor_token (goesOn_of_doubled? hd c).1 fun d _ => (goesOn_of_doubled? hd d).2
  | slash hc hhead =>
      cases hitem
      refine standsFor_token nofun fun d hd => beq_eq_false_iff_ne.mpr ?_
      rintro rfl
      exact hhead hd
  | string hc hclose =>
      cases hitem
      subst hc
      exact standsFor_string hclose
  | word hstart =>
      cases hitem
      refine standsFor_token (goesOn_wordKind _ c).1 fun d hd => ?_
      rw [(goesOn_wordKind _ d).2]
      exact head?_drop_length_takeWhile hd
  | number hdigit =>
      cases hitem
      exact standsFor_token nofun fun d hd => head?_drop_length_takeWhile hd

/-! ### The tiling -/

namespace Lexer

/-- On its way to the next item the lexer passes a gap and takes the text that the item
stands for. -/
structure Takes (lexer : Lexer) (gap text : List Char) (item : Item) (lexer' : Lexer) :
    Prop where
  rest_eq : lexer.rest = gap ++ (text ++ lexer'.rest)
  isGap : Gap gap (text ++ lexer'.rest)
  ne_nil : text ≠ []
  standsFor : item.StandsFor text lexer'.rest
  span_eq : item.span = ⟨lexer.byte + byteLength gap, byteLength text⟩
  byte_eq : lexer'.byte = item.span.stop

structure Ends (lexer lexer' : Lexer) : Prop where
  isGap : Gap lexer.rest []
  rest_eq : lexer'.rest = []
  byte_eq : lexer'.byte = lexer.byte + byteLength lexer.rest

theorem Takes.of_layout {c : Char} {cs gap text : List Char} {n byte : Nat} {item : Item}
    {lexer' : Lexer} (hlayout : Begins c cs .layout n)
    (h : Takes ⟨cs.drop n, byte + byteLength (c :: cs.take n)⟩ gap text item lexer') :
    Takes ⟨c :: cs, byte⟩ (c :: cs.take n ++ gap) text item lexer' where
  rest_eq := by
    have hrest : cs.drop n = gap ++ (text ++ lexer'.rest) := h.rest_eq
    show c :: cs = _
    rw [List.append_assoc, ← hrest, List.cons_append, List.take_append_drop]
  isGap := hlayout.gap h.rest_eq h.isGap
  ne_nil := h.ne_nil
  standsFor := h.standsFor
  span_eq := by
    rw [h.span_eq, byteLength_append, ← Nat.add_assoc]
  byte_eq := h.byte_eq

theorem Ends.of_layout {c : Char} {cs : List Char} {n byte : Nat} {lexer' : Lexer}
    (hlayout : Begins c cs .layout n)
    (h : Ends ⟨cs.drop n, byte + byteLength (c :: cs.take n)⟩ lexer') :
    Ends ⟨c :: cs, byte⟩ lexer' where
  isGap := by
    have hgap := hlayout.gap (List.append_nil _).symm h.isGap
    rwa [List.cons_append, List.take_append_drop] at hgap
  rest_eq := h.rest_eq
  byte_eq := by
    rw [h.byte_eq, Nat.add_assoc, ← byteLength_append, List.cons_append, List.take_append_drop]

theorem sort_of_item?_eq_none {p : Piece} {start : Nat} (h : p.item? start = none) :
    p.sort = .layout := by
  unfold Piece.item? at h
  split at h <;> first | assumption | cases h

/-- Asked for the next item, the lexer takes one or comes to the end. -/
theorem next_spec (lexer : Lexer) :
    match lexer.next with
    | (some item, lexer') => ∃ gap text, lexer.Takes gap text item lexer'
    | (none, lexer') => lexer.Ends lexer' := by
  induction lexer using next.induct with
  | case1 byte =>
      rw [next]
      exact ⟨.nil, rfl, rfl⟩
  | case2 c cs byte sort more hlead piece item hitem =>
      have hbegins : Begins c cs sort more := by simpa only [hlead] using begins_lead c cs
      have hspan := Piece.span_of_item? hitem
      simp only [piece] at hitem hspan
      simp only [next_cons, hlead, hitem]
      refine ⟨[], c :: cs.take more, ?_, .nil, List.cons_ne_nil _ _, hbegins.standsFor hitem,
        hspan, ?_⟩
      · exact congrArg (c :: ·) (List.take_append_drop more cs).symm
      · rw [hspan]
        rfl
  | case3 c cs byte sort more hlead piece lexer hitem ih =>
      have hsort : sort = .layout := sort_of_item?_eq_none hitem
      have hbegins : Begins c cs .layout more := by
        simpa only [hlead, hsort] using begins_lead c cs
      simp only [piece] at hitem
      simp only [next_cons, hlead, hitem]
      simp only [lexer, piece] at ih
      generalize next ⟨cs.drop more, byte + byteLength (c :: cs.take more)⟩ = reached at ih ⊢
      obtain ⟨_ | item, lexer'⟩ := reached
      · exact ih.of_layout hbegins
      · obtain ⟨gap, text, htakes⟩ := ih
        exact ⟨_, text, htakes.of_layout hbegins⟩

/-! ### The whole text -/

def Within (source : List Char) (lexer : Lexer) : Prop :=
  ∃ before, source = before ++ lexer.rest ∧ lexer.byte = byteLength before

theorem within_start (source : String) : (start source).Within source.toList :=
  ⟨[], rfl, rfl⟩

theorem Takes.within {source gap text : List Char} {item : Item} {lexer lexer' : Lexer}
    (h : lexer.Takes gap text item lexer') (hlexer : lexer.Within source) :
    lexer'.Within source := by
  obtain ⟨before, hsource, hbyte⟩ := hlexer
  refine ⟨before ++ (gap ++ text), ?_, ?_⟩
  · rw [hsource, h.rest_eq, List.append_assoc, List.append_assoc]
  · rw [h.byte_eq, h.span_eq, Span.stop, hbyte, byteLength_append, byteLength_append,
      Nat.add_assoc]

theorem Ends.within {source : List Char} {lexer lexer' : Lexer} (h : lexer.Ends lexer')
    (hlexer : lexer.Within source) : lexer'.Within source := by
  obtain ⟨before, hsource, hbyte⟩ := hlexer
  refine ⟨before ++ lexer.rest, ?_, ?_⟩
  · rw [h.rest_eq, hsource, List.append_nil]
  · rw [h.byte_eq, hbyte, byteLength_append]

theorem within_next {source : List Char} {lexer : Lexer} (h : lexer.Within source) :
    lexer.next.2.Within source := by
  have hspec := lexer.next_spec
  generalize lexer.next = reached at hspec
  obtain ⟨_ | item, lexer'⟩ := reached
  · exact hspec.within h
  · obtain ⟨gap, text, htakes⟩ := hspec
    exact htakes.within h

theorem within_after {source : List Char} {lexer : Lexer} (h : lexer.Within source) (n : Nat) :
    (lexer.after n).Within source := by
  induction n with
  | zero => exact h
  | succ n ih => exact within_next ih

/-- The item that comes next in the row of all items is what the lexer takes. -/
theorem takes_after {lexer : Lexer} {n : Nat} {item : Item} (h : lexer.items[n]? = some item) :
    ∃ gap text, (lexer.after n).Takes gap text item (lexer.after (n + 1)) := by
  have hspec := (lexer.after n).next_spec
  have hnext := lexer.next_after n
  rw [h] at hnext
  show ∃ gap text, (lexer.after n).Takes gap text item (lexer.after n).next.2
  generalize (lexer.after n).next = reached at hspec hnext
  obtain ⟨_ | item', lexer'⟩ := reached
  · cases hnext
  · cases hnext
    exact hspec

theorem ends_after {lexer : Lexer} {n : Nat} (h : lexer.items[n]? = none) :
    (lexer.after n).Ends (lexer.after (n + 1)) := by
  have hspec := (lexer.after n).next_spec
  have hnext := lexer.next_after n
  rw [h] at hnext
  show (lexer.after n).Ends (lexer.after n).next.2
  generalize (lexer.after n).next = reached at hspec hnext
  obtain ⟨_ | item', lexer'⟩ := reached
  · exact hspec
  · cases hnext

theorem Takes.byte_le {gap text : List Char} {item : Item} {lexer lexer' : Lexer}
    (h : lexer.Takes gap text item lexer') : lexer.byte ≤ item.span.start := by
  rw [h.span_eq]
  exact Nat.le_add_right _ _

theorem byte_le_after (lexer : Lexer) {m n : Nat} (h : m ≤ n) :
    (lexer.after m).byte ≤ (lexer.after n).byte := by
  induction h with
  | refl => exact Nat.le_refl _
  | @step n _ ih =>
      refine Nat.le_trans ih ?_
      cases hitem : lexer.items[n]? with
      | none =>
          rw [(ends_after hitem).byte_eq]
          exact Nat.le_add_right _ _
      | some item =>
          obtain ⟨gap, text, htakes⟩ := takes_after hitem
          rw [htakes.byte_eq]
          exact Nat.le_trans htakes.byte_le (Nat.le_add_right _ _)

end Lexer

/-- The lexer tiles the source.

Asked for one item after another, it yields those of `scan`, and then no more. Whenever it
is asked, what is left is the part of the source from the byte on that it has come to.
Each item has a text that is not empty and that its span is the place of; what lies
between the texts, and behind the last one, is white space and comments. The spans
increase and do not overlap, and in the end the whole source has been read. -/
theorem lexer_tiles (source : String) :
    (∀ n, ((Lexer.start source).after n).next.1 = (scan source)[n]?) ∧
    (∀ n, ((Lexer.start source).after n).Within source.toList) ∧
    (∀ n item, (scan source)[n]? = some item → ∃ gap text,
      ((Lexer.start source).after n).Takes gap text item
        ((Lexer.start source).after (n + 1))) ∧
    (∀ n, (scan source).length ≤ n → Gap ((Lexer.start source).after n).rest [] ∧
      (Lexer.start source).after (n + 1) = ⟨[], source.utf8ByteSize⟩) ∧
    (scan source).Pairwise (fun a b => a.span.stop ≤ b.span.start) := by
  have hwithin (n : Nat) : ((Lexer.start source).after n).Within source.toList :=
    Lexer.within_after (Lexer.within_start source) n
  have htakes (n : Nat) (item : Item) (h : (scan source)[n]? = some item) :
      ∃ gap text, ((Lexer.start source).after n).Takes gap text item
        ((Lexer.start source).after (n + 1)) :=
    Lexer.takes_after h
  refine ⟨(Lexer.start source).next_after, hwithin, htakes, fun n hn => ?_, ?_⟩
  · have hends : ((Lexer.start source).after n).Ends ((Lexer.start source).after (n + 1)) :=
      Lexer.ends_after (List.getElem?_eq_none hn)
    refine ⟨hends.isGap, ?_⟩
    obtain ⟨before, hsource, hbyte⟩ := hwithin (n + 1)
    rw [hends.rest_eq, List.append_nil] at hsource
    rw [← hsource, byteLength_toList] at hbyte
    rw [← hends.rest_eq, ← hbyte]
  · refine List.pairwise_iff_getElem.mpr fun i j hi hj hlt => ?_
    obtain ⟨gap, text, hfirst⟩ := htakes i _ (List.getElem?_eq_getElem hi)
    obtain ⟨gap', text', hsecond⟩ := htakes j _ (List.getElem?_eq_getElem hj)
    calc (scan source)[i].span.stop
      _ = ((Lexer.start source).after (i + 1)).byte := hfirst.byte_eq.symm
      _ ≤ ((Lexer.start source).after j).byte := Lexer.byte_le_after _ hlt
      _ ≤ (scan source)[j].span.start := hsecond.byte_le

/-- A comment, with a character of two bytes in it, and a line break lie before the second
of three items. -/
theorem lexer_tiles_comment :
    (scan "a // ü\n<= 1")[1]? = some (.token ⟨.lessEqual, "<=", ⟨8, 2⟩⟩) ∧
    (∃ gap text, ((Lexer.start "a // ü\n<= 1").after 1).Takes gap text
      (.token ⟨.lessEqual, "<=", ⟨8, 2⟩⟩) ((Lexer.start "a // ü\n<= 1").after 2)) ∧
    (scan "a // ü\n<= 1").length ≤ 3 ∧
    Gap ((Lexer.start "a // ü\n<= 1").after 3).rest [] ∧
    (Lexer.start "a // ü\n<= 1").after 4 = ⟨[], 12⟩ := by
  have hitem : (scan "a // ü\n<= 1")[1]? = some (.token ⟨.lessEqual, "<=", ⟨8, 2⟩⟩) := by
    cbv
  have hlength : (scan "a // ü\n<= 1").length ≤ 3 := by
    cbv
  obtain ⟨-, -, htakes, hends, -⟩ := lexer_tiles "a // ü\n<= 1"
  exact ⟨hitem, htakes 1 _ hitem, hlength, hends 3 hlength⟩

end ScriptLang
