import Mathlib
import ScriptLang.Proofs.Parser.Braces
import ScriptLang.Proofs.Parser.Ordering
import ScriptLang.Proofs.Parser.Recursion
import ScriptLang.Proofs.Token.Seam

/-!
Where a block ends that may be broken. The body of a function is any text that has no lexical
error and no brace without its partner. Whatever is wrong with the body, the block comes to an end
on a closing brace, and not behind its own one.
-/

namespace ScriptLang

/-! ### A body in its function -/

/-- A function with a body, and the closing brace on a line of its own. -/
def inFunction (body : String) : String := "func() \x7b" ++ body ++ "\n\x7d;"

def closingBrace (body : String) : Token :=
  ⟨.rightBrace, "\x7d", ⟨byteLength body.toList + 9, 1⟩⟩

def lastSemicolon (body : String) : Token :=
  ⟨.semicolon, ";", ⟨byteLength body.toList + 10, 1⟩⟩

def itemsOfBody (body : String) : List Item :=
  (scan body).map (Item.shift 8) ++ [.token (closingBrace body)]

theorem pieces_function (rest : List Char) :
    pieces ('f' :: 'u' :: 'n' :: 'c' :: '(' :: ')' :: ' ' :: '\x7b' :: rest) =
      [⟨.token .func, ['f', 'u', 'n', 'c']⟩, ⟨.token .leftParen, ['(']⟩,
        ⟨.token .rightParen, [')']⟩, ⟨.layout, [' ']⟩, ⟨.token .leftBrace, ['\x7b']⟩] ++
        pieces rest := by
  have hword : lead 'f' ('u' :: 'n' :: 'c' :: '(' :: ')' :: ' ' :: '\x7b' :: rest) =
      (.token .func, 3) := rfl
  have hopen : lead '(' (')' :: ' ' :: '\x7b' :: rest) = (.token .leftParen, 0) := rfl
  have hclose : lead ')' (' ' :: '\x7b' :: rest) = (.token .rightParen, 0) := rfl
  have hspace : lead ' ' ('\x7b' :: rest) = (.layout, 0) := rfl
  have hbrace : lead '\x7b' rest = (.token .leftBrace, 0) := rfl
  rw [pieces_cons, hword]
  show _ :: pieces ('(' :: _) = _
  rw [pieces_cons, hopen, List.drop_zero, pieces_cons, hclose, List.drop_zero, pieces_cons, hspace,
    List.drop_zero, pieces_cons, hbrace, List.drop_zero]
  rfl

theorem scan_inFunction {body : String}
    (h : ∀ span, .error (.unterminatedString span) ∉ scan body) :
    scan (inFunction body) =
      .token ⟨.func, "func", ⟨0, 4⟩⟩ :: .token ⟨.leftParen, "(", ⟨4, 1⟩⟩ ::
        .token ⟨.rightParen, ")", ⟨5, 1⟩⟩ :: .token ⟨.leftBrace, "\x7b", ⟨7, 1⟩⟩ ::
        (itemsOfBody body ++ [.token (lastSemicolon body)]) := by
  have hsorts : ∀ p ∈ pieces body.toList, p.sort ≠ .openString := by
    intro p hp hsort
    obtain ⟨span, hspan⟩ := unterminatedString_mem_itemsFrom hp hsort 0
    exact h span hspan
  have hchars : (inFunction body).toList =
      'f' :: 'u' :: 'n' :: 'c' :: '(' :: ')' :: ' ' :: '\x7b' ::
        (body.toList ++ '\n' :: ['\x7d', ';']) := by
    simp [inFunction, String.toList_append]
  have hend : pieces ('\n' :: ['\x7d', ';']) =
      [⟨.layout, ['\n']⟩, ⟨.token .rightBrace, ['\x7d']⟩, ⟨.token .semicolon, [';']⟩] := by
    have hbreak : lead '\n' ['\x7d', ';'] = (.layout, 0) := rfl
    have hbrace : lead '\x7d' [';'] = (.token .rightBrace, 0) := rfl
    have hsemicolon : lead ';' [] = (.token .semicolon, 0) := rfl
    rw [pieces_cons, hbreak, List.drop_zero, pieces_cons, hbrace, List.drop_zero, pieces_cons,
      hsemicolon, List.drop_zero, pieces_nil]
    rfl
  unfold scan
  rw [hchars, pieces_function, pieces_seam hsorts, hend, itemsFrom_append, itemsFrom_append,
    flatMap_text_pieces]
  have hbody : itemsFrom 8 (pieces body.toList) = (scan body).map (Item.shift 8) :=
    itemsFrom_add 0 8 (pieces body.toList)
  have hbehind : itemsFrom (8 + byteLength body.toList)
      [⟨.layout, ['\n']⟩, ⟨.token .rightBrace, ['\x7d']⟩, ⟨.token .semicolon, [';']⟩] =
      [.token (closingBrace body), .token (lastSemicolon body)] := by
    rw [Nat.add_comm]
    rfl
  show _ ++ (itemsFrom 8 (pieces body.toList) ++ itemsFrom (8 + byteLength body.toList) _) = _
  rw [hbody, hbehind, itemsOfBody, List.append_assoc]
  rfl

/-! ### The parser in front of the body -/

theorem openBraces_map_shift (n k : Nat) (items : List Item) :
    openBraces n (items.map (Item.shift k)) = openBraces n items := by
  induction items generalizing n with
  | nil => rfl
  | cons item items ih =>
      cases item with
      | token t => exact ih _
      | error e => exact ih n

theorem owedBraces_map_shift (k : Nat) (items : List Item) :
    owedBraces (items.map (Item.shift k)) = owedBraces items := by
  induction items with
  | nil => rfl
  | cons item items ih =>
      cases item with
      | token t => exact congrArg t.kind.owedBefore ih
      | error e => exact ih

theorem openBraces_itemsOfBody {body : String} (h : Balanced (scan body)) :
    openBraces 1 (itemsOfBody body) = 0 := by
  have hopen : openBraces 1 (scan body) = 1 := by
    rw [openBraces_eq, h.open_eq, h.owed_eq]
  rw [itemsOfBody, openBraces_append, openBraces_map_shift, hopen]
  rfl

/-- Where all items are tokens, what is read next is the first of them. -/
theorem token_cons_rest_readToken {items : List Item} (h : ∀ e, .error e ∉ items)
    (hne : items ≠ []) (size : Nat) :
    .token (readToken size items).token :: (readToken size items).rest = items := by
  cases items with
  | nil => exact absurd rfl hne
  | cons item items =>
      cases item with
      | token t => rfl
      | error e => exact absurd List.mem_cons_self (h e)

theorem clean_itemsOfBody {body : String} (h : ∀ e, .error e ∉ scan body) (e : LexicalError) :
    .error e ∉ itemsOfBody body ++ [.token (lastSemicolon body)] := by
  intro he
  simp only [itemsOfBody, List.append_assoc, List.mem_append, List.mem_map, List.mem_cons,
    reduceCtorEq, List.not_mem_nil, or_false] at he
  obtain ⟨item, hitem, hshift⟩ := he
  cases item with
  | token t => cases hshift
  | error e' => exact h e' hitem

namespace Parser

variable {p q : Parser}

theorem front_advance (hclean : ∀ e, .error e ∉ p.ahead) (hne : p.ahead ≠ []) :
    p.advance.front = .token p.next :: p.ahead :=
  congrArg (Item.token p.next :: ·) (token_cons_rest_readToken hclean hne p.size)

/-- The parser on the opening brace of the function, inside the first expression of the text. -/
def opening (body : String) : Parser :=
  { (ofSource (inFunction body)).advance.advance.advance with depth := 1 }

theorem ofSource_inFunction {body : String} (h : ∀ e, .error e ∉ scan body) :
    ofSource (inFunction body) =
      ⟨⟨.func, "func", ⟨0, 4⟩⟩, ⟨.leftParen, "(", ⟨4, 1⟩⟩,
        .token ⟨.rightParen, ")", ⟨5, 1⟩⟩ :: .token ⟨.leftBrace, "\x7b", ⟨7, 1⟩⟩ ::
          (itemsOfBody body ++ [.token (lastSemicolon body)]),
        byteLength (inFunction body).toList, [], 0⟩ := by
  unfold ofSource
  rw [scan_inFunction fun span => h _]
  rfl

theorem front_opening {body : String} (h : ∀ e, .error e ∉ scan body) :
    (opening body).front = .token ⟨.leftBrace, "\x7b", ⟨7, 1⟩⟩ ::
      (itemsOfBody body ++ [.token (lastSemicolon body)]) := by
  have hread := token_cons_rest_readToken (clean_itemsOfBody h) (by simp)
    (byteLength (inFunction body).toList)
  rw [opening, ofSource_inFunction h]
  exact congrArg (Item.token ⟨.leftBrace, "\x7b", ⟨7, 1⟩⟩ :: ·) hread

theorem clean_ahead_opening {body : String} (h : ∀ e, .error e ∉ scan body) (e : LexicalError) :
    .error e ∉ (opening body).ahead := fun he =>
  clean_itemsOfBody h e ((List.cons.inj (front_opening h)).2 ▸ List.mem_cons_of_mem _ he)

theorem owed_advance_opening {body : String} (hclean : ∀ e, .error e ∉ scan body)
    (hbalanced : Balanced (scan body)) : (opening body).advance.owed = 1 := by
  have hahead : .token (opening body).next :: (opening body).ahead =
      itemsOfBody body ++ [.token (lastSemicolon body)] :=
    (List.cons.inj (front_opening hclean)).2
  have hne : (opening body).ahead ≠ [] := by
    intro hnil
    have hlength := congrArg List.length hahead
    simp [hnil, itemsOfBody] at hlength
  rw [owed, front_advance (clean_ahead_opening hclean) hne, hahead, itemsOfBody,
    List.append_assoc, owedBraces_append, owedBraces_map_shift, openBraces_map_shift,
    hbalanced.owed_eq, hbalanced.open_eq]
  rfl

theorem Moves.ahead_suffix (h : p.Moves q) : q.ahead <:+ p.ahead := by
  induction h with
  | refl => exact List.suffix_rfl
  | advance _ ih => exact (rest_readToken_suffix _ _).trans ih
  | record _ _ ih => exact ih

/-- As long as there is a next token, what is in front of the parser is a part of what has been in
front of it. -/
theorem Moves.front_suffix (h : p.Moves q) (hp : p.Scanned) (hclean : ∀ e, .error e ∉ p.ahead)
    (hq : q.next.kind ≠ .endOfInput) : q.front <:+ p.front := by
  induction h with
  | refl => exact List.suffix_rfl
  | @advance q hmoves ih =>
      have hne : q.ahead ≠ [] := by
        intro hnil
        refine hq ?_
        show (readToken q.size q.ahead).token.kind = .endOfInput
        rw [hnil]
        rfl
      have hnext : q.next.kind ≠ .endOfInput := fun hend =>
        hne ((hmoves.scanned hp).next_end hend)
      have hq' : ∀ e, .error e ∉ q.ahead := fun e he => hclean e (hmoves.ahead_suffix.subset he)
      rw [front_advance hq' hne]
      exact (List.suffix_cons _ _).trans (ih hnext)
  | record _ _ ih => exact ih hq

end Parser

/-! ### The function -/

def cutBehind (body : String) : Cut := ⟨lastSemicolon body, rfl, []⟩

section

variable {body : String} {b : Block} {q : Parser}

theorem facing_opening (hclean : ∀ e, .error e ∉ scan body) (hbalanced : Balanced (scan body)) :
    (cutBehind body).Facing 1 (.opening body) (.opening body) := by
  obtain ⟨hcurrent, hahead⟩ := List.cons.inj (Parser.front_opening hclean)
  have hpresent (t : Token) (ht : .token t ∈ itemsOfBody body) : t.kind ≠ .endOfInput := by
    rcases List.mem_append.mp ht with ht | ht
    · obtain ⟨item, hitem, hshift⟩ := List.mem_map.mp ht
      cases item with
      | token t' =>
          obtain rfl := Item.token.inj hshift
          exact (scanned_of_mem_scan hitem).kind_ne
      | error e => cases hshift
    · rw [Item.token.inj (List.mem_singleton.mp ht)]
      exact nofun
  refine ⟨⟨rfl, fun _ => rfl, itemsOfBody body, hahead, hahead, openBraces_itemsOfBody hbalanced,
    hpresent⟩, rfl, ?_⟩
  rw [Item.token.inj hcurrent]
  decide

theorem current_ofSource_inFunction (hclean : ∀ e, .error e ∉ scan body) :
    (Parser.ofSource (inFunction body)).current.kind = .func := by
  rw [Parser.ofSource_inFunction hclean]

theorem primary_inFunction (hclean : ∀ e, .error e ∉ scan body)
    (hblock : Parse.block Parse.expression (.opening body) = .ok b q) :
    Parse.primary Parse.expression { Parser.ofSource (inFunction body) with depth := 1 } =
      .ok (.func [] b) q := by
  let p : Parser := { Parser.ofSource (inFunction body) with depth := 1 }
  have hp : p = ⟨⟨.func, "func", ⟨0, 4⟩⟩, ⟨.leftParen, "(", ⟨4, 1⟩⟩,
      .token ⟨.rightParen, ")", ⟨5, 1⟩⟩ :: .token ⟨.leftBrace, "\x7b", ⟨7, 1⟩⟩ ::
        (itemsOfBody body ++ [.token (lastSemicolon body)]),
      byteLength (inFunction body).toList, [], 1⟩ := by
    simp only [p, Parser.ofSource_inFunction hclean]
  have hparams : Parse.params p.advance = .ok [] p.advance.advance := by
    rw [hp]
    rfl
  have hprimary : Parse.primary Parse.expression p = Parse.function Parse.expression p := by
    rw [hp]
    rfl
  have hparen : p.next.kind = .leftParen := by rw [hp]
  have hbrace : p.advance.advance.next.kind = .leftBrace := by
    rw [hp]
    rfl
  have hopening : p.advance.advance.advance = .opening body := rfl
  show Parse.primary Parse.expression p = _
  rw [hprimary, Parse.function, Parse.expect_bind_run, if_pos hparen, Parse.bind_run, hparams]
  dsimp only
  rw [Parse.expect_bind_run, if_pos hbrace, hopening, Parse.bind_run, hblock]
  rfl

/-- What follows the function belongs to the same expression as long as it continues it. -/
theorem expression_inFunction (hclean : ∀ e, .error e ∉ scan body)
    (hblock : Parse.block Parse.expression (.opening body) = .ok b q) :
    Parse.expression .lowest (Parser.ofSource (inFunction body)) =
      Parse.nested (Parse.continuations Parse.expression .lowest (q.left + 2) (.func [] b))
        { q with depth := 0 } := by
  have hmoves : (Parser.opening body).Moves q := Parse.Orderly.moves hblock
  have hq : { { q with depth := 0 } with depth := 0 + 1 } = q := by
    have hdepth : q.depth = 1 := hmoves.depth_eq
    rw [Nat.zero_add, ← hdepth]
  have hoperators : Parse.operators Parse.expression .lowest
      { Parser.ofSource (inFunction body) with depth := 0 + 1 } =
      Parse.continuations Parse.expression .lowest (q.left + 2) (.func [] b) q := by
    rw [Parse.operators, Parse.bind_run, primary_inFunction hclean hblock]
    rfl
  have hdepth : (Parser.ofSource (inFunction body)).depth = 0 := rfl
  rw [Parse.expression_eq_turn .lowest (Nat.zero_le _), Parse.expressionTurn, Parse.get_bind_run,
    if_neg (by rw [hdepth]; decide), Parse.nested, hdepth, hoperators, Parse.nested]
  dsimp only at hq ⊢
  rw [hq]

theorem statement_inFunction (hclean : ∀ e, .error e ∉ scan body) :
    Parse.statement Parse.expression (Parser.ofSource (inFunction body)) =
      (do let e ← Parse.expression .lowest
          Parse.skipSemicolon
          pure (.expr e) : Parse Stmt) (Parser.ofSource (inFunction body)) := by
  rw [Parse.statement, Parse.current_bind_run, current_ofSource_inFunction hclean]

theorem parse_inFunction_of_own (hclean : ∀ e, .error e ∉ scan body)
    (hblock : Parse.block Parse.expression (.opening body) = .ok b q)
    (hnext : q.next = lastSemicolon body) (hahead : q.ahead = []) :
    parse (inFunction body) = ([.expr (.func [] b)], q.errors) := by
  let p := Parser.ofSource (inFunction body)
  let r : Parser := { q with depth := 0 }
  have hcurrent : p.current.kind ≠ .endOfInput := by
    rw [current_ofSource_inFunction hclean]
    decide
  have hkind : r.next.kind = .semicolon := by
    rw [show r.next = lastSemicolon body from hnext]
    rfl
  have hstay : Parse.nested
      (Parse.continuations Parse.expression .lowest (q.left + 2) (.func [] b)) r =
      .ok (.func [] b) r := by
    rw [Parse.nested, Parse.continuations, Parse.nextKind_bind_run, hkind]
    rfl
  have hskip : Parse.skipSemicolon r = .ok () r.advance := by
    rw [Parse.skipSemicolon, Parse.nextKind_bind_run, if_pos hkind]
    rfl
  have hstatement : Parse.statement Parse.expression p = .ok (.expr (.func [] b)) r.advance := by
    rw [statement_inFunction hclean, Parse.bind_run, expression_inFunction hclean hblock, hstay]
    dsimp only
    rw [Parse.bind_run, hskip]
    rfl
  have hend (k : Nat) : r.advance.advance.statements k = ([], r.advance.advance) := by
    have hcurrent : r.advance.advance.current.kind = .endOfInput := by
      show (readToken q.size q.ahead).token.kind = .endOfInput
      rw [hahead]
      rfl
    cases k with
    | zero => rfl
    | succ k => rw [Parser.statements, if_pos hcurrent]
  have herrors : r.advance.advance.errors = q.errors := by
    simp [Parser.advance, r, hahead, readToken]
  show ((p.statements (p.left + 2)).1, (p.statements (p.left + 2)).2.errors) = _
  rw [Parser.statements, if_neg hcurrent, hstatement]
  dsimp only
  rw [hend, herrors]

theorem errors_lt_parse_inFunction (hclean : ∀ e, .error e ∉ scan body)
    (hblock : Parse.block Parse.expression (.opening body) = .ok b q)
    (hq : (cutBehind body).Read 1 q q) :
    q.errors.length < (parse (inFunction body)).2.length := by
  let p := Parser.ofSource (inFunction body)
  let r : Parser := { q with depth := 0 }
  let rest : Parse Stmt := do
    let e ← Parse.nested
      (Parse.continuations Parse.expression .lowest (q.left + 2) (.func [] b))
    Parse.skipSemicolon
    pure (.expr e)
  have hcurrent : p.current.kind ≠ .endOfInput := by
    rw [current_ofSource_inFunction hclean]
    decide
  have hstatement : Parse.statement Parse.expression p = rest r := by
    rw [statement_inFunction hclean, Parse.bind_run, expression_inFunction hclean hblock,
      ← Parse.bind_run]
  have hleft : q.left < q.left + 2 := by omega
  have hends : (cutBehind body).Ends 1 ((cutBehind body).Past 1) (rest r) (rest r) := by
    have hread := Cut.ends_nested (hq.withDepth 0).on fun _ =>
      Cut.ends_continuations (Cut.kept_expression _) .lowest (.func [] b) (hq.withDepth 1)
        hleft hleft
    exact hread.bind fun e _ _ hq _ => (Cut.ends_skipSemicolon hq).bind fun _ _ _ hq _ => .ok _ hq
  have hleads : r.Leads (rest r) := Parse.Orderly.leads r
  have hmoves : p.Leads (rest r) := hstatement ▸ Parse.Orderly.leads p
  show q.errors.length < (p.statements (p.left + 2)).2.errors.length
  rw [Parser.statements, if_neg hcurrent, hstatement]
  generalize rest r = result at hends hleads hmoves
  cases hends with
  | @ok s r' _ hr =>
      obtain hr | ⟨hzero, -⟩ := hr
      · have hgrow := (Parser.Moves.advance hleads).errors_grow.length_le
        have hle : r'.left ≤ p.left := Parser.Moves.left_le hmoves
        have hlt := hr.left_advance_lt
        exact Nat.lt_of_le_of_lt hgrow (Cut.errors_lt_statements hr.advance (by omega))
      · cases hzero
  | @stopped e r' _ hr =>
      have hmoves := r'.moves_synchronize.advance.trans (Parser.moves_statements (p.left + 1) _)
      exact Nat.lt_of_lt_of_le hleads.2 hmoves.errors_grow.length_le

theorem closingBrace_not_mem : .token (closingBrace body) ∉ (scan body).map (Item.shift 8) := by
  intro hmem
  obtain ⟨item, hitem, hshift⟩ := List.mem_map.mp hmem
  cases item with
  | token t =>
      have hstop := (liesIn_of_mem_scan hitem).stop_le
      have hstart : t.span.start + 8 = byteLength body.toList + 9 :=
        congrArg (fun t : Token => t.span.start) (Item.token.inj hshift)
      simp only [Item.span, Span.stop] at hstop
      omega
  | error e => cases hshift

theorem owedBraces_rightBrace {t : Token} (h : t.kind = .rightBrace) (items : List Item) :
    owedBraces (.token t :: items) = owedBraces items + 1 := by
  rw [owedBraces, h]
  rfl

theorem Parser.Moves.exists_append_eq {p : Parser} {items : List Item}
    (hclean : ∀ e, .error e ∉ scan body) (hp : (Parser.opening body).Moves p)
    (hnext : p.next.kind ≠ .endOfInput)
    (hitems : .token p.next :: p.ahead = items ++ [.token (lastSemicolon body)]) :
    ∃ before, before ++ .token p.current :: items =
      .token ⟨.leftBrace, "\x7b", ⟨7, 1⟩⟩ :: itemsOfBody body := by
  have hscanned : (Parser.opening body).Scanned := by
    have h := (scanned_ofSource (inFunction body)).advance.advance.advance
    exact ⟨h.ahead, h.current, h.next, h.next_end, h.current_end⟩
  have hfront := front_opening hclean
  obtain ⟨before, hbefore⟩ := hp.front_suffix hscanned (clean_ahead_opening hclean) hnext
  have heq : (before ++ .token p.current :: items) ++ [.token (lastSemicolon body)] =
      (.token ⟨.leftBrace, "\x7b", ⟨7, 1⟩⟩ :: itemsOfBody body) ++
        [.token (lastSemicolon body)] := by
    rw [List.append_assoc, List.cons_append, ← hitems, List.cons_append, ← hfront]
    exact hbefore
  exact ⟨before, List.append_cancel_right heq⟩

/-- A closing brace in the body is followed by the one of the function, so from there on two are
owed; from the brace of the function on it is one. -/
theorem current_eq_closingBrace_or {p : Parser} (hclean : ∀ e, .error e ∉ scan body)
    (hbalanced : Balanced (scan body)) (hp : (Parser.opening body).Moves p)
    (hon : (cutBehind body).On 1 p p) (hend : p.current.kind = .rightBrace) :
    (p.current = closingBrace body ∧ p.owed = 1 ∧ p.next = lastSemicolon body ∧ p.ahead = []) ∨
      (p.current ≠ closingBrace body ∧ 2 ≤ p.owed) := by
  have hfacing := hon.facing_succ
  obtain ⟨items, hitems, -⟩ := hfacing.ahead
  obtain ⟨before, hbefore⟩ := hp.exists_append_eq hclean hfacing.next_ne hitems
  rw [Cut.owed_eq_of_ahead hitems, owedBraces_rightBrace hend]
  let opening : Item := .token ⟨.leftBrace, "\x7b", ⟨7, 1⟩⟩
  let inside := (scan body).map (Item.shift 8)
  rcases List.eq_nil_or_concat' items with rfl | ⟨more, last, rfl⟩
  · obtain ⟨hnext, hahead⟩ := List.cons.inj hitems
    have hends : before ++ [.token p.current] =
        (opening :: inside) ++ [.token (closingBrace body)] := hbefore
    have hcurrent := List.head_eq_of_cons_eq (List.append_inj_right' hends rfl)
    exact .inl ⟨Item.token.inj hcurrent, rfl, Item.token.inj hnext, hahead⟩
  · have hends : (before ++ .token p.current :: more) ++ [last] =
        (opening :: inside) ++ [.token (closingBrace body)] := by
      rw [List.append_assoc]
      exact hbefore
    obtain ⟨hinside, hlast⟩ := List.append_inj' hends rfl
    obtain rfl := List.head_eq_of_cons_eq hlast
    -- The brace is not the opening one, so it is one of the body.
    obtain ⟨before', hbody⟩ : ∃ before', before' ++ .token p.current :: more = inside := by
      cases before with
      | nil =>
          have hcurrent := Item.token.inj (List.head_eq_of_cons_eq hinside)
          rw [hcurrent] at hend
          cases hend
      | cons first before => exact ⟨before, (List.cons.inj hinside).2⟩
    refine .inr ⟨fun hcurrent => ?_, ?_⟩
    · have hmem : .token p.current ∈ inside := hbody ▸ List.mem_append_right _ List.mem_cons_self
      rw [hcurrent] at hmem
      exact closingBrace_not_mem hmem
    · have hwhole : openBraces 0 (before' ++ .token p.current :: more) = 0 := by
        rw [hbody, openBraces_map_shift]
        exact hbalanced.open_eq
      have hopen := openBraces_suffix hwhole
      have howed := owedBraces_append (.token p.current :: more) [.token (closingBrace body)]
      rw [List.cons_append, owedBraces_rightBrace hend, owedBraces_rightBrace hend, hopen,
        owedBraces_rightBrace rfl] at howed
      omega

end

/-- Whatever is wrong with the body of a function, if it has no lexical error and no brace without
its partner, then its block comes to an end on a closing brace. It is the closing brace of the
function exactly if each statement of the body, whether it is read or given up, leaves as many
braces to be closed as there were in front of it. In this case the function is all that the text
is, and the errors are those that have been found by its closing brace. Otherwise the block has
ended on a brace of the body, and a further error is found behind it. -/
theorem block_ends_on_own_brace {body : String} (hclean : ∀ e, .error e ∉ scan body)
    (hbalanced : Balanced (scan body)) :
    ∃ b q, Parse.block Parse.expression (.opening body) = .ok b q ∧
      q.current.kind = .rightBrace ∧
      (q.current = closingBrace body ↔
        ∀ p, Parse.ComesTo Parse.expression (Parser.opening body).advance p →
          p.current.kind ≠ .rightBrace →
          (Parse.afterStatement Parse.expression p).owed = p.owed) ∧
      (q.current = closingBrace body →
        parse (inFunction body) = ([.expr (.func [] b)], q.errors)) ∧
      (q.current ≠ closingBrace body →
        q.errors.length < (parse (inFunction body)).2.length) := by
  have he := Cut.kept_expression (cutBehind body)
  have hon : (cutBehind body).On 1 (Parser.opening body).advance (Parser.opening body).advance :=
    (facing_opening hclean hbalanced).advance
  obtain ⟨b, q, hrun, hcomes, hend⟩ := Cut.exists_blockRest_eq he hon
    (Nat.lt_add_of_pos_right (Nat.zero_lt_two))
  have hblock : Parse.block Parse.expression (.opening body) = .ok b q := hrun
  have hmoves : (Parser.opening body).Moves q := Parse.Orderly.moves hblock
  obtain ⟨hq, -⟩ := Cut.on_of_comesTo he hon hcomes
  have howed := Cut.owed_eq_iff he hon hcomes hend
  rw [Parser.owed_advance_opening hclean hbalanced] at howed
  refine ⟨b, q, hblock, hend, ?_⟩
  rw [← howed]
  rcases current_eq_closingBrace_or hclean hbalanced hmoves hq hend with
    ⟨hown, hone, hnext, hahead⟩ | ⟨hother, htwo⟩
  · exact ⟨iff_of_true hown hone,
      fun _ => parse_inFunction_of_own hclean hblock hnext hahead, fun h => absurd hown h⟩
  · refine ⟨iff_of_false hother (by omega), fun h => absurd h hother, fun _ => ?_⟩
    exact errors_lt_parse_inFunction hclean hblock ((hq.of_le_owed htwo).read_rightBrace hend)

/-- A body with a hash whose value is missing, and a statement behind it. -/
def brokenHash : String := "\x7ba: \x7d;y"

theorem scan_brokenHash : scan brokenHash =
    [.token ⟨.leftBrace, "\x7b", ⟨0, 1⟩⟩, .token ⟨.identifier, "a", ⟨1, 1⟩⟩,
      .token ⟨.colon, ":", ⟨2, 1⟩⟩, .token ⟨.rightBrace, "\x7d", ⟨4, 1⟩⟩,
      .token ⟨.semicolon, ";", ⟨5, 1⟩⟩, .token ⟨.identifier, "y", ⟨6, 1⟩⟩] := by
  cbv

/-- The block ends on the brace of the hash, so the second statement of the body is read as one
behind the function. -/
theorem block_ends_on_own_brace_brokenHash :
    (∀ e, .error e ∉ scan brokenHash) ∧ Balanced (scan brokenHash) ∧
    (parse (inFunction brokenHash)).1 = [.expr (.func [] []), .expr (.name "y")] ∧
    ∃ b q, Parse.block Parse.expression (.opening brokenHash) = .ok b q ∧
      q.current ≠ closingBrace brokenHash ∧
      q.errors.length < (parse (inFunction brokenHash)).2.length := by
  have hclean : ∀ e, .error e ∉ scan brokenHash := by
    simp [scan_brokenHash]
  have hbalanced : Balanced (scan brokenHash) := by
    rw [scan_brokenHash]
    exact ⟨rfl, rfl⟩
  have hparse : (parse (inFunction brokenHash)).1 = [.expr (.func [] []), .expr (.name "y")] := by
    cbv
  obtain ⟨b, q, hblock, -, -, hown, hother⟩ := block_ends_on_own_brace hclean hbalanced
  have hne : q.current ≠ closingBrace brokenHash := by
    intro heq
    rw [hown heq] at hparse
    cases hparse
  exact ⟨hclean, hbalanced, hparse, b, q, hblock, hne, hother hne⟩

end ScriptLang
