import Mathlib
import ScriptLang.Proofs.Parser.Outlook
import ScriptLang.Proofs.Parser.Relocation
import ScriptLang.Proofs.Parser.Recovery

/-!
A semicolon on a new line keeps what is wrong with a text from what comes behind it. The
two texts with and without the rest are read in lockstep up to the semicolon
(`Cut.resumes_statements`); behind it the parser starts afresh on the rest, only further on
(`Cut.Reached.advance_eq`), and there everything is as if the rest stood alone.
-/

namespace ScriptLang

namespace Parser

def before (size : Nat) (items : List Item) : Parser :=
  let start : Parser := ⟨Token.endAt size, Token.endAt size, items, size, [], 0⟩
  start.advance.advance

theorem ofSource_eq_before (source : String) :
    ofSource source = before (byteLength source.toList) (scan source) := rfl

theorem before_further (n size : Nat) (items : List Item) (errors : List SyntaxError) :
    { before (size + n) (items.map (Item.shift n)) with errors := errors } =
      further n errors { before size items with errors := [] } := by
  let start : Parser := ⟨Token.endAt size, Token.endAt size, items, size, [], 0⟩
  have hbefore : before (size + n) (items.map (Item.shift n)) =
      (before size items).further n [] := by
    show (start.further n []).advance.advance = start.advance.advance.further n []
    rw [advance_further, advance_further]
  rw [hbefore]
  simp only [further, relocate, List.map_nil, List.append_nil]

/-- What a program is does not depend on the errors found before it. -/
theorem statements_fst_withErrors (p : Parser) (errors : List SyntaxError) (n : Nat) :
    ({ p with errors := errors }.statements n).1 = (p.statements n).1 := by
  let q : Parser := { p with errors := [] }
  have hleft : { p with errors := errors } = q.further 0 errors := by
    rw [further_zero, List.append_nil]
  have hright : p = q.further 0 p.errors := by
    rw [further_zero, List.append_nil]
  rw [hleft, hright, statements_further, statements_further]

/-- A parser that stands before a text further on reads what the text by itself would be
read as. Errors at the first two tokens have been recorded before it was there, so those
of the text are only known if there are none. -/
theorem statements_afresh {n m : Nat} {source : String} {r : Parser}
    (hr : r = { before (byteLength source.toList + n) ((scan source).map (Item.shift n)) with
      errors := r.errors }) (henough : r.EnoughTurns m) :
    (r.statements m).1 = (parse source).1 ∧
    ((∀ e, .error e ∉ scan source) →
      (r.statements m).2.errors = r.errors ++ (parse source).2.map (SyntaxError.shift n)) := by
  let s := ofSource source
  let s₀ : Parser := { s with errors := [] }
  rw [before_further, ← ofSource_eq_before] at hr
  have henough₀ : s₀.EnoughTurns m := by
    rw [hr] at henough
    unfold EnoughTurns at henough
    rwa [left_further] at henough
  have hturns : s₀.statements m = s₀.statements (s.left + 2) :=
    statements_eq_of_enoughTurns henough₀ (.inl (Nat.le_refl _))
  have hrun : r.statements m = ((s₀.statements (s.left + 2)).1,
      (s₀.statements (s.left + 2)).2.further n r.errors) := by
    rw [← hturns, ← statements_further]
    exact congrArg (statements m) hr
  rw [hrun]
  refine ⟨statements_fst_withErrors s [] _, fun hclean => ?_⟩
  have herrors : s₀ = s := by
    show { s with errors := [] } = s
    rw [← (on_ofSource hclean).2]
  rw [herrors]
  rfl

end Parser

namespace Cut

variable {K : Cut} {p p' q q' : Parser} {n n' size depth : Nat}

/-- Two runs over the statements, where the second one has gone on behind the semicolon: it
has read what the first one has read, and then the rest, from a parser that knows nothing
of what was before but the errors. -/
def Resumes (K : Cut) (size depth : Nat) (first second : Program × Parser) : Prop :=
  ∃ (r : Parser) (m : Nat),
    second = (first.1 ++ (r.statements m).1, (r.statements m).2) ∧ r.EnoughTurns m ∧
    r = { Parser.before size K.behind with errors := r.errors, depth := depth } ∧
    ((∀ e, .error e ∉ K.behind) → r.errors = first.2.errors)

theorem Resumes.cons {first second : Program × Parser} (h : K.Resumes size depth first second)
    (s : Stmt) : K.Resumes size depth (s :: first.1, first.2) (s :: second.1, second.2) := by
  obtain ⟨r, m, rfl, hrest⟩ := h
  exact ⟨r, m, rfl, hrest⟩

theorem Reached.advance_eq (h : K.Reached p p') :
    p'.advance = { Parser.before p'.size K.behind with
      errors := p'.advance.errors, depth := p'.depth } := by
  unfold Parser.advance Parser.before
  simp only [h.next', h.ahead']
  rfl

/-- Where the first text ends, the second one goes on. -/
theorem Reached.resumes (h : K.Reached p p') (hn : p'.advance.EnoughTurns n') :
    K.Resumes p'.size p'.depth (p.advance.statements n) (p'.advance.statements n') := by
  have hend : p.advance.current.kind = .endOfInput := h.next
  have hfirst : p.advance.statements n = ([], p.advance) := by
    cases n with
    | zero => rfl
    | succ n => rw [Parser.statements, if_pos hend]
  rw [hfirst]
  refine ⟨p'.advance, n', rfl, hn, h.advance_eq, fun hclean => ?_⟩
  have hpassed : (readToken p'.size p'.ahead).passed = [] := by
    rw [h.ahead']
    exact passed_eq_nil (fun e he => hclean e ((rest_readToken_suffix _ _).mem he)) _
  show p'.errors ++ _ = p.errors ++ _
  rw [hpassed, h.ahead, h.errors_eq hclean]
  rfl

/-- Statements are read in lockstep up to the semicolon, and then the second parser goes
on. -/
theorem resumes_statements (h : K.On 0 p p') (hn : p.left < n) (hn' : p'.EnoughTurns n') :
    K.Resumes p'.size p'.depth (p.statements n) (p'.statements n') := by
  induction n generalizing n' p p' with
  | zero => omega
  | succ n ih =>
      obtain ⟨n', rfl⟩ : ∃ k, n' = k + 1 :=
        ⟨n' - 1, by rcases hn' with hn' | ⟨-, hn'⟩ <;> omega⟩
      have hne' : p'.current.kind ≠ .endOfInput := h.current_eq ▸ h.current_ne
      -- Wherever the statement has ended, both go on behind its last token.
      have next {q q' : Parser} (hq : K.Facing 0 q q' ∨ K.Reached q q')
          (hmoves : p.Moves q) (hmoves' : p'.Moves q') :
          K.Resumes p'.size p'.depth (q.advance.statements n) (q'.advance.statements n') := by
        have henough := hn'.next hne' hmoves'
        rw [← hmoves'.size_eq, ← hmoves'.depth_eq]
        rcases hq with hfacing | hreached
        · have hlt := hfacing.left_advance_lt
          have hle := hmoves.left_le
          exact ih hfacing.advance (by omega) henough
        · exact hreached.resumes henough
      have hends := ends_statement (kept_expression K) h
      have hleads := Parse.Orderly.leads (r := Parse.statement Parse.expression) p
      have hleads' := Parse.Orderly.leads (r := Parse.statement Parse.expression) p'
      rw [Parser.statements, Parser.statements, if_neg h.current_ne, if_neg hne']
      generalize Parse.statement Parse.expression p = result at hends hleads
      generalize Parse.statement Parse.expression p' = result' at hends hleads'
      cases hends with
      | ok s hq =>
          exact (next (hq.imp Read.toFacing And.right) hleads hleads').cons s
      | stopped e hq =>
          have hmoves := hleads.1.trans (Parser.moves_synchronize _)
          have hmoves' := hleads'.1.trans (Parser.moves_synchronize _)
          refine next (hq.synchronize.imp (fun hfacing => ?_) And.right) hmoves hmoves'
          exact hfacing.mono (Nat.zero_le _)

theorem on_before {items : List Item} (hopen : openBraces 0 items = 0)
    (hpresent : ∀ t, .token t ∈ items → t.kind ≠ .endOfInput) (size size' : Nat) :
    K.On 0 (Parser.before size (items ++ [.token K.mark]))
      (Parser.before size' (items ++ .token K.mark :: K.behind)) := by
  obtain ⟨hpassed, rest, hrest, hrest', hopen', hmem⟩ := readToken_cut K items size size'
  refine Ahead.advance ⟨rfl, fun _ => ?_, rest, hrest, hrest', ?_, fun t ht => ?_⟩
  · exact congrArg ([] ++ ·) hpassed
  · rw [hopen']
    exact hopen
  · exact hpresent t (hmem _ ht)

end Cut

/-- Errors do not spread beyond a semicolon on a new line. If the text before it leaves no
string and no brace open, whatever else is wrong with it, then the statements of the two
texts together are those of the first one and those of the second one; and if there is no
lexical error in the second one, the errors are those of the first one, and those of the
second one at their places behind it. -/
theorem parse_append_semicolon (source more : String)
    (hquotes : ∀ span, .error (.unterminatedString span) ∉ scan source)
    (hbraces : openBraces 0 (scan source) = 0) :
    (parse (source ++ "\n;" ++ more)).1 = (parse (source ++ "\n;")).1 ++ (parse more).1 ∧
    ((∀ e, .error e ∉ scan more) →
      (parse (source ++ "\n;" ++ more)).2 = (parse (source ++ "\n;")).2 ++
        (parse more).2.map (SyntaxError.shift (byteLength (source ++ "\n;").toList))) := by
  let n := byteLength (source ++ "\n;").toList
  let K : Cut := ⟨semicolonAfter source, rfl, (scan more).map (Item.shift n)⟩
  let p := Parser.ofSource (source ++ "\n;")
  let p' := Parser.ofSource (source ++ "\n;" ++ more)
  let s := Parser.ofSource more
  have hp : p = Parser.before n (scan source ++ [.token K.mark]) := by
    rw [← scan_seam_nil hquotes]
    rfl
  have hp' : p' = Parser.before (byteLength more.toList + n)
      (scan source ++ .token K.mark :: K.behind) := by
    show p' = Parser.before _ (scan source ++ .token (semicolonAfter source) :: _)
    have hsize : byteLength more.toList + n =
        byteLength (source ++ "\n;" ++ more).toList := by
      rw [String.toList_append, byteLength_append, Nat.add_comm]
    rw [hsize, ← scan_seam hquotes more]
    rfl
  have hon : K.On 0 p p' := by
    rw [hp, hp']
    exact Cut.on_before hbraces (fun t ht => (scanned_of_mem_scan ht).kind_ne) _ _
  obtain ⟨r, m, hboth, henough, hr, herrors⟩ :=
    Cut.resumes_statements hon (n := p.left + 2) (by omega) (.inl (Nat.le_refl (p'.left + 2)))
  have hsize : p'.size = byteLength more.toList + n := by
    rw [hp']
    rfl
  rw [hsize] at hr
  obtain ⟨hstatements, hshifted⟩ := Parser.statements_afresh hr henough
  have hparse : parse (source ++ "\n;" ++ more) =
      ((p.statements (p.left + 2)).1 ++ (r.statements m).1, (r.statements m).2.errors) :=
    congrArg (fun run : Program × Parser => (run.1, run.2.errors)) hboth
  rw [hparse, hstatements]
  refine ⟨rfl, fun hclean => ?_⟩
  have hbehind : ∀ e, .error e ∉ K.behind := by
    intro e he
    obtain ⟨item, hitem, hshift⟩ := List.mem_map.mp he
    cases item with
    | token t => cases hshift
    | error e' => exact hclean e' hitem
  rw [hshifted hclean, herrors hbehind]
  rfl

/-- A text with an open parenthesis, a closed block and a closing brace too many. -/
def unbalanced : String := "(x\x7by\x7d\x7d"

theorem scan_unbalanced : scan unbalanced =
    [.token ⟨.leftParen, "(", ⟨0, 1⟩⟩, .token ⟨.identifier, "x", ⟨1, 1⟩⟩,
      .token ⟨.leftBrace, "\x7b", ⟨2, 1⟩⟩, .token ⟨.identifier, "y", ⟨3, 1⟩⟩,
      .token ⟨.rightBrace, "\x7d", ⟨4, 1⟩⟩, .token ⟨.rightBrace, "\x7d", ⟨5, 1⟩⟩] := by
  cbv

def unbalancedErrors : List SyntaxError :=
  [.unexpectedToken .rightParen .leftBrace ⟨2, 1⟩, .noExpression .rightBrace ⟨4, 1⟩,
    .noExpression .rightBrace ⟨5, 1⟩, .noExpression .semicolon ⟨7, 1⟩]

/-- There is no statement in the text, and what is behind the semicolon is read as if it stood
alone: the name is a statement, and the parenthesis is wrong at its place eight bytes on. -/
theorem parse_append_semicolon_unbalanced :
    (∀ span, .error (.unterminatedString span) ∉ scan unbalanced) ∧
    openBraces 0 (scan unbalanced) = 0 ∧ (∀ e, .error e ∉ scan "z)") ∧
    parse (unbalanced ++ "\n;") = ([], unbalancedErrors) ∧
    parse "z)" = ([.expr (.name "z")], [.noExpression .rightParen ⟨1, 1⟩]) ∧
    parse (unbalanced ++ "\n;" ++ "z)") =
      ([.expr (.name "z")], unbalancedErrors ++ [.noExpression .rightParen ⟨9, 1⟩]) := by
  have hquotes : ∀ span, .error (.unterminatedString span) ∉ scan unbalanced := by
    simp [scan_unbalanced]
  have hbraces : openBraces 0 (scan unbalanced) = 0 := by
    rw [scan_unbalanced]
    rfl
  have hscan : scan "z)" =
      [.token ⟨.identifier, "z", ⟨0, 1⟩⟩, .token ⟨.rightParen, ")", ⟨1, 1⟩⟩] := by
    cbv
  have hclean : ∀ e, .error e ∉ scan "z)" := by
    simp [hscan]
  have hfirst : parse (unbalanced ++ "\n;") = ([], unbalancedErrors) := by
    cbv
  have hsecond : parse "z)" = ([.expr (.name "z")], [.noExpression .rightParen ⟨1, 1⟩]) := by
    cbv
  obtain ⟨hprogram, herrors⟩ := parse_append_semicolon unbalanced "z)" hquotes hbraces
  refine ⟨hquotes, hbraces, hclean, hfirst, hsecond, Prod.ext ?_ ?_⟩
  · rw [hprogram, hfirst, hsecond]
    rfl
  · rw [herrors hclean, hfirst, hsecond]
    rfl

end ScriptLang
