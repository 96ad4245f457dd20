import ScriptLang.CommandLine.Response
import ScriptLang.Proofs.Parser.Ordering

/-!
What the user is told about the syntax errors of a source text. Every lexical error of the
text is reported once, every other error is labelled with a token of the text or with its end,
and those errors come in the order of the text. So the commands that need a program reject
every file with text that is no token, as the listing of its tokens does, and run nothing.
-/

namespace ScriptLang

/-- A report has one label, at the place of the error. -/
theorem SyntaxError.labels_report (e : SyntaxError) :
    ∃ text, e.report.labels = [⟨e.span, text⟩] := by
  cases e with
  | lexical l => cases l <;> exact ⟨_, rfl⟩
  | _ => exact ⟨_, rfl⟩

theorem mem_parse_of_error_mem_scan {source : String} {l : LexicalError}
    (h : .error l ∈ scan source) : .lexical l ∈ (parse source).2 := by
  have hl : l ∈ (scan source).filterMap Item.error? := List.mem_filterMap.mpr ⟨_, h, rfl⟩
  rw [← lexicalErrors_parse] at hl
  obtain ⟨e, he, hlexical⟩ := List.mem_filterMap.mp hl
  cases e with
  | lexical l' =>
      cases hlexical
      exact he
  | _ => cases hlexical

theorem error_mem_scan_of_mem_parse {source : String} {l : LexicalError}
    (h : .lexical l ∈ (parse source).2) : .error l ∈ scan source := by
  have hl : l ∈ (parse source).2.filterMap SyntaxError.lexical? :=
    List.mem_filterMap.mpr ⟨_, h, rfl⟩
  rw [lexicalErrors_parse] at hl
  obtain ⟨item, hitem, herror⟩ := List.mem_filterMap.mp hl
  cases item with
  | token t => cases herror
  | error l' =>
      cases herror
      exact hitem

/-- Every error of a source text has its place in the text. -/
theorem liesIn_of_mem_parse {source : String} {e : SyntaxError} (h : e ∈ (parse source).2) :
    e.span.LiesIn source := by
  cases ht : e.aboutToken with
  | true =>
      obtain ⟨t, hsource, hspan⟩ := (aboutToken_parse source).1 e h ht
      exact hspan ▸ hsource.liesIn
  | false =>
      cases e with
      | lexical l => exact liesIn_of_mem_scan (error_mem_scan_of_mem_parse h)
      | _ => cases ht

/-! ### Rejected files -/

namespace CommandLine

theorem exitCode_eq_iff {status : Status} : status.exitCode = 65 ↔ status = .rejected := by
  cases status <;> decide

theorem status_listTokens_iff {items : List Item} :
    (listTokens items).status = .rejected ↔ ∃ l, .error l ∈ items := by
  induction items with
  | nil => simp [listTokens]
  | cons item items ih =>
      cases item with
      | token t => simpa [listTokens] using ih
      | error l => simp [listTokens]

end CommandLine

theorem runSource_rejected {source : String} (h : (parse source).2 ≠ []) (settings : Settings)
    (i : Interpreter) : i.runSource settings source = (.rejected (parse source).2, i) := by
  have hempty : (parse source).2.isEmpty = false := by simpa using h
  simp only [Interpreter.runSource, runSource, hempty]
  rfl

open CommandLine

/-- The accounts of the syntax errors of a source text.

The lexical errors that parsing records are those of the text, in the order of the text. Every
other error is about a token of the text or about its end, and those errors come in the order
of their places. A report has one label, at the place of its error, and that is a stretch of
whole characters of the text.

So if the listing of the tokens of a file ends with exit code 65, the file is a text, and
parsing it and running it do too. Nothing is printed and no interpreter is changed. -/
theorem syntax_errors_accounted :
    (∀ source : String,
      (parse source).2.filterMap SyntaxError.lexical? =
        (scan source).filterMap Item.error? ∧
      (∀ e ∈ (parse source).2, e.aboutToken = true → e.span = (endOf source).span ∨
        ∃ t, .token t ∈ scan source ∧ e.span = t.span) ∧
      ((parse source).2.filter SyntaxError.aboutToken).Pairwise
        (fun e e' => e.span.start ≤ e'.span.start) ∧
      ∀ e ∈ (parse source).2, (∃ text, e.report.labels = [⟨e.span, text⟩]) ∧
        e.span.LiesIn source) ∧
    ∀ (settings : Settings) (file : String → Option (List UInt8)) (input : List UInt8)
      (name : String),
      (respond settings file input (.command (.tokenize name))).status.exitCode = 65 →
      (respond settings file input (.command (.parse name))).status.exitCode = 65 ∧
      (respond settings file input (.command (.run name))).status.exitCode = 65 ∧
      (respond settings file input (.command (.run name))).output = "" ∧
      ∃ source, (file name).bind Text.ofBytes? = some source ∧ ∀ i : Interpreter,
        i.runSource settings source = (.rejected (parse source).2, i) := by
  constructor
  · intro source
    obtain ⟨hplaces, hordered⟩ := aboutToken_parse source
    refine ⟨lexicalErrors_parse source, fun e he ht => ?_, hordered,
      fun e he => ⟨e.labels_report, liesIn_of_mem_parse he⟩⟩
    obtain ⟨t, rfl | ht, hspan⟩ := hplaces e he ht
    · exact .inl hspan
    · exact .inr ⟨t, ht, hspan⟩
  · intro settings file input name
    simp only [respond, exitCode_eq_iff, onContent]
    cases hsource : (file name).bind Text.ofBytes? with
    | none => simp
    | some source =>
        intro hlisting
        obtain ⟨l, hl⟩ := status_listTokens_iff.mp hlisting
        have herrors : (parse source).2 ≠ [] :=
          List.ne_nil_of_mem (mem_parse_of_error_mem_scan hl)
        have hrun := runSource_rejected herrors settings
        have hempty : (parse source).2.isEmpty = false := by simpa using herrors
        refine ⟨?_, ?_, ?_, source, rfl, hrun⟩
        · simp only [printProgram, hempty]
          rfl
        · simp only [runProgram, hrun]
        · simp only [runProgram, hrun]

/-- The bytes of `var 1 = @; )`. -/
def brokenFile : List UInt8 := [118, 97, 114, 32, 49, 32, 61, 32, 64, 59, 32, 41]

/-- The number and the parenthesis cannot stand where they do, and between them is text that is
no token. The listing of the tokens ends there; the other commands report all three errors, and
all commands have the same exit code. -/
theorem syntax_errors_accounted_recovery :
    (parse "var 1 = @; )").2 =
      [.unexpectedToken .identifier .int ⟨4, 1⟩, .lexical (.unexpectedCharacter '@' ⟨8, 1⟩),
        .noExpression .rightParen ⟨11, 1⟩] ∧
    (respond Settings.standard (fun _ => some brokenFile) []
      (.command (.tokenize "broken"))).status.exitCode = 65 ∧
    (respond Settings.standard (fun _ => some brokenFile) []
      (.command (.run "broken"))).status.exitCode = 65 ∧
    (respond Settings.standard (fun _ => some brokenFile) []
      (.command (.run "broken"))).output = "" := by
  have herrors : (parse "var 1 = @; )").2 =
      [.unexpectedToken .identifier .int ⟨4, 1⟩, .lexical (.unexpectedCharacter '@' ⟨8, 1⟩),
        .noExpression .rightParen ⟨11, 1⟩] := by
    cbv
  have hsource : Text.ofBytes? brokenFile = some "var 1 = @; )" := by
    cbv
  have hmem : .error (.unexpectedCharacter '@' ⟨8, 1⟩) ∈ scan "var 1 = @; )" :=
    error_mem_scan_of_mem_parse (by rw [herrors]; simp)
  have hlisting : (respond Settings.standard (fun _ => some brokenFile) []
      (.command (.tokenize "broken"))).status.exitCode = 65 := by
    simp only [respond, onContent, Option.bind_some, hsource]
    exact exitCode_eq_iff.mpr (status_listTokens_iff.mpr ⟨_, hmem⟩)
  obtain ⟨-, hrun, houtput, -⟩ := syntax_errors_accounted.2 _ _ _ _ hlisting
  exact ⟨herrors, hlisting, hrun, houtput⟩

end ScriptLang
