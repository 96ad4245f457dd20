import ScriptLang.Proofs.Parser.Relocation
import ScriptLang.Proofs.Token.Layout

/-!
Programs laid out anew. What a text is parsed as depends on its items only, and not on their
places (`parse_eq_of_unplaced`); so it does not depend on the layout between the tokens.
-/

namespace ScriptLang

def Relocation.unplacing : Relocation where
  span _ := ⟨0, 0⟩
  size _ := 0
  span_end _ := rfl

def SyntaxError.unplaced : SyntaxError → SyntaxError := SyntaxError.mapSpan fun _ => ⟨0, 0⟩

namespace Parser

/-- Without places, the parser before a text knows of the items only. -/
theorem relocate_ofSource {source source' : String}
    (h : (scan source).map Item.unplaced = (scan source').map Item.unplaced) :
    (ofSource source).relocate .unplacing [] = (ofSource source').relocate .unplacing [] := by
  let start (source : String) : Parser :=
    ⟨endOf source, endOf source, scan source, (endOf source).span.start, [], 0⟩
  have hstart : (start source).relocate .unplacing [] = (start source').relocate .unplacing [] :=
    congrArg (Parser.mk ⟨.endOfInput, "", ⟨0, 0⟩⟩ ⟨.endOfInput, "", ⟨0, 0⟩⟩ · 0 [] 0) h
  show (start source).advance.advance.relocate .unplacing [] =
    (start source').advance.advance.relocate .unplacing []
  simp only [← advance_relocate, hstart]

end Parser

theorem parse_eq_of_unplaced {source source' : String}
    (h : (scan source).map Item.unplaced = (scan source').map Item.unplaced) :
    (parse source).1 = (parse source').1 ∧
      (parse source).2.map SyntaxError.unplaced = (parse source').2.map SyntaxError.unplaced := by
  let p := Parser.ofSource source
  let p' := Parser.ofSource source'
  have hp : p.relocate .unplacing [] = p'.relocate .unplacing [] := Parser.relocate_ofSource h
  have hturns : p.left + 2 = p'.left + 2 := by
    rw [← p.left_relocate .unplacing [], hp, Parser.left_relocate]
  have hruns : (p.relocate .unplacing []).statements (p.left + 2) =
      (p'.relocate .unplacing []).statements (p'.left + 2) := by
    rw [hp, hturns]
  rw [Parser.statements_relocate, Parser.statements_relocate] at hruns
  obtain ⟨hprogram, hlast⟩ := Prod.mk.inj hruns
  exact ⟨hprogram, congrArg Parser.errors hlast⟩

theorem exists_text_of_mem_scan {source : String} {t : Token} (h : .token t ∈ scan source) :
    ∃ before behind, source.toList = before ++ (t.text ++ behind) ∧
      t.span = ⟨byteLength before, byteLength t.text⟩ := by
  obtain ⟨n, hn⟩ : ∃ n, (Lexer.start source).items[n]? = some (Item.token t) :=
    List.getElem?_of_mem h
  obtain ⟨gap, text, htakes⟩ := Lexer.takes_after hn
  obtain ⟨before, hsource, hbyte⟩ := Lexer.within_after (Lexer.within_start source) n
  obtain rfl : text = t.text := htakes.standsFor.1
  refine ⟨before ++ gap, ((Lexer.start source).after (n + 1)).rest, ?_, ?_⟩
  · rw [hsource, htakes.rest_eq, List.append_assoc]
  · rw [byteLength_append, ← hbyte]
    exact htakes.span_eq

/-- Layout does not matter. Take a source text that is read without a lexical error, and lay its
tokens out anew, with any layout before the first one, with layout that begins with white space
between them, and with such layout or none behind the last one. The new text is read as the same
tokens, it is the same program, and the same is wrong with it. -/
theorem layout_irrelevant {source : String} {first : List Char}
    {row : List (Token × List Char)} (hscan : scan source = row.map fun r => .token r.1)
    (hfirst : Layout first) (hrow : Spaced row) :
    (∀ r ∈ row, ∃ before behind, source.toList = before ++ (r.1.text ++ behind) ∧
      r.1.span = ⟨byteLength before, byteLength r.1.text⟩) ∧
    (scan (String.ofList (first ++ laidOut row))).map Item.unplaced =
      (scan source).map Item.unplaced ∧
    (parse (String.ofList (first ++ laidOut row))).1 = (parse source).1 ∧
    (parse (String.ofList (first ++ laidOut row))).2.map SyntaxError.unplaced =
      (parse source).2.map SyntaxError.unplaced := by
  have hitems := scan_laidOut hscan hfirst hrow
  refine ⟨fun r hr => exists_text_of_mem_scan ?_, hitems, parse_eq_of_unplaced hitems⟩
  rw [hscan]
  exact List.mem_map.mpr ⟨r, hr, rfl⟩

/-- The tokens of the text `"//\""/x`, with a comment that looks like a string behind the first
one, and an ideographic space behind the second one. -/
def dividedString : List (Token × List Char) :=
  [(⟨.string, "//\\\"", ⟨0, 6⟩⟩, [' ', '/', '/', '"', '\n']), (⟨.slash, "/", ⟨6, 1⟩⟩, ['\u3000']),
    (⟨.identifier, "x", ⟨7, 1⟩⟩, [])]

theorem spaced_dividedString : Spaced dividedString := by
  constructor
  · simp only [dividedString, List.forall_mem_cons]
    exact ⟨.blank rfl (@Layout.comment ['"'] [] (by decide) .nil), .blank rfl .nil, .nil, nofun⟩
  · simp [dividedString, StartsBlank, show Text.isBlank ' ' = true from rfl,
      show Text.isBlank '\u3000' = true from rfl]
  · simp [dividedString]

/-- In the new layout, with a line of comment in front, the text is still a division of the
string by the name. -/
theorem layout_irrelevant_dividedString :
    scan "\"//\\\"\"/x" = dividedString.map (fun r => .token r.1) ∧
    Layout ['/', '/', '1', '\n'] ∧ Spaced dividedString ∧
    String.ofList (['/', '/', '1', '\n'] ++ laidOut dividedString) =
      "//1\n\"//\\\"\" //\"\n/\u3000x" ∧
    parse "//1\n\"//\\\"\" //\"\n/\u3000x" =
      ([.expr (.binary .divide (.str "//\"") (.name "x"))], []) := by
  have hscan : scan "\"//\\\"\"/x" = dividedString.map (fun r => .token r.1) := by
    cbv
  have hfirst : Layout ['/', '/', '1', '\n'] := @Layout.comment ['1'] [] (by decide) .nil
  have htext : String.ofList (['/', '/', '1', '\n'] ++ laidOut dividedString) =
      "//1\n\"//\\\"\" //\"\n/\u3000x" := by
    cbv
  have hparse : parse "\"//\\\"\"/x" =
      ([.expr (.binary .divide (.str "//\"") (.name "x"))], []) := by
    cbv
  obtain ⟨-, -, hprogram, herrors⟩ := layout_irrelevant hscan hfirst spaced_dividedString
  rw [hparse] at hprogram herrors
  rw [htext] at hprogram herrors
  exact ⟨hscan, hfirst, spaced_dividedString, htext,
    Prod.ext hprogram (List.map_eq_nil_iff.mp herrors)⟩

end ScriptLang
