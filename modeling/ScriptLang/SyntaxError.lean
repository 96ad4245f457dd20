import ScriptLang.Report
import ScriptLang.Token.Basic

/-!
Syntax errors: what can be wrong with a source text, and what the user is told
about it.
-/

namespace ScriptLang

/-- How many expressions may be under construction at one time, each inside the
one before. -/
def maxNesting : Nat := 128

inductive SyntaxError
  | lexical (e : LexicalError)
  | unexpectedToken (expected found : TokenKind) (span : Span)
  | noExpression (found : TokenKind) (span : Span)
  | integerTooLarge (literal : String) (span : Span)
  /-- More than `maxNesting` expressions inside one another. -/
  | tooDeeplyNested (span : Span)
  deriving DecidableEq

def SyntaxError.span : SyntaxError → Span
  | .lexical e => e.span
  | .unexpectedToken _ _ span => span
  | .noExpression _ span => span
  | .integerTooLarge _ span => span
  | .tooDeeplyNested span => span

def LexicalError.report : LexicalError → Report
  | .unexpectedCharacter c span =>
    { message := "Unexpected character '" ++ c.toString ++ "'"
      code := "lex::unexpected_character"
      help := some ("remove or correct the character: `" ++ c.toString ++ "`")
      labels := [⟨span, "this character"⟩] }
  | .unterminatedString span =>
    { message := "unterminated double quote string"
      code := "lex::unterminated_string"
      help := none
      labels := [⟨span, "missing trailing `\"` to terminate the string literal"⟩] }

def SyntaxError.report : SyntaxError → Report
  | .lexical e => e.report
  | .unexpectedToken expected found span =>
    { message := "expected next token to be " ++ expected.name ++ ", got "
        ++ found.name ++ " instead"
      code := "parse::unexpected_token"
      help := some ("use `" ++ expected.name ++ "` here instead")
      labels := [⟨span, "here"⟩] }
  | .noExpression found span =>
    { message := "no prefix parse rule for " ++ found.name
      code := "parse::no_prefix_rule"
      help := some "an expression cannot start with this token"
      labels := [⟨span, "expected an expression"⟩] }
  | .integerTooLarge literal span =>
    { message := "could not parse `" ++ literal ++ "` as integer"
      code := "parse::invalid_integer"
      help := none
      labels := [⟨span, "this numeric literal"⟩] }
  | .tooDeeplyNested span =>
    { message := "expression nested deeper than " ++ toString maxNesting ++ " levels"
      code := "parse::too_deeply_nested"
      help := none
      labels := [⟨span, "nesting limit reached here"⟩] }

end ScriptLang
