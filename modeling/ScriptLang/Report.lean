import ScriptLang.Token.Basic

/-!
Reports. A report is what the user is told about an error: a message, a code
that identifies the kind of error, perhaps some advice, and labels on the places
in the source text that it is about.
-/

namespace ScriptLang

/-- A remark on one place of the source text. -/
structure Label where
  span : Span
  text : String
  deriving DecidableEq

/-- An error as the user reads it. -/
structure Report where
  message : String
  code : String
  help : Option String
  labels : List Label
  deriving DecidableEq

def Label.tail (l : Label) : String :=
  " | " ++ toString l.span.start ++ "+" ++ toString l.span.length ++ ": " ++ l.text

def Report.line (r : Report) : String :=
  "error[" ++ r.code ++ "]: " ++ r.message
    ++ (match r.help with
      | some advice => " | help: " ++ advice
      | none => "")
    ++ String.join (r.labels.map Label.tail)

end ScriptLang
