/-!
What the words on the command line ask for. The first word names a command; a
command that works on a file takes the name of the file, and an interactive session
takes an option for its prompt. Words are taken from left to right, and the first
one that cannot stand in its place makes the whole request wrong. After `--` every
word stands for itself, even if it starts with a dash.
-/

namespace ScriptLang.CommandLine

inductive Command
  | tokenize (file : String)
  | parse (file : String)
  | run (file : String)
  | repl (prompt : String)
  deriving DecidableEq

inductive Request
  | command (c : Command)
  | version
  | help
  | wrongUsage
  deriving DecidableEq

def Request.file? : Request → Option String
  | .command (.tokenize file) => some file
  | .command (.parse file) => some file
  | .command (.run file) => some file
  | _ => none

def defaultPrompt : String := ">>> "

/-- Whether a word is an option rather than a name or a value: it starts with a
dash, and more follows. -/
def isOption (word : String) : Bool :=
  match word.toList with
  | '-' :: _ :: _ => true
  | _ => false

/-- Whether an option asks for help. Short options can be run together, and the
first one counts. -/
def asksForHelp (word : String) : Bool :=
  word = "--help" ||
    match word.toList with
    | '-' :: 'h' :: _ => true
    | _ => false

def asksForVersion (word : String) : Bool :=
  word = "--version" ||
    match word.toList with
    | '-' :: 'V' :: _ => true
    | _ => false

/-- The value that is written into the same word as the option for the prompt. -/
def attachedPrompt? (word : String) : Option String :=
  let option := "--prompt=".toList
  if option.isPrefixOf word.toList then
    some (String.ofList (word.toList.drop option.length))
  else none

def onFile (command : String → Command) (file : Option String) (verbatim : Bool) :
    List String → Request
  | [] =>
    match file with
    | some name => if name.isEmpty then .wrongUsage else .command (command name)
    | none => .wrongUsage
  | word :: rest =>
    if !verbatim && word = "--" then onFile command file true rest
    else if !verbatim && isOption word then
      if asksForHelp word && file != some "" then .help else .wrongUsage
    else
      match file with
      | some _ => .wrongUsage
      | none => onFile command (some word) verbatim rest

/-- A session with the options which the words give; the prompt at most once. -/
def withPrompt (prompt : Option String) : List String → Request
  | [] => .command (.repl (prompt.getD defaultPrompt))
  | ["--"] => .command (.repl (prompt.getD defaultPrompt))
  | "--prompt" :: value :: rest =>
    if isOption value || prompt.isSome then .wrongUsage else withPrompt (some value) rest
  | word :: rest =>
    match attachedPrompt? word with
    | some value => if prompt.isSome then .wrongUsage else withPrompt (some value) rest
    | none => if asksForHelp word then .help else .wrongUsage

def helpOn : List String → Request
  | [] => .help
  | [word] =>
    if ["tokenize", "parse", "run", "repl", "help"].contains word then .help
    else .wrongUsage
  | _ => .wrongUsage

/-- What the words on the command line amount to. Without a command there is a
session. -/
def request : List String → Request
  | [] => withPrompt none []
  | ["--"] => withPrompt none []
  | "tokenize" :: rest => onFile .tokenize none false rest
  | "parse" :: rest => onFile .parse none false rest
  | "run" :: rest => onFile .run none false rest
  | "repl" :: rest => withPrompt none rest
  | "help" :: rest => helpOn rest
  | word :: _ =>
    if asksForVersion word then .version
    else if asksForHelp word then .help
    else .wrongUsage

end ScriptLang.CommandLine
