import ScriptLang.CommandLine.Response

/-!
The program on the command line. It reads the file or the lines that a request
needs and writes the response; a session is held line by line as the user enters
them.
-/

namespace ScriptLang.CommandLine

def readContent (name : String) : IO (Option (List UInt8)) := do
  try
    let content ← IO.FS.readBinFile name
    pure (some content.data.toList)
  catch _ => pure none

partial def readLine (input : IO.FS.Stream) (line : ByteArray) : IO ByteArray := do
  let byte ← input.read 1
  if byte.isEmpty then pure line
  else
    let line := line ++ byte
    if byte.data.toList = [0x0A] then pure line else readLine input line

partial def converse (settings : Settings) (prompt : String) (i : Interpreter)
    (input output : IO.FS.Stream) : IO Status := do
  output.putStr prompt
  output.flush
  let bytes ← readLine input ByteArray.empty
  match Text.lines bytes.data.toList with
  | [] => pure .success
  | none :: _ =>
    IO.eprintln "the input cannot be read as text"
    pure .unreadable
  | some line :: _ =>
    if Repl.isExit line then pure .success
    else
      let (turn, next) := Repl.turn settings i line
      output.putStr (printedText settings.order turn.printed ++ turn.written)
      converse settings prompt next input output

def deliver (r : Response) : IO UInt32 := do
  IO.print r.output
  IO.eprint r.complaint
  pure r.status.exitCode

end ScriptLang.CommandLine

open ScriptLang.CommandLine in
def main (words : List String) : IO UInt32 := do
  let settings := ScriptLang.Settings.standard
  match request words with
  | .command (.repl prompt) =>
    IO.print greeting
    let status ← converse settings prompt .start (← IO.getStdin) (← IO.getStdout)
    pure status.exitCode
  | other =>
    let content ←
      match other.file? with
      | some name => readContent name
      | none => pure none
    deliver (respond settings (fun _ => content) [] other)
