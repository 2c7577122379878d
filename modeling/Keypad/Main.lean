import Keypad.Command

/-!
# The program

Reads bytes, writes texts and sets the exit status.
-/

namespace Keypad

/-- Reads up to a newline or the end of the input. -/
partial def readRawLine (input : IO.FS.Stream) (line : ByteArray) : IO ByteArray := do
  let chunk ← input.read 1
  let line := line ++ chunk
  if chunk.isEmpty || chunk.toList.contains Session.newline then return line
  else readRawLine input line

/-- Shows the display after every line as soon as it is read, and tells whether all lines were
    read. -/
partial def interact (format : Report.Format) (display : Display) : IO Bool := do
  let rawLine ← readRawLine (← IO.getStdin) .empty
  if rawLine.isEmpty then return true
  match Session.pressRawLine? display rawLine.toList with
  | none => return false
  | some next =>
    let output ← IO.getStdout
    output.putStr (Report.ofLines [Report.ofDisplay format next])
    output.flush
    interact format next

end Keypad

def main (arguments : List String) : IO UInt32 := do
  match Keypad.Command.ofArguments arguments with
  | .session format =>
    let (status, errorOutput) := Keypad.Command.sessionEnd (← Keypad.interact format .empty)
    IO.eprint errorOutput
    return status.toUInt32
  | command =>
    let response := command.respond []
    IO.print response.output
    IO.eprint response.errorOutput
    return response.status.toUInt32
