import Keypad.Report
import Keypad.Text.Blank

/-!
# Sessions

A session reads key presses line by line and shows the display after each line. It ends where the
input ends, or before the first line that is not UTF-8.
-/

namespace Keypad.Session

/-- A word that is the label of a control key presses that key. In any other word every character is
    a key. -/
def wordKeys (word : List Char) : List Key :=
  match Key.ofLabel (String.ofList word) with
  | .input _ => word.map Key.ofChar
  | key => [key]

/-- The keys of a line. -/
def lineKeys (line : String) : List Key :=
  (Text.words line.toList).flatMap wordKeys

def newline : UInt8 := 0x0A

def carriageReturn : UInt8 := 0x0D

/-- Cuts the input behind every newline. -/
def rawLines (input : List UInt8) : List (List UInt8) :=
  (Run.split (fun byte _ => byte != newline) input).map Run.toList

/-- A line without its newline and one carriage return before it. -/
def content (rawLine : List UInt8) : List UInt8 :=
  if rawLine.getLast? = some newline then
    let line := rawLine.dropLast
    if line.getLast? = some carriageReturn then line.dropLast else line
  else rawLine

/-- The text of a line, if it is UTF-8. -/
def decode? (rawLine : List UInt8) : Option String :=
  String.fromUTF8? (ByteArray.mk (content rawLine).toArray)

/-- The display after a line. -/
def pressLine (display : Display) (line : String) : Display :=
  display.pressAll (lineKeys line)

/-- The display after a line that was read, if the line is UTF-8. -/
def pressRawLine? (display : Display) (rawLine : List UInt8) : Option Display :=
  (decode? rawLine).map (pressLine display)

theorem pressRawLine?_eq_some {rawLine : List UInt8} {line : String}
    (decoded : decode? rawLine = some line) (display : Display) :
    pressRawLine? display rawLine = some (pressLine display line) := by
  rw [pressRawLine?, decoded, Option.map_some]

theorem pressRawLine?_eq_none {rawLine : List UInt8} (unreadable : decode? rawLine = none)
    (display : Display) : pressRawLine? display rawLine = none := by
  rw [pressRawLine?, unreadable, Option.map_none]

/-- The displays shown, and whether the whole input was read. -/
structure Transcript where
  displays : List Display
  complete : Bool
deriving DecidableEq, Repr

/-- The transcript of lines from a state of the display on. -/
def ofRawLines (display : Display) : List (List UInt8) → Transcript
  | [] => ⟨[], true⟩
  | rawLine :: later =>
    match pressRawLine? display rawLine with
    | none => ⟨[], false⟩
    | some next =>
      let rest := ofRawLines next later
      ⟨next :: rest.displays, rest.complete⟩

/-- The transcript of an input. -/
def run (display : Display) (input : List UInt8) : Transcript :=
  ofRawLines display (rawLines input)

/-- What a session prints. -/
def Transcript.output (format : Report.Format) (transcript : Transcript) : String :=
  Report.ofLines (transcript.displays.map (Report.ofDisplay format))

/-- The message for an input that is not UTF-8. -/
def unreadable : String :=
  "failed to read from stdin: stream did not contain valid UTF-8"

end Keypad.Session
