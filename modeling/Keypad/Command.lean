import Keypad.Session

/-!
# The command line

What the arguments ask for, and the answer to them.
-/

namespace Keypad

/-- What a program run is asked to do. -/
inductive Command where
  | batch (format : Report.Format) (expressions : List String)
  | session (format : Report.Format)
  | version
  | usageError
deriving DecidableEq, Repr

namespace Command

/-- Expressions are evaluated; without any, key presses are read. -/
def ofExpressions (format : Report.Format) : List String → Command
  | [] => session format
  | expressions => batch format expressions

/-- Reads arguments from left to right, after a format and expressions. The first option that is
    unknown, given twice, or asks for the version decides. A lone dash is an expression, and so is
    everything behind `--`. -/
def read (format : Report.Format) (expressions : List String) : List String → Command
  | [] => ofExpressions format expressions
  | argument :: later =>
    if argument = "--" then ofExpressions format (expressions ++ later)
    else if argument = "-" ∨ argument.toList.head? ≠ some '-' then
      read format (expressions ++ [argument]) later
    else if argument = "--version" ∨ argument.toList.take 2 = ['-', 'V'] then version
    else if argument = "--json" ∧ format = .plain then read .json expressions later
    else usageError

def ofArguments (arguments : List String) : Command :=
  read .plain [] arguments

/-- An exit status with what goes to the two outputs. -/
structure Response where
  status : UInt8
  output : String
  errorOutput : String
deriving DecidableEq, Repr

def versionText : String := "keycalc 0.1.0\n"

/-- The end of a session that was complete or not. -/
def sessionEnd (complete : Bool) : UInt8 × String :=
  if complete then (0, "") else (2, "keycalc: " ++ Session.unreadable ++ "\n")

/-- The answer to a command, given the bytes that can be read. -/
def respond (command : Command) (input : List UInt8) : Response :=
  match command with
  | batch format expressions =>
    ⟨if Report.batchSucceeds format expressions then 0 else 1, Report.batch format expressions, ""⟩
  | session format =>
    let transcript := Session.run .empty input
    let (status, errorOutput) := sessionEnd transcript.complete
    ⟨status, transcript.output format, errorOutput⟩
  | version => ⟨0, versionText, ""⟩
  | usageError => ⟨2, "", ""⟩

end Command

end Keypad
