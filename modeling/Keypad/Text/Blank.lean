import Keypad.Text.Run

/-!
# Blanks and words

Blanks are the characters with the Unicode property `White_Space`. Words are the maximal stretches
of other characters.
-/

namespace Keypad.Text

/-- The characters with the Unicode property `White_Space`. -/
def blanks : List Char :=
  ['\t', '\n', '\x0b', '\x0c', '\r', ' ', '\u0085', '\u00a0', '\u1680', '\u2000', '\u2001',
    '\u2002', '\u2003', '\u2004', '\u2005', '\u2006', '\u2007', '\u2008', '\u2009', '\u200a',
    '\u2028', '\u2029', '\u202f', '\u205f', '\u3000']

def isBlank (c : Char) : Bool :=
  blanks.contains c

/-- The words of a text, in order. -/
def words (text : List Char) : List (List Char) :=
  ((Run.split (fun left right => isBlank left == isBlank right) text).filter
    (fun run => !isBlank run.first)).map Run.toList

end Keypad.Text
