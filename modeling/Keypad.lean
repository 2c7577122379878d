import Keypad.Decimal.ReadBack
import Keypad.Expression.Chain
import Keypad.Json.Reader
import Keypad.Main
import Keypad.Proofs.Canonical.FixedPoints
import Keypad.Proofs.Canonical.Rewriting
import Keypad.Proofs.Display.Continuation
import Keypad.Proofs.Display.Erasure
import Keypad.Proofs.Display.ErrorFlag
import Keypad.Proofs.Display.Recalculation
import Keypad.Proofs.Evaluation.Acceptance
import Keypad.Proofs.Evaluation.Characters
import Keypad.Proofs.Evaluation.FirstFault
import Keypad.Proofs.Evaluation.Group
import Keypad.Proofs.Evaluation.Numbers
import Keypad.Proofs.Formula.RoundTrip
import Keypad.Proofs.Json.Printable
import Keypad.Proofs.Postfix.Chain
import Keypad.Proofs.Postfix.Decoding
import Keypad.Proofs.Postfix.Groups
import Keypad.Proofs.Postfix.Nesting
import Keypad.Proofs.Postfix.Rearrangement
import Keypad.Proofs.Postfix.Substitution
import Keypad.Proofs.Report.Batch
import Keypad.Proofs.Session.Batch
import Keypad.Proofs.Session.ErrorFlag
import Keypad.Proofs.Session.Framing
import Keypad.Proofs.Session.Typing
import Keypad.Proofs.Token.Composition
import Keypad.Proofs.Token.Failures
import Keypad.Proofs.Token.Spans
import Keypad.Proofs.Token.Tiling
import Keypad.Proofs.Token.Unspaced
