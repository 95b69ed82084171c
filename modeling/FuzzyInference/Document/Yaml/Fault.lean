import FuzzyInference.Calendar
import FuzzyInference.Decimal.Numeral

/-!
# What is wrong with a YAML text

A text that has no structure is reported as no document. A text whose structure is in order may
still hold a scalar that looks like a value of a kind but is none; this ends the run.

* `Fault`: what is wrong;
* `Fault.message`: the wording.
-/

namespace FuzzyInference.Document.Yaml

/-- What is wrong with a text. -/
inductive Fault where
  /-- The text has no structure, or a part of it no meaning. -/
  | structural
  /-- A numbered escape beyond the last code point, with how many characters of the text have to be
  seen to tell. -/
  | codePoint (code seen : Nat)
  /-- A whole number to a base, without digits. -/
  | digitless (base : Nat)
  | numeral (fault : Decimal.NumeralFault)
  /-- A number with so many parts of sixty that doubles do not reach it. -/
  | tooLarge
  | time (fault : Calendar.Fault)
  deriving Repr, DecidableEq

namespace Fault

/-- The greatest number of an escape that is compared with those of characters. -/
def greatestCode : Nat := 0x7fffffff

/-- The wording of the fault; that of the structure is not told. -/
def message : Fault → String
  | .structural => ""
  | .codePoint code _ =>
    if code ≤ greatestCode then "chr() arg not in range(0x110000)"
    else "Python int too large to convert to C int"
  | .digitless base => s!"invalid literal for int() with base {base}: ''"
  | .numeral f => f.message
  | .tooLarge => "int too large to convert to float"
  | .time f => f.message

end Fault

end FuzzyInference.Document.Yaml
