import FuzzyInference.Text.Basic

/-!
# Words of a line

A line is cut into words at blanks. Quotes and backslashes keep characters together, and `#` starts
a comment, also in the middle of a word.

* `Mode`, `Scan.step`: what the scan stands in and what one character does to it;
* `words`: the words of a line, or why it has none.
-/

namespace FuzzyInference.Text.Words

/-- A line that ends too early. -/
inductive Fault where
  | openQuote
  | openEscape
  deriving Repr, DecidableEq

/-- The wording of the fault. -/
def Fault.message : Fault → String
  | .openQuote => "No closing quotation"
  | .openEscape => "No escaped character"

/-- Where the scan stands. -/
inductive Mode where
  /-- Between two words. -/
  | gap
  /-- In a word. -/
  | word
  /-- After the opening quote `q`. -/
  | quoted (q : Char)
  /-- After a backslash outside quotes. -/
  | escaped
  /-- After a backslash between quotes `q`. -/
  | escapedIn (q : Char)
  /-- Behind the start of a comment. -/
  | comment
  deriving Repr, DecidableEq

/-- The state of the scan: the words so far, last one first, the characters of the current word,
last one first, and whether a quote has opened in it. -/
structure Scan where
  mode : Mode
  done : List Text
  current : List CodePoint
  quoted : Bool

namespace Scan

def init : Scan := ⟨.gap, [], [], false⟩

/-- Closes the current word. A word without characters counts only if it was quoted. -/
def close (s : Scan) (mode : Mode) : Scan :=
  if s.current.isEmpty && !s.quoted then { s with mode }
  else ⟨mode, Text.ofList s.current.reverse :: s.done, [], false⟩

def push (s : Scan) (mode : Mode) (c : CodePoint) : Scan :=
  { s with mode, current := c :: s.current }

/-- Only these four characters separate words. -/
def isSeparator (c : Char) : Bool := c == ' ' || c == '\t' || c == '\r' || c == '\n'

/-- The scan after one more character. Between double quotes a backslash keeps its meaning only
before a double quote or another backslash; between single quotes it is an ordinary character. -/
def step (s : Scan) (c : CodePoint) : Scan :=
  match s.mode with
  | .gap | .word =>
    if c.is isSeparator then s.close .gap
    else if c = '#' then s.close .comment
    else if c = '\\' then { s with mode := .escaped }
    else if c = '\'' then { s with mode := .quoted '\'', quoted := true }
    else if c = '"' then { s with mode := .quoted '"', quoted := true }
    else s.push .word c
  | .quoted q =>
    if c = q then { s with mode := .word }
    else if c = '\\' && q = '"' then { s with mode := .escapedIn q }
    else s.push (.quoted q) c
  | .escaped => s.push .word c
  | .escapedIn q =>
    if c = '\\' || c = q then s.push (.quoted q) c
    else (s.push (.quoted q) '\\').push (.quoted q) c
  | .comment => if c = '\n' then { s with mode := .gap } else s

/-- The words of a scan that has reached the end of the line. -/
def finish (s : Scan) : Except Fault (List Text) :=
  match s.mode with
  | .gap | .word | .comment => .ok (s.close .gap).done.reverse
  | .quoted _ => .error .openQuote
  | .escaped | .escapedIn _ => .error .openEscape

end Scan

/-- The words of a line. -/
def split (line : Text) : Except Fault (List Text) :=
  (line.toList.foldl Scan.step Scan.init).finish

end FuzzyInference.Text.Words
