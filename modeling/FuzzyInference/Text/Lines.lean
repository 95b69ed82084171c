import FuzzyInference.Text.Basic

/-!
# Lines

* `isLineBreak`, `lines`: a text cut at every line break of Unicode; a carriage return with a line
  feed after it is one break, and a break at the end of the text opens no further line;
* `unifyLineEnds`: the string with every carriage return, with the line feed after it if there is
  one, replaced by a line feed.
-/

namespace FuzzyInference.Text

/-- Whether `c` alone breaks a line. -/
def isLineBreak (c : Char) : Bool :=
  c == '\n' || c == '\r' || c == '\x0b' || c == '\x0c' || c == '\x1c' || c == '\x1d' ||
    c == '\x1e' || c == '\u0085' || c == '\u2028' || c == '\u2029'

/-- The lines of a text, the current one given last character first. -/
def linesFrom (line : List CodePoint) : List CodePoint → List (List CodePoint)
  | [] => if line.isEmpty then [] else [line.reverse]
  | .char '\r' :: .char '\n' :: rest => line.reverse :: linesFrom [] rest
  | c :: rest =>
    if c.is isLineBreak then line.reverse :: linesFrom [] rest else linesFrom (c :: line) rest

/-- The lines of a text without their breaks. -/
def lines (t : Text) : List Text := (linesFrom [] t.toList).map ofList

/-- The characters with every line end written as a line feed. -/
def unifyLineEndsList : List Char → List Char
  | [] => []
  | '\r' :: '\n' :: rest => '\n' :: unifyLineEndsList rest
  | c :: rest => (if c = '\r' then '\n' else c) :: unifyLineEndsList rest

/-- The string with every line end written as a line feed. -/
def unifyLineEnds (s : String) : String := String.ofList (unifyLineEndsList s.toList)

end FuzzyInference.Text
