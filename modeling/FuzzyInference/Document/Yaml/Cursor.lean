/-!
# Places in a YAML text

* the classes of characters that end lines and words;
* `Cursor`: the text that is left, and the line and column where it begins;
* `Cursor.advance`, `Cursor.drop`: the cursor behind one character and behind several.
-/

namespace FuzzyInference.Document.Yaml

/-- Whether a text may hold `c`. -/
def isAllowed (c : Char) : Bool :=
  let n := c.toNat
  n = 0x9 || n = 0xa || n = 0xd || (0x20 ≤ n && n ≤ 0x7e) || n = 0x85 ||
    (0xa0 ≤ n && n ≤ 0xfffd) || 0x10000 ≤ n

/-- Whether `c` ends a line. -/
def isBreak (c : Char) : Bool :=
  c == '\n' || c == '\r' || c == '\u0085' || c == '\u2028' || c == '\u2029'

/-- Whether `c` is a space or tab, or ends a line. -/
def isGap (c : Char) : Bool := c == ' ' || c == '\t' || isBreak c

/-- What a line end contributes to a text: the two separators stay, the others become a line
feed. -/
def breakChar (c : Char) : Char := if c == '\u2028' || c == '\u2029' then c else '\n'

/-- Whether the text is at its end, or begins with a space, tab or line end. -/
def beginsWithGap : List Char → Bool
  | [] => true
  | c :: _ => isGap c

/-- Whether the text begins with three characters `c` that stand alone. -/
def beginsWithMark (c : Char) : List Char → Bool
  | c₁ :: c₂ :: c₃ :: rest => c₁ == c && c₂ == c && c₃ == c && beginsWithGap rest
  | _ => false

/-- Whether the text begins with the mark of the start or the end of a document. -/
def beginsWithDocumentMark (cs : List Char) : Bool :=
  beginsWithMark '-' cs || beginsWithMark '.' cs

/-- A place in a text. -/
structure Cursor where
  rest : List Char
  index : Nat
  line : Nat
  column : Nat
  deriving Repr, DecidableEq

namespace Cursor

def ofText (cs : List Char) : Cursor := ⟨cs, 0, 0, 0⟩

/-- The cursor behind one character. -/
def advance (c : Cursor) : Cursor :=
  match c.rest with
  | [] => c
  | ch :: rest =>
    if isBreak ch then ⟨rest, c.index + 1, c.line + 1, 0⟩
    else if ch = '\ufeff' then ⟨rest, c.index + 1, c.line, c.column⟩
    else ⟨rest, c.index + 1, c.line, c.column + 1⟩

/-- The cursor behind `n` characters. -/
def drop (c : Cursor) (n : Nat) : Cursor := Nat.repeat advance n c

/-- The cursor behind the characters of a class. -/
def dropWhile (p : Char → Bool) (c : Cursor) : Cursor := c.drop (c.rest.takeWhile p).length

end Cursor

end FuzzyInference.Document.Yaml
