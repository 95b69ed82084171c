import FuzzyInference.Text.Basic
import FuzzyInference.Text.Span

/-!
# Blank characters

The characters that count as blank in names, numbers and cells, and the trimming of text at both
ends.

* `blankSpans`, `isBlank`: the blank characters of Unicode 14, the four separators U+001C to
  U+001F among them;
* `trim`: the text without blank characters at its ends.
-/

namespace FuzzyInference.Text

/-- The blank code points. -/
def blankSpans : List Span := [
  ⟨0x9, 0xd⟩, ⟨0x1c, 0x20⟩, ⟨0x85, 0x85⟩, ⟨0xa0, 0xa0⟩, ⟨0x1680, 0x1680⟩,
  ⟨0x2000, 0x200a⟩, ⟨0x2028, 0x2029⟩, ⟨0x202f, 0x202f⟩, ⟨0x205f, 0x205f⟩, ⟨0x3000, 0x3000⟩]

/-- Whether `c` is blank. -/
def isBlank (c : Char) : Bool := Span.anyCovers blankSpans c.toNat

/-- The list without the items of a class at its end. -/
def dropEndWhile {β : Type} (p : β → Bool) (cs : List β) : List β :=
  (cs.reverse.dropWhile p).reverse

/-- The list without the items of a class at both ends. -/
def trimWith {β : Type} (p : β → Bool) (cs : List β) : List β :=
  dropEndWhile p (cs.dropWhile p)

/-- The text without blank characters at its ends. -/
def trim (t : Text) : Text := ofList (trimWith (·.is isBlank) t.toList)

end FuzzyInference.Text
