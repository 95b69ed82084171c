import FuzzyInference.Text.Basic
import FuzzyInference.Text.Lowercase.Table

/-!
# Lower case

Names, keywords and rule texts are compared in lower case. Three kinds of characters have a rule of
their own: the dotted capital I becomes two characters, the capital sigma becomes a final sigma
where a word ends on it, and all others are replaced by their partner in the table.

* `lowerChar`: the partner of one character, itself if it has none;
* `endsWord`: whether a capital sigma between two texts stands at the end of a word;
* `lowercase`: the text in lower case.
-/

namespace FuzzyInference.Text

/-- The lower-case partner of `c` in the table, `c` itself if it has none. -/
def lowerChar (c : Char) : Char :=
  let n := c.toNat
  match caseRuns.find? fun r => r.first ≤ n && n ≤ r.last && (n - r.first) % r.step == 0 with
  | some r => Char.ofNat ((n : Int) + r.shift).toNat
  | none => c

/-- Whether the final-sigma rule passes over `c`. -/
def isCaseIgnorable (c : Char) : Bool := Span.anyCovers caseIgnorableSpans c.toNat

/-- Whether `c` is a cased character that the final-sigma rule sees. -/
def isCased (c : Char) : Bool := Span.anyCovers casedSpans c.toNat

/-- Whether the first character that is not passed over is cased. -/
def meetsCased (cs : List CodePoint) : Bool :=
  (cs.dropWhile (·.is isCaseIgnorable)).head?.any (·.is isCased)

/-- A capital sigma ends a word if a cased character comes before it and none after it. The text
before it is given last code point first. -/
def endsWord (before after : List CodePoint) : Bool := meetsCased before && !meetsCased after

/-- The lower-case form of a code point between two texts, the first given last one first. -/
def lowerAt (before : List CodePoint) (c : CodePoint) (after : List CodePoint) :
    List CodePoint :=
  match c with
  | .half _ => [c]
  | .char c =>
    if c = '\u0130' then ['i', '\u0307']
    else if c = '\u03a3' then [if endsWord before after then '\u03c2' else '\u03c3']
    else [lowerChar c]

/-- The lower-case form of a text that follows another one, given last code point first. -/
def lowerAfter (before : List CodePoint) : List CodePoint → List CodePoint
  | [] => []
  | c :: after => lowerAt before c after ++ lowerAfter (c :: before) after

/-- The text in lower case. -/
def lowercase (t : Text) : Text := ofList (lowerAfter [] t.toList)

end FuzzyInference.Text
