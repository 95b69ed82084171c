import FuzzyInference.Text.CodePoint

/-!
# Texts

Names, rules, paths and messages are texts: rows of code points. A string is a text without halves.

* `Text`: the code points in order;
* `Text.ofString`, `Text.string?`: strings as texts, and back;
* `Text.join`, `Text.concat`: several texts put together;
* `Text.startsWith`, `Text.endsWith`, `Text.map`, `Text.splitOn`: as for strings;
* `Text.le`: the order of texts.
-/

namespace FuzzyInference

/-- A text: its code points in order. -/
structure Text where
  toList : List CodePoint
  deriving Repr, DecidableEq

namespace Text

def ofList (cs : List CodePoint) : Text := ⟨cs⟩

/-- The text without code points. -/
def empty : Text := ⟨[]⟩

/-- The text of characters. -/
def ofChars (cs : List Char) : Text := ⟨cs.map .char⟩

/-- The text of a string. -/
def ofString (s : String) : Text := ofChars s.toList

instance : Coe String Text := ⟨ofString⟩

instance : Append Text := ⟨fun s t => ⟨s.toList ++ t.toList⟩⟩

/-- The characters of the text, if it holds no half. -/
def chars? (t : Text) : Option (List Char) := t.toList.mapM (·.char?)

/-- The string that the text is, if it holds no half. -/
def string? (t : Text) : Option String := t.chars?.map String.ofList

/-- The text as a string, each half replaced by the mark for what cannot be shown. -/
def shown (t : Text) : String := String.ofList (t.toList.map fun c => c.char?.getD '\ufffd')

def isEmpty (t : Text) : Bool := t.toList.isEmpty

/-- How many code points the text has. -/
def length (t : Text) : Nat := t.toList.length

/-- Whether the text holds a character. -/
def contains (t : Text) (c : Char) : Bool := t.toList.contains (.char c)

def startsWith (t start : Text) : Bool := start.toList.isPrefixOf t.toList

def endsWith (t ending : Text) : Bool := ending.toList.isSuffixOf t.toList

/-- The text with each code point replaced. -/
def map (f : CodePoint → CodePoint) (t : Text) : Text := ⟨t.toList.map f⟩

/-- The parts of the text between the places where a character stands. -/
def splitOn (t : Text) (c : Char) : List Text := (t.toList.splitOn (.char c)).map ofList

/-- The texts one after the other. -/
def concat (ts : List Text) : Text := ⟨ts.flatMap (·.toList)⟩

/-- The texts one after the other with a text between each two of them. -/
def join (between : Text) (ts : List Text) : Text :=
  ⟨between.toList.intercalate (ts.map (·.toList))⟩

/-- Whether rows of code points are in order: the first two that differ tell by their numbers, and
a row comes before those that go on behind its end. -/
def inOrder : List CodePoint → List CodePoint → Bool
  | [], _ => true
  | _ :: _, [] => false
  | a :: as, b :: bs => if a = b then inOrder as bs else decide (a.number < b.number)

/-- Whether two texts are in order. -/
def le (s t : Text) : Bool := inOrder s.toList t.toList

@[simp] theorem toList_ofList (cs : List CodePoint) : (ofList cs).toList = cs := rfl

@[simp] theorem toList_append (s t : Text) : (s ++ t).toList = s.toList ++ t.toList := rfl

end Text

end FuzzyInference
