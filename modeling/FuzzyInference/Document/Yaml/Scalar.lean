import FuzzyInference.Document.Yaml.Cursor
import FuzzyInference.Document.Yaml.Fault
import FuzzyInference.Text.Basic

/-!
# Scalars of a YAML text

* `Scalar`: a scalar without quotes, or one between quotes;
* `plain`: the scalar without quotes at a place, which may go on over several lines;
* `quoted`: the scalar between quotes at a place, whose escapes may stand for halves.

A line end inside a scalar counts as a space; further line ends after it are kept.
-/

namespace FuzzyInference.Document.Yaml

/-- A scalar. What stands without quotes is a string that may be that of a value. -/
inductive Scalar where
  | plain (s : String)
  | quoted (t : Text)
  deriving Repr, DecidableEq

/-- What a fold of lines contributes: the first line end is a space unless more follow. -/
def folded (first : Char) (more : List Char) : List Char :=
  if breakChar first ≠ '\n' then breakChar first :: more
  else if more.isEmpty then [' '] else more

/-! ### Plain scalars -/

/-- Whether a plain scalar ends before `c` and the text behind it. -/
def endsPlain (inFlow : Bool) (c : Char) (rest : List Char) : Bool :=
  isGap c ||
    (c == ':' &&
      (beginsWithGap rest || (inFlow && rest.head?.any (",[]\x7b\x7d".toList.contains ·)))) ||
    (inFlow && ",?[]\x7b\x7d".toList.contains c)

/-- The characters up to where a plain scalar ends or has a space. -/
def plainRun (inFlow : Bool) : List Char → List Char
  | [] => []
  | c :: rest => if endsPlain inFlow c rest then [] else c :: plainRun inFlow rest

/-- What stands between two runs of a plain scalar; without text the scalar ends. -/
structure PlainGap where
  text : List Char
  newLine : Bool
  cursor : Cursor

/-- The lines behind the first line end of a gap, up to a mark of a document. -/
def plainBreaks (fuel : Nat) (first : Char) (more : List Char) (c : Cursor) : PlainGap :=
  match fuel, c.rest with
  | fuel + 1, ch :: _ =>
    if ch = ' ' then plainBreaks fuel first more c.advance
    else if isBreak ch then
      let more := more ++ [breakChar ch]
      if beginsWithDocumentMark c.advance.rest then ⟨[], true, c.advance⟩
      else plainBreaks fuel first more c.advance
    else ⟨folded first more, true, c⟩
  | _, _ => ⟨folded first more, true, c⟩

/-- The gap at the cursor. -/
def plainGap (c : Cursor) : PlainGap :=
  let behind := c.dropWhile (· == ' ')
  match behind.rest with
  | ch :: _ =>
    if isBreak ch then
      let next := behind.advance
      if beginsWithDocumentMark next.rest then ⟨[], true, next⟩
      else plainBreaks (next.rest.length + 1) ch [] next
    else ⟨c.rest.takeWhile (· == ' '), false, behind⟩
  | [] => ⟨c.rest.takeWhile (· == ' '), false, behind⟩

/-- A plain scalar whose lines are indented by at least `indent`: its text, whether it ends behind
a line end, and the cursor behind it. `done` holds what was read, last character first. -/
def plainFrom (inFlow : Bool) (indent : Int) (fuel : Nat) (done gap : List Char) (newLine : Bool)
    (c : Cursor) : List Char × Bool × Cursor :=
  match fuel with
  | 0 => (done.reverse, newLine, c)
  | fuel + 1 =>
    if c.rest.head? = some '#' then (done.reverse, newLine, c)
    else
      let run := plainRun inFlow c.rest
      if run.isEmpty then (done.reverse, newLine, c)
      else
        let done := run.reverse ++ (gap.reverse ++ done)
        let g := plainGap (c.drop run.length)
        if g.text.isEmpty || g.cursor.rest.head? = some '#' ||
            (!inFlow && (g.cursor.column : Int) < indent) then
          (done.reverse, g.newLine, g.cursor)
        else plainFrom inFlow indent fuel done g.text g.newLine g.cursor

/-- The plain scalar at the cursor. -/
def plain (inFlow : Bool) (indent : Int) (c : Cursor) : List Char × Bool × Cursor :=
  plainFrom inFlow indent (c.rest.length + 1) [] [] false c

/-! ### Quoted scalars -/

/-- The characters that letters behind a backslash stand for. -/
def escapes : List (Char × Char) := [
  ('0', '\x00'), ('a', '\x07'), ('b', '\x08'), ('t', '\t'), ('\t', '\t'), ('n', '\n'),
  ('v', '\x0b'), ('f', '\x0c'), ('r', '\r'), ('e', '\x1b'), (' ', ' '), ('"', '"'),
  ('\\', '\\'), ('/', '/'), ('N', '\u0085'), ('_', '\u00a0'), ('L', '\u2028'), ('P', '\u2029')]

/-- How many hexadecimal digits a letter behind a backslash announces. -/
def escapeLength? (c : Char) : Option Nat :=
  if c = 'x' then some 2 else if c = 'u' then some 4 else if c = 'U' then some 8 else none

/-- The value of hexadecimal digits. -/
def hexValue? (cs : List Char) : Option Nat :=
  cs.foldlM
    (fun n c =>
      if '0' ≤ c ∧ c ≤ '9' then some (16 * n + (c.toNat - 48))
      else if 'a' ≤ c ∧ c ≤ 'f' then some (16 * n + (c.toNat - 87))
      else if 'A' ≤ c ∧ c ≤ 'F' then some (16 * n + (c.toNat - 55))
      else none)
    0

/-- The line ends at the cursor with the spaces between them; a mark of a document must not
come. -/
def quotedBreaks (fuel : Nat) (done : List Char) (c : Cursor) :
    Except Fault (List Char × Cursor) :=
  match fuel with
  | 0 => .error .structural
  | fuel + 1 =>
    if beginsWithDocumentMark c.rest then .error .structural
    else
      let c := c.dropWhile fun ch => ch == ' ' || ch == '\t'
      match c.rest with
      | ch :: _ =>
        if isBreak ch then quotedBreaks fuel (done ++ [breakChar ch]) c.advance
        else .ok (done, c)
      | [] => .ok (done, c)

/-- What an escape stands for; the cursor is behind its backslash. -/
def escape (c : Cursor) : Except Fault (List CodePoint × Cursor) :=
  match c.rest with
  | [] => .error .structural
  | ch :: digits =>
    match escapes.lookup ch with
    | some decoded => .ok ([decoded], c.advance)
    | none =>
      match escapeLength? ch with
      | some n =>
        if digits.length < n then .error .structural
        else
          match hexValue? (digits.take n) with
          | some code =>
            if code < 0x110000 then .ok ([.ofNumber code], c.drop (n + 1))
            else .error (.codePoint code (c.index + n + 1))
          | none => .error .structural
      | none =>
        if isBreak ch then
          (quotedBreaks (c.rest.length + 1) [] c.advance).map fun (more, c) =>
            (more.map .char, c)
        else .error .structural

/-- The spaces and line ends at the cursor. -/
def quotedGap (c : Cursor) : Except Fault (List Char × Cursor) :=
  let isSpace (ch : Char) : Bool := ch == ' ' || ch == '\t'
  let behind := c.dropWhile isSpace
  match behind.rest with
  | [] => .error .structural
  | ch :: _ =>
    if isBreak ch then
      (quotedBreaks (behind.rest.length + 1) [] behind.advance).map fun (more, c) =>
        (folded ch more, c)
    else .ok (c.rest.takeWhile isSpace, behind)

/-- The rest of a scalar that was opened by `quote`, and the cursor behind it; `done` holds what was
read, last code point first. -/
def quotedFrom (quote : Char) (fuel : Nat) (done : List CodePoint) (c : Cursor) :
    Except Fault (List CodePoint × Cursor) :=
  match fuel, c.rest with
  | 0, _ | _, [] => .error .structural
  | fuel + 1, ch :: rest =>
    if ch = quote then
      if quote = '\'' ∧ rest.head? = some '\'' then
        quotedFrom quote fuel (.char '\'' :: done) (c.drop 2)
      else .ok (done.reverse, c.advance)
    else if isGap ch then
      match quotedGap c with
      | .ok (gap, c) => quotedFrom quote fuel ((gap.map .char).reverse ++ done) c
      | .error f => .error f
    else if ch = '\\' ∧ quote = '"' then
      match escape c.advance with
      | .ok (decoded, c) => quotedFrom quote fuel (decoded.reverse ++ done) c
      | .error f => .error f
    else quotedFrom quote fuel (.char ch :: done) c.advance

/-- The quoted scalar at the cursor, which stands before its opening quote. -/
def quoted (quote : Char) (c : Cursor) : Except Fault (List CodePoint × Cursor) :=
  quotedFrom quote (c.rest.length + 1) [] c.advance

end FuzzyInference.Document.Yaml
