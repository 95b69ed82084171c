import FuzzyInference.Document.Yaml.Scalar

/-!
# Tokens of a YAML text

Brackets, commas, dashes, colons and scalars are tokens as they stand. Two more follow from the
layout: the start and the end of a block, which the columns tell, and the start of a key, which
only the colon behind it tells. Where a key may start the scan leaves a slot, and the colon fills
it.

* `Token`; `Piece`: a token or a slot;
* `Scan`: the state of the scan;
* `Scan.step`, `Scan.run`: one more token, and all of them;
* `tokensOf`: the tokens of a text, up to the first fault.
-/

namespace FuzzyInference.Document.Yaml

/-- What a text is made of. -/
inductive Token where
  | documentStart
  | documentEnd
  | blockList
  | blockMapping
  | blockEnd
  | openList
  | closeList
  | openMapping
  | closeMapping
  | dash
  | comma
  | key
  | value
  | scalar (s : Scalar)
  deriving Repr, DecidableEq

/-- A token, or a place where a key may start. -/
inductive Piece where
  | token (t : Token)
  | slot (n : Nat)
  deriving Repr, DecidableEq

/-- A place where a key may start. A key that is required must find its colon. -/
structure Candidate where
  slot : Nat
  required : Bool
  index : Nat
  line : Nat
  column : Nat
  deriving Repr, DecidableEq

/-- The state of the scan: the place, the column of the current block and of those around it, the
depth of brackets, whether a key may start here, the candidates by depth, the pieces so far,
newest first, and the slots that were filled, each with whether its key opens a block. -/
structure Scan where
  cursor : Cursor
  indent : Int
  outer : List Int
  depth : Nat
  keyAllowed : Bool
  candidates : List (Nat × Candidate)
  pieces : List Piece
  slots : Nat
  filled : List (Nat × Bool)

namespace Scan

def ofCursor (c : Cursor) : Scan :=
  { cursor := c, indent := -1, outer := [], depth := 0, keyAllowed := true,
    candidates := [], pieces := [], slots := 0, filled := [] }

def push (s : Scan) (t : Token) : Scan := { s with pieces := .token t :: s.pieces }

/-- Pushes a token of `n` characters and goes behind it. -/
def take (s : Scan) (t : Token) (n : Nat) : Scan :=
  { s.push t with cursor := s.cursor.drop n }

/-! ### Blanks and comments -/

/-- Goes to the next character that is neither space nor part of a comment nor a line end. Behind
a line end outside brackets a key may start. -/
def skip (fuel : Nat) (s : Scan) : Scan :=
  match fuel with
  | 0 => s
  | fuel + 1 =>
    let c := s.cursor.dropWhile (· == ' ')
    let c := if c.rest.head? = some '#' then c.dropWhile (!isBreak ·) else c
    let s := { s with cursor := c }
    if c.rest.head?.any isBreak then
      skip fuel { s with cursor := c.advance, keyAllowed := s.keyAllowed || s.depth = 0 }
    else s

/-! ### Blocks -/

/-- Closes the blocks that lie further right than `column`. -/
def unwindFrom (column : Int) (s : Scan) : List Int → Scan
  | [] => s
  | i :: rest =>
    if column < s.indent then
      unwindFrom column { s.push .blockEnd with indent := i, outer := rest } rest
    else s

def unwind (s : Scan) (column : Int) : Scan :=
  if s.depth ≠ 0 then s else unwindFrom column s s.outer

/-- Opens a block at `column`, if that lies further right than the current one, and tells whether
it did. -/
def indentTo (s : Scan) (column : Nat) : Scan × Bool :=
  if s.indent < column then
    ({ s with indent := column, outer := s.indent :: s.outer }, true)
  else (s, false)

/-! ### Keys -/

/-- Gives up the candidates that lie on an earlier line or too far back. -/
def dropStale (s : Scan) : Except Fault Scan :=
  let isStale (k : Candidate) : Bool :=
    k.line ≠ s.cursor.line || 1024 < s.cursor.index - k.index
  if s.candidates.any fun (_, k) => isStale k && k.required then .error .structural
  else .ok { s with candidates := s.candidates.filter fun (_, k) => !isStale k }

/-- Gives up the candidate of the current depth. -/
def dropCandidate (s : Scan) : Except Fault Scan :=
  if (s.candidates.lookup s.depth).any (·.required) then .error .structural
  else .ok { s with candidates := s.candidates.filter (·.1 ≠ s.depth) }

/-- Leaves a slot if a key may start here. -/
def addCandidate (s : Scan) : Except Fault Scan :=
  if !s.keyAllowed then .ok s
  else
    match s.dropCandidate with
    | .error f => .error f
    | .ok s =>
      let required := s.depth = 0 && s.indent = s.cursor.column
      let k : Candidate :=
        ⟨s.slots, required, s.cursor.index, s.cursor.line, s.cursor.column⟩
      .ok { s with
        candidates := (s.depth, k) :: s.candidates
        pieces := .slot s.slots :: s.pieces
        slots := s.slots + 1 }

/-! ### Tokens -/

def allowKey (s : Scan) (allowed : Bool) : Scan := { s with keyAllowed := allowed }

/-- The mark of a document, which closes all blocks. -/
def documentMark (s : Scan) (t : Token) : Except Fault Scan := do
  let s ← (s.unwind (-1)).dropCandidate
  return (s.allowKey false).take t 3

/-- An opening bracket. -/
def openBracket (s : Scan) (t : Token) : Except Fault Scan := do
  let s ← s.addCandidate
  return ({ s with depth := s.depth + 1 }.allowKey true).take t 1

/-- A closing bracket. -/
def closeBracket (s : Scan) (t : Token) : Except Fault Scan := do
  let s ← s.dropCandidate
  if s.depth = 0 then .error .structural
  else return ({ s with depth := s.depth - 1 }.allowKey false).take t 1

/-- A comma between brackets. -/
def comma (s : Scan) : Except Fault Scan := do
  return (← (s.allowKey true).dropCandidate).take .comma 1

/-- The dash of an item. -/
def dash (s : Scan) : Except Fault Scan := do
  if s.depth = 0 && !s.keyAllowed then .error .structural
  else
    let s := if s.depth ≠ 0 then s
      else match s.indentTo s.cursor.column with
        | (s, true) => s.push .blockList
        | (s, false) => s
    return (← (s.allowKey true).dropCandidate).take .dash 1

/-- Opens a mapping at the cursor, outside brackets. -/
def mappingHere (s : Scan) : Except Fault Scan :=
  if s.depth ≠ 0 then .ok s
  else if !s.keyAllowed then .error .structural
  else match s.indentTo s.cursor.column with
    | (s, true) => .ok (s.push .blockMapping)
    | (s, false) => .ok s

/-- The mark of a key. -/
def keyMark (s : Scan) : Except Fault Scan := do
  let s ← s.mappingHere
  return (← (s.allowKey (s.depth = 0)).dropCandidate).take .key 1

/-- The colon of a value: it fills the slot of its key, if there is one. -/
def colon (s : Scan) : Except Fault Scan :=
  match s.candidates.lookup s.depth with
  | some k =>
    let s := { s with candidates := s.candidates.filter (·.1 ≠ s.depth) }
    let (s, opens) := if s.depth = 0 then s.indentTo k.column else (s, false)
    .ok (({ s with filled := (k.slot, opens) :: s.filled }.allowKey false).take .value 1)
  | none => do
    let s ← s.mappingHere
    return (← (s.allowKey (s.depth = 0)).dropCandidate).take .value 1

/-- A scalar between quotes. -/
def quotedScalar (s : Scan) (quote : Char) : Except Fault Scan := do
  let s ← s.addCandidate
  let (text, cursor) ← quoted quote s.cursor
  return { (s.allowKey false).push (.scalar (.quoted (.ofList text))) with cursor }

/-- A scalar without quotes. -/
def plainScalar (s : Scan) : Except Fault Scan := do
  let s ← s.addCandidate
  let (text, newLine, cursor) := plain (s.depth ≠ 0) (s.indent + 1) s.cursor
  return { (s.allowKey newLine).push (.scalar (.plain (String.ofList text))) with cursor }

/-- Whether a plain scalar begins with `c` before the text. -/
def beginsPlain (s : Scan) (c : Char) (rest : List Char) : Bool :=
  !(isGap c || "-?:,[]\x7b\x7d#&*!|>'\"%@\x60".toList.contains c) ||
    (!beginsWithGap rest && (c == '-' || (s.depth = 0 && (c == '?' || c == ':'))))

/-- The token that begins with `c`. Directives, anchors, tags and literal blocks are not read. -/
def token (s : Scan) (c : Char) (rest : List Char) : Except Fault Scan :=
  let alone := beginsWithGap rest
  if s.cursor.column = 0 && beginsWithMark '-' s.cursor.rest then s.documentMark .documentStart
  else if s.cursor.column = 0 && beginsWithMark '.' s.cursor.rest then s.documentMark .documentEnd
  else if c = '[' then s.openBracket .openList
  else if c = '\x7b' then s.openBracket .openMapping
  else if c = ']' then s.closeBracket .closeList
  else if c = '\x7d' then s.closeBracket .closeMapping
  else if c = ',' then s.comma
  else if c = '-' && alone then s.dash
  else if c = '?' && (s.depth ≠ 0 || alone) then s.keyMark
  else if c = ':' && (s.depth ≠ 0 || alone) then s.colon
  else if c = '\'' || c = '"' then s.quotedScalar c
  else if s.beginsPlain c rest then s.plainScalar
  else .error .structural

/-- One more token, and whether there was one. -/
def step (s : Scan) : Except Fault (Scan × Bool) := do
  let s := s.skip (s.cursor.rest.length + 1)
  let s ← s.dropStale
  match s.cursor.rest with
  | [] =>
    let s ← (s.unwind (-1)).dropCandidate
    return (s, false)
  | c :: rest => return (← (s.unwind s.cursor.column).token c rest, true)

/-- The scan without the pieces from the first candidate on, which is still waiting for its
colon. -/
def settled (s : Scan) : Scan :=
  match s.candidates.map (·.2.slot) with
  | [] => s
  | n :: more =>
    let first := more.foldl min n
    { s with pieces := (s.pieces.dropWhile (· != .slot first)).drop 1 }

/-- Scans to the end of the text, or to the first fault; then the scan is that of the tokens known
before. -/
def run (fuel : Nat) (s : Scan) : Scan × Option Fault :=
  match fuel with
  | 0 => (s, some .structural)
  | fuel + 1 =>
    match s.dropStale with
    | .error f => (s, some f)
    | .ok s =>
      match s.step with
      | .error f => (s.settled, some f)
      | .ok (s, true) => s.run fuel
      | .ok (s, false) => (s, none)

/-- The tokens of the pieces, in order; a slot that was filled starts a key. -/
def tokens (s : Scan) : List Token :=
  s.pieces.reverse.flatMap fun
    | .token t => [t]
    | .slot n =>
      match s.filled.lookup n with
      | some true => [.blockMapping, .key]
      | some false => [.key]
      | none => []

end Scan

/-! ### Texts -/

/-- How many characters the first portion of a text has. -/
def firstPortion : Nat := 8192

/-- How many characters every further portion has. -/
def furtherPortion : Nat := 4096

/-- How many characters are taken in where so many are to be seen: texts are taken in by
portions. -/
def takenIn (seen : Nat) : Nat :=
  firstPortion + (seen - firstPortion + furtherPortion - 1) / furtherPortion * furtherPortion

/-- Whether a fault is met before a character that stands behind so many others is taken in. -/
def Fault.isBefore (place : Nat) : Fault → Bool
  | .codePoint _ seen => takenIn seen ≤ place
  | _ => false

/-- The tokens of a text, and what is wrong with the text behind them. A mark at the start of the
text tells its encoding and is no part of it. A text that holds what it may not is at fault once
that is taken in. -/
def tokensOf (text : String) : List Token × Option Fault :=
  let cs := text.toList
  let start := Cursor.ofText cs
  let start := if cs.head? = some '\ufeff' then start.advance else start
  let (s, fault) := (Scan.ofCursor start).run (cs.length + 2)
  match cs.findIdx? (!isAllowed ·) with
  | none => (s.tokens, fault)
  | some place =>
    if fault.any (·.isBefore place) then (s.tokens, fault) else ([], some .structural)

end FuzzyInference.Document.Yaml
