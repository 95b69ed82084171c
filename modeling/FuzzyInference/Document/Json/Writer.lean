import FuzzyInference.Document.Display

/-!
# Writing JSON

* `quoteJson`: a text between double quotes, in ASCII;
* `WriteFault`, `Value.writeFault?`: why a value is not written;
* `Value.compact`, `Value.writeCompact`: a value on one line;
* `Value.indented`, `Value.writeIndented`: a value with one item a line.
-/

namespace FuzzyInference.Document

open FuzzyInference

/-- A numbered escape. -/
def hexEscape (n : Nat) : List Char := '\\' :: 'u' :: Text.hexDigits 4 n

/-- What is written for one character; characters beyond U+FFFF are escaped as pairs. -/
def jsonChar (c : Char) : List Char :=
  if c = '"' || c = '\\' then ['\\', c]
  else if c = '\n' then ['\\', 'n']
  else if c = '\r' then ['\\', 'r']
  else if c = '\t' then ['\\', 't']
  else if c = '\x08' then ['\\', 'b']
  else if c = '\x0c' then ['\\', 'f']
  else if 0x20 ≤ c.toNat ∧ c.toNat < 0x7f then [c]
  else if c.toNat < 0x10000 then hexEscape c.toNat
  else
    let n := c.toNat - 0x10000
    hexEscape (0xd800 + n / 0x400) ++ hexEscape (0xdc00 + n % 0x400)

/-- What is written for one code point. -/
def jsonPoint : CodePoint → List Char
  | .char c => jsonChar c
  | c => hexEscape c.number

/-- A text between double quotes. -/
def quoteJson (t : Text) : String := String.ofList ('"' :: t.toList.flatMap jsonPoint ++ ['"'])

/-- A double as a JSON number or one of the three names beyond the standard. -/
def jsonFloat (x : Float) : String :=
  if x.isNaN then "NaN"
  else if x.isInf then (if x < 0.0 then "-Infinity" else "Infinity")
  else Decimal.write x

/-- A value that holds no others. Dates and moments have no form of their own. -/
def jsonSimple : Value → String
  | .null => "null"
  | .bool b => if b then "true" else "false"
  | .int i => toString i
  | .float x => jsonFloat x
  | .text s => quoteJson s
  | .date _ | .moment _ | .list _ | .map _ => ""

/-- A key: every simple value is written as text. -/
def jsonKey : Value → String
  | .text s => quoteJson s
  | k => quoteJson (jsonSimple k)

namespace Value

mutual

/-- The value on one line. -/
def compact : Value → String
  | .list items => "[" ++ ", ".intercalate (compactItems items) ++ "]"
  | .map entries => "\x7b" ++ ", ".intercalate (compactEntries entries) ++ "\x7d"
  | v => jsonSimple v

def compactItems : List Value → List String
  | [] => []
  | v :: rest => compact v :: compactItems rest

def compactEntries : List (Value × Value) → List String
  | [] => []
  | (k, v) :: rest => (jsonKey k ++ ": " ++ compact v) :: compactEntries rest

end

/-- The start of a line `depth` levels deep; a level is two blanks wide. -/
def lineStart (depth : Nat) : String := String.ofList ('\n' :: List.replicate (2 * depth) ' ')

/-- The lines of a list or mapping between its brackets. -/
def block (depth : Nat) (left right : String) (lines : List String) : String :=
  if lines.isEmpty then left ++ right
  else left ++ lineStart (depth + 1) ++ ("," ++ lineStart (depth + 1)).intercalate lines ++
    lineStart depth ++ right

mutual

/-- The value `depth` levels deep, with one item or entry a line. -/
def indentedAt (depth : Nat) : Value → String
  | .list items => block depth "[" "]" (indentedItems (depth + 1) items)
  | .map entries => block depth "\x7b" "\x7d" (indentedEntries (depth + 1) entries)
  | v => jsonSimple v

def indentedItems (depth : Nat) : List Value → List String
  | [] => []
  | v :: rest => indentedAt depth v :: indentedItems depth rest

def indentedEntries (depth : Nat) : List (Value × Value) → List String
  | [] => []
  | (k, v) :: rest => (jsonKey k ++ ": " ++ indentedAt depth v) :: indentedEntries depth rest

end

/-- The value with one item or entry a line. -/
def indented (v : Value) : String := indentedAt 0 v

/-! ### What is not written -/

/-- Why a value is not written. -/
inductive WriteFault where
  /-- A date or moment. -/
  | formless
  | numeral (fault : Decimal.NumeralFault)
  deriving Repr, DecidableEq

/-- The wording of the fault. -/
def WriteFault.message : WriteFault → String
  | .formless => "a date has no form in JSON"
  | .numeral f => f.message

mutual

/-- What cannot be written in a value, and comes first. -/
def writeFault? : Value → Option WriteFault
  | .date _ | .moment _ => some .formless
  | .int i => if Decimal.isWritable i then none else some (.numeral .tooLong)
  | .list items => writeFaultIn? items
  | .map entries => writeFaultInEntries? entries
  | _ => none

/-- What cannot be written in the items of a list, and comes first. -/
def writeFaultIn? : List Value → Option WriteFault
  | [] => none
  | v :: rest => (writeFault? v).or (writeFaultIn? rest)

/-- What cannot be written in the entries of a mapping, and comes first. -/
def writeFaultInEntries? : List (Value × Value) → Option WriteFault
  | [] => none
  | (k, v) :: rest => ((writeFault? k).or (writeFault? v)).or (writeFaultInEntries? rest)

end

/-- The value on one line, if it can be written. -/
def writeCompact (v : Value) : Except WriteFault String :=
  match v.writeFault? with
  | some f => .error f
  | none => .ok v.compact

/-- The value with one item or entry a line, if it can be written. -/
def writeIndented (v : Value) : Except WriteFault String :=
  match v.writeFault? with
  | some f => .error f
  | none => .ok v.indented

end Value

end FuzzyInference.Document
