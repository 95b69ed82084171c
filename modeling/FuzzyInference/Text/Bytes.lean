import FuzzyInference.Text.Basic

/-!
# Texts and bytes

The names of files are bytes. A text is written in UTF-8; bytes that are no UTF-8 are known by
halves, the byte `b` by the one of number `0xdc00 + b`, so that every row of bytes has a text. The
other halves have no bytes, and several texts may have the same ones.

* `CodePoint.bytes?`, `Text.bytes?`: the bytes of a text;
* `Text.ofBytes`: the text of bytes.
-/

namespace FuzzyInference

/-- The number of the half that a byte of number zero would be known by. -/
def byteHalf : Nat := 0xdc00

/-- The bytes of a code point. -/
def CodePoint.bytes? : CodePoint → Option (List UInt8)
  | .char c => some (String.utf8EncodeChar c)
  | c =>
    if byteHalf + 0x80 ≤ c.number ∧ c.number < byteHalf + 0x100 then
      some [UInt8.ofNat (c.number - byteHalf)]
    else none

namespace Text

/-- The bytes of a text. -/
def bytes? (t : Text) : Option (List UInt8) := (t.toList.mapM CodePoint.bytes?).map List.flatten

/-- The code points of bytes behind `skip` bytes more of the character before. -/
def pointsOf (skip : Nat) : List UInt8 → List CodePoint
  | [] => []
  | b :: rest =>
    match skip with
    | n + 1 => pointsOf n rest
    | 0 =>
      match (ByteArray.mk ((b :: rest).take 4).toArray).utf8DecodeChar? 0 with
      | some c => .char c :: pointsOf (c.utf8Size - 1) rest
      | none => .ofNumber (byteHalf + b.toNat) :: pointsOf 0 rest

/-- The text of bytes. -/
def ofBytes (bytes : List UInt8) : Text := ⟨pointsOf 0 bytes⟩

end Text

end FuzzyInference
