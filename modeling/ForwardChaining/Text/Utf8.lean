import ForwardChaining.Text.Hex

/-!
# UTF-8

A text is stored as bytes in UTF-8. Reading refuses every sequence of bytes that is not the shortest form
of a character, and says where the first one stands: which bytes it takes up, and whether it starts, goes
on or ends wrongly.
-/

namespace ForwardChaining.Text

/-- What is wrong with a sequence of bytes. -/
inductive Utf8Fault where
  | start
  | continuation
  | ending

/-- Bytes that stand for no text: the first of them, its place, and how many they are. -/
structure Utf8Error where
  byte : UInt8
  position : Nat
  size : Nat
  fault : Utf8Fault

/-- The words for a fault. -/
def Utf8Fault.words : Utf8Fault → String
  | start => "invalid start byte"
  | continuation => "invalid continuation byte"
  | ending => "unexpected end of data"

/-- The message for bytes that stand for no text. -/
def Utf8Error.message (e : Utf8Error) : String :=
  let place :=
    if e.size = 1 then
      "byte 0x" ++ String.ofList (hexFigures 2 e.byte.toNat) ++ " in position " ++ toString e.position
    else
      "bytes in position " ++ toString e.position ++ "-" ++ toString (e.position + e.size - 1)
  "'utf-8' codec can't decode " ++ place ++ ": " ++ e.fault.words

/-- What the first byte of a longer sequence says: how many bytes follow, the bits that it gives itself,
and the range of the second byte, which keeps out surrogates, numbers beyond the last code point and
sequences longer than they need be. -/
def leadOf? (b : UInt8) : Option (Nat × Nat × UInt8 × UInt8) :=
  let n := b.toNat
  if n < 0xC2 then none
  else if n < 0xE0 then some (1, n - 0xC0, 0x80, 0xBF)
  else if n < 0xF0 then
    some (2, n - 0xE0, if n = 0xE0 then 0xA0 else 0x80, if n = 0xED then 0x9F else 0xBF)
  else if n < 0xF5 then
    some (3, n - 0xF0, if n = 0xF0 then 0x90 else 0x80, if n = 0xF4 then 0x8F else 0xBF)
  else none

/-- The code point of a sequence of which `count` bytes are still to come, the next of them within a
range; or the number of bytes that were as they should be, and what is wrong behind them. -/
def codePoint (bits : Nat) (low high : UInt8) (good : Nat) :
    Nat → List UInt8 → Except (Nat × Utf8Fault) Nat
  | 0, _ => .ok bits
  | _ + 1, [] => .error (good, .ending)
  | count + 1, b :: rest =>
    if b < low ∨ high < b then .error (good, .continuation)
    else codePoint (0x40 * bits + (b.toNat - 0x80)) 0x80 0xBF (good + 1) count rest

/-- The text of bytes of which the first stands at the given position; `skip` of them belong to a
character that has been read. -/
def decodeFrom (position skip : Nat) : List UInt8 → Except Utf8Error (List Char)
  | [] => .ok []
  | b :: rest =>
    if skip > 0 then decodeFrom (position + 1) (skip - 1) rest
    else if b < 0x80 then (decodeFrom (position + 1) 0 rest).map (Char.ofNat b.toNat :: ·)
    else match leadOf? b with
      | none => .error { byte := b, position, size := 1, fault := .start }
      | some (count, bits, low, high) =>
        match codePoint bits low high 1 count rest with
        | .error (size, fault) => .error { byte := b, position, size, fault }
        | .ok n => (decodeFrom (position + 1) count rest).map (Char.ofNat n :: ·)

/-- The text that bytes stand for. -/
def decode (bytes : List UInt8) : Except Utf8Error (List Char) := decodeFrom 0 0 bytes

/-- The bytes of a text. -/
def encode (s : String) : List UInt8 := s.toList.flatMap String.utf8EncodeChar

/-- The text with every line end, of which there are three, as a line feed. -/
def unifyLineEnds : List Char → List Char
  | [] => []
  | '\r' :: '\n' :: rest => '\n' :: unifyLineEnds rest
  | '\r' :: rest => '\n' :: unifyLineEnds rest
  | c :: rest => c :: unifyLineEnds rest

end ForwardChaining.Text
