import Brainfuck.Text.Utf16

/-! The encoding of a JSON text. Such a text starts with two ASCII characters, so the place of the zero
bytes among its first four tells how many bytes a character has and in which order they stand. -/
namespace Brainfuck.Json

inductive ByteOrder
  | big
  | little
  deriving DecidableEq

inductive Encoding
  | utf8
  | utf16 (order : ByteOrder)
  | utf32 (order : ByteOrder)
  deriving DecidableEq

def Encoding.ofBytes : List UInt8 → Encoding
  | 0 :: 0 :: _ :: _ :: _ => utf32 .big
  | 0 :: _ :: _ :: _ :: _ => utf16 .big
  | _ :: 0 :: 0 :: 0 :: _ => utf32 .little
  | _ :: 0 :: _ :: _ :: _ => utf16 .little
  | [0, _] => utf16 .big
  | [_, 0] => utf16 .little
  | _ => utf8

namespace ByteOrder

def number (o : ByteOrder) (bytes : List UInt8) : Nat :=
  let bytes := match o with
    | big => bytes
    | little => bytes.reverse
  bytes.foldl (fun n b => 256 * n + b.toNat) 0

/-- The numbers of two bytes each, after those of `done`, which holds the last one first. No byte may
be left over. -/
def units? (o : ByteOrder) : List Nat → List UInt8 → Option (List Nat)
  | done, [] => some done.reverse
  | done, a :: b :: bytes => o.units? (o.number [a, b] :: done) bytes
  | _, _ => none

/-- The numbers of four bytes each, in the same way; every one has to be a code point. -/
def points? (o : ByteOrder) : List Nat → List UInt8 → Option (List Nat)
  | done, [] => some done.reverse
  | done, a :: b :: c :: d :: bytes =>
    let n := o.number [a, b, c, d]
    if n < 0x110000 then o.points? (n :: done) bytes else none
  | _, _ => none

end ByteOrder

/-- The code points that the bytes of a text stand for; a byte order mark at its start does not count,
and surrogates may stand alone. -/
def codePoints? (text : String) : Option (List CodePoint) :=
  let bytes := text.toUTF8.toList
  match Encoding.ofBytes bytes with
  | .utf16 o => (o.units? [] bytes).map Text.ofUnits
  | .utf32 o => (o.points? [] bytes).map fun ns => ns.map .ofNat
  | .utf8 =>
    match text.toList with
    | '\uFEFF' :: cs => some (cs.map .char)
    | cs => some (cs.map .char)

end Brainfuck.Json
