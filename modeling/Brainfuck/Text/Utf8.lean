/-! Decoding UTF-8, and where and why bytes are refused. -/
namespace Brainfuck.Text

inductive Utf8Fault
  | invalidStart
  | invalidContinuation
  | unexpectedEnd
  deriving DecidableEq

/-- The refused bytes start at `start` with `first`; there are `length` of them. -/
structure Utf8Error where
  start : Nat
  length : Nat
  first : UInt8
  fault : Utf8Fault
  deriving DecidableEq

def Utf8Fault.text : Utf8Fault → String
  | .invalidStart => "invalid start byte"
  | .invalidContinuation => "invalid continuation byte"
  | .unexpectedEnd => "unexpected end of data"

def hexByte (b : UInt8) : String :=
  String.ofList ((Nat.toDigits 16 b.toNat).leftpad 2 '0')

def Utf8Error.message (e : Utf8Error) : String :=
  let place :=
    if e.length = 1 then "byte 0x" ++ hexByte e.first ++ " in position " ++ toString e.start
    else
      "bytes in position " ++ toString e.start ++ "-" ++ toString (e.start + e.length - 1)
  "'utf-8' codec can't decode " ++ place ++ ": " ++ e.fault.text

def isContinuation (b : UInt8) : Bool := 0x80 ≤ b && b < 0xC0

/-- Whether a byte may follow the given first byte: no overlong form, no surrogate, nothing past the
last code point. -/
def isSecond (first b : UInt8) : Bool :=
  isContinuation b && (first != 0xE0 || 0xA0 ≤ b) && (first != 0xED || b < 0xA0) &&
    (first != 0xF0 || 0x90 ≤ b) && (first != 0xF4 || b < 0x90)

/-- Six more bits of a code point. -/
def shift (n : Nat) (b : UInt8) : Nat := 64 * n + b.toNat % 64

/-- Decodes from byte `n` on; `done` holds the characters before it, last first. -/
def decodeFrom : Nat → List UInt8 → List Char → Except Utf8Error (List Char)
  | _, [], done => .ok done.reverse
  | n, a :: as, done =>
    if a < 0x80 then decodeFrom (n + 1) as (.ofNat a.toNat :: done)
    else if a < 0xC2 then .error ⟨n, 1, a, .invalidStart⟩
    else if a < 0xE0 then
      match as with
      | [] => .error ⟨n, 1, a, .unexpectedEnd⟩
      | b :: bs =>
        if isContinuation b then
          decodeFrom (n + 2) bs (.ofNat (shift (a.toNat % 32) b) :: done)
        else .error ⟨n, 1, a, .invalidContinuation⟩
    else if a < 0xF0 then
      match as with
      | [] => .error ⟨n, 1, a, .unexpectedEnd⟩
      | b :: bs =>
        if isSecond a b then
          match bs with
          | [] => .error ⟨n, 2, a, .unexpectedEnd⟩
          | c :: cs =>
            if isContinuation c then
              decodeFrom (n + 3) cs (.ofNat (shift (shift (a.toNat % 16) b) c) :: done)
            else .error ⟨n, 2, a, .invalidContinuation⟩
        else .error ⟨n, 1, a, .invalidContinuation⟩
    else if a < 0xF5 then
      match as with
      | [] => .error ⟨n, 1, a, .unexpectedEnd⟩
      | b :: bs =>
        if isSecond a b then
          match bs with
          | [] => .error ⟨n, 2, a, .unexpectedEnd⟩
          | c :: cs =>
            if isContinuation c then
              match cs with
              | [] => .error ⟨n, 3, a, .unexpectedEnd⟩
              | d :: ds =>
                if isContinuation d then
                  decodeFrom (n + 4) ds (.ofNat (shift (shift (shift (a.toNat % 8) b) c) d) :: done)
                else .error ⟨n, 3, a, .invalidContinuation⟩
            else .error ⟨n, 2, a, .invalidContinuation⟩
        else .error ⟨n, 1, a, .invalidContinuation⟩
    else .error ⟨n, 1, a, .invalidStart⟩

def decodeUtf8 (bytes : List UInt8) : Except Utf8Error (List Char) := decodeFrom 0 bytes []

end Brainfuck.Text
