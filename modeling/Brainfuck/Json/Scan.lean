import Brainfuck.Json
import Brainfuck.Text.Digit
import Brainfuck.Text.Utf16

/-! The words of a JSON text: blanks, strings and numbers. Positions count code points from zero. -/
namespace Brainfuck.Json

/-- What is left of a text, and where that starts. -/
structure Cursor where
  position : Nat
  rest : List CodePoint

/-- Why a text has no value: it is malformed at a position, or it cannot be read at all, as its bytes
break its encoding or a whole number has too many digits. -/
inductive ReadError
  | malformed (position : Nat)
  | unreadable
  deriving DecidableEq

namespace Cursor

def advance (n : Nat) (c : Cursor) : Cursor := ⟨c.position + n, c.rest.drop n⟩

end Cursor

def isBlank : CodePoint → Bool
  | .char c => c == ' ' || c == '\t' || c == '\n' || c == '\r'
  | .surrogate _ => false

def skipFrom : Nat → List CodePoint → Cursor
  | n, [] => ⟨n, []⟩
  | n, c :: cs => if isBlank c then skipFrom (n + 1) cs else ⟨n, c :: cs⟩

def Cursor.skip (c : Cursor) : Cursor := skipFrom c.position c.rest

def hexValue? : CodePoint → Option Nat
  | .char c =>
    if c.isDigit then some (c.toNat - '0'.toNat)
    else if 'a' ≤ c ∧ c ≤ 'f' then some (c.toNat - 'a'.toNat + 10)
    else if 'A' ≤ c ∧ c ≤ 'F' then some (c.toNat - 'A'.toNat + 10)
    else none
  | .surrogate _ => none

def hex4? (a b c d : CodePoint) : Option Nat := do
  let a ← hexValue? a
  let b ← hexValue? b
  let c ← hexValue? c
  let d ← hexValue? d
  return ((a * 16 + b) * 16 + c) * 16 + d

/-- The character that a letter stands for after a backslash. -/
def escape? : CodePoint → Option Char
  | .char '"' => some '"'
  | .char '\\' => some '\\'
  | .char '/' => some '/'
  | .char 'b' => some '\x08'
  | .char 'f' => some '\x0c'
  | .char 'n' => some '\n'
  | .char 'r' => some '\r'
  | .char 't' => some '\t'
  | _ => none

/-- What the escape stands for whose backslash is at `n`, and the length of what follows that
backslash. A surrogate pair is one character. A bad escape is blamed on its backslash or, if digits
were expected, on the letter before them; four digits must not end the text. -/
def escapeAt (start n : Nat) : List CodePoint → Except ReadError (CodePoint × Nat)
  | [] => .error (.malformed start)
  | .char 'u' :: a :: b :: c :: d :: e :: cs =>
    match hex4? a b c d with
    | none => .error (.malformed (n + 1))
    | some high =>
      match Text.isHighSurrogate high, e, cs with
      | true, .char '\\', .char 'u' :: a :: b :: c :: d :: _ :: _ =>
        match hex4? a b c d with
        | none => .error (.malformed (n + 7))
        | some low =>
          if Text.isLowSurrogate low then .ok (.char (Text.pairChar high low), 11)
          else .ok (.ofNat high, 5)
      | _, _, _ => .ok (.ofNat high, 5)
  | .char 'u' :: _ => .error (.malformed (n + 1))
  | c :: _ =>
    match escape? c with
    | none => .error (.malformed n)
    | some c => .ok (.char c, 1)

/-- The string that goes on at position `n`, after `skip` code points that are part of an escape;
`done` holds its code points so far, last one first. A string without an end is blamed on its opening
quote at `start`. -/
def scanString (start : Nat) :
    (skip n : Nat) → List CodePoint → List CodePoint → Except ReadError (List CodePoint × Cursor)
  | _, _, [], _ => .error (.malformed start)
  | skip + 1, n, _ :: cs, done => scanString start skip (n + 1) cs done
  | 0, n, .char '"' :: cs, done => .ok (done.reverse, ⟨n + 1, cs⟩)
  | 0, n, .char '\\' :: cs, done =>
    match escapeAt start n cs with
    | .error e => .error e
    | .ok (c, skip) => scanString start skip (n + 1) cs (c :: done)
  | 0, n, c :: cs, done =>
    if c.toNat < 0x20 then .error (.malformed n) else scanString start 0 (n + 1) cs (c :: done)

def isDigit : CodePoint → Bool
  | .char c => c.isDigit
  | .surrogate _ => false

/-- The digits at the start of a text, and what follows them. -/
def digits (cs : List CodePoint) : List CodePoint × List CodePoint := cs.span isDigit

def digitsValue (ds : List CodePoint) : Nat :=
  ds.foldl (fun n d => 10 * n + (d.toNat - '0'.toNat)) 0

/-- A point and at least one digit, or nothing. -/
def fraction (cs : List CodePoint) : List CodePoint × List CodePoint :=
  match cs with
  | .char '.' :: rest =>
    match digits rest with
    | ([], _) => ([], cs)
    | (ds, rest) => (ds, rest)
  | _ => ([], cs)

/-- The letter, a sign and at least one digit, or nothing. -/
def exponent (cs : List CodePoint) : Option Int × List CodePoint :=
  let signed (sign : Int) (rest : List CodePoint) : Option Int × List CodePoint :=
    match digits rest with
    | ([], _) => (none, cs)
    | (ds, rest) => (some (sign * digitsValue ds), rest)
  let afterLetter (rest : List CodePoint) : Option Int × List CodePoint :=
    match rest with
    | .char '-' :: rest => signed (-1) rest
    | .char '+' :: rest => signed 1 rest
    | rest => signed 1 rest
  match cs with
  | .char 'e' :: rest => afterLetter rest
  | .char 'E' :: rest => afterLetter rest
  | _ => (none, cs)

/-- A number whose sign has been read, from its whole digits on; an integer of too many is refused. -/
def numberFrom (negative : Bool) (whole rest : List CodePoint) :
    Except ReadError (Json × List CodePoint) :=
  match fraction rest, exponent (fraction rest).2 with
  | ([], _), (none, rest) =>
    if Text.maxDigits < whole.length then .error .unreadable
    else
      .ok (.integer (if negative then -(digitsValue whole : Int) else digitsValue whole), rest)
  | (ds, _), (e, rest) =>
    .ok (.float (.ofDecimal negative (digitsValue (whole ++ ds)) (e.getD 0 - ds.length)), rest)

/-- A number at the start of a text; a leading zero stands alone before the point. -/
def number? (cs : List CodePoint) : Option (Except ReadError (Json × List CodePoint)) :=
  let unsigned (negative : Bool) (cs : List CodePoint) :=
    match cs with
    | .char '0' :: rest => some (numberFrom negative [.char '0'] rest)
    | _ =>
      match digits cs with
      | ([], _) => none
      | (whole, rest) => some (numberFrom negative whole rest)
  match cs with
  | .char '-' :: cs => unsigned true cs
  | cs => unsigned false cs

end Brainfuck.Json
