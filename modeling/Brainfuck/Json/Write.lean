import Brainfuck.Json
import Brainfuck.Number.Shortest

/-! Writing a value as JSON text without blanks. Only quotes, backslashes and controls are escaped, so
a surrogate that stands alone is written as it is, and then the text cannot be encoded. -/
namespace Brainfuck.Json

inductive WriteError
  | notFinite
  | surrogates (error : SurrogateError)
  deriving DecidableEq

def WriteError.message : WriteError → String
  | .notFinite => "Out of range float values are not JSON compliant"
  | .surrogates e => e.message

def escapeChar (c : Char) : List Char :=
  match c with
  | '"' => ['\\', '"']
  | '\\' => ['\\', '\\']
  | '\n' => ['\\', 'n']
  | '\r' => ['\\', 'r']
  | '\t' => ['\\', 't']
  | '\x08' => ['\\', 'b']
  | '\x0c' => ['\\', 'f']
  | c =>
    if c.toNat < 0x20 then '\\' :: 'u' :: (Nat.toDigits 16 c.toNat).leftpad 4 '0' else [c]

def escapePoint : CodePoint → List CodePoint
  | .char c => (escapeChar c).map .char
  | .surrogate i => [.surrogate i]

def quote (cs : List CodePoint) : List CodePoint :=
  .char '"' :: cs.flatMap escapePoint ++ [.char '"']

mutual

/-- Writes a value after the text `s`. -/
def writeAfter (s : Array CodePoint) : Json → Array CodePoint
  | null => s.appendList (CodePoint.ofString "null")
  | bool b => s.appendList (CodePoint.ofString (if b then "true" else "false"))
  | integer n => s.appendList (CodePoint.ofString (toString n))
  | float v => s.appendList (CodePoint.ofString v.text)
  | text cs => s.appendList (quote cs)
  | list [] => s.appendList (CodePoint.ofString "[]")
  | list (j :: js) => (writeItemsAfter (writeAfter (s.push (.char '[')) j) js).push (.char ']')
  | object [] => s.appendList (CodePoint.ofString "\x7b\x7d")
  | object (f :: fs) =>
    (writeFieldsAfter (writeFieldAfter (s.push (.char '\x7b')) f) fs).push (.char '\x7d')

def writeItemsAfter (s : Array CodePoint) : List Json → Array CodePoint
  | [] => s
  | j :: js => writeItemsAfter (writeAfter (s.push (.char ',')) j) js

def writeFieldAfter (s : Array CodePoint) : List CodePoint × Json → Array CodePoint
  | (name, j) => writeAfter ((s.appendList (quote name)).push (.char ':')) j

def writeFieldsAfter (s : Array CodePoint) : List (List CodePoint × Json) → Array CodePoint
  | [] => s
  | f :: fs => writeFieldsAfter (writeFieldAfter (s.push (.char ',')) f) fs

end

def write (j : Json) : List CodePoint := (writeAfter #[] j).toList

/-- Why a value cannot be written and encoded. Numbers are looked at first. -/
def writeError? (j : Json) : Option WriteError :=
  if j.isFinite then (CodePoint.surrogates? j.write).map .surrogates else some .notFinite

end Brainfuck.Json
