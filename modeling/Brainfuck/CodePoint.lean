/-! Text that may hold surrogates which stand alone: JSON can spell it, and UTF-8 cannot. -/
namespace Brainfuck

inductive CodePoint
  | char (c : Char)
  | surrogate (offset : Fin 0x800)
  deriving DecidableEq

/-- Surrogates in a row that keep a text from being encoded. -/
structure SurrogateError where
  start : Nat
  length : Nat
  first : Nat
  deriving DecidableEq

def SurrogateError.message (e : SurrogateError) : String :=
  let place :=
    if e.length = 1 then
      "character '\\u" ++ String.ofList (Nat.toDigits 16 e.first) ++ "' in position " ++
        toString e.start
    else
      "characters in position " ++ toString e.start ++ "-" ++ toString (e.start + e.length - 1)
  "'utf-8' codec can't encode " ++ place ++ ": surrogates not allowed"

namespace CodePoint

/-- Numbers past the last code point count as zero. -/
def ofNat (n : Nat) : CodePoint :=
  if h : 0xD800 ≤ n ∧ n < 0xE000 then surrogate ⟨n - 0xD800, by omega⟩ else char (.ofNat n)

def toNat : CodePoint → Nat
  | char c => c.toNat
  | surrogate i => 0xD800 + i.val

def isSurrogate : CodePoint → Bool
  | char _ => false
  | surrogate _ => true

/-- A surrogate has no character of its own and becomes a replacement character. -/
def toChar : CodePoint → Char
  | char c => c
  | surrogate _ => '\uFFFD'

def ofString (s : String) : List CodePoint := s.toList.map char

def toString (cs : List CodePoint) : String := .ofList (cs.map toChar)

/-- The first surrogates of a text. -/
def surrogates? (cs : List CodePoint) : Option SurrogateError :=
  let before := cs.takeWhile fun c => !c.isSurrogate
  match cs.drop before.length with
  | [] => none
  | c :: rest => some ⟨before.length, 1 + (rest.takeWhile isSurrogate).length, c.toNat⟩

end CodePoint

end Brainfuck
