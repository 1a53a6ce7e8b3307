import Brainfuck.CodePoint
import Brainfuck.Number.Binary64

/-! JSON values. A whole number keeps all its digits; any other number is rounded. -/
namespace Brainfuck

inductive Json
  | null
  | bool (value : Bool)
  | integer (value : Int)
  | float (value : Binary64)
  | text (value : List CodePoint)
  | list (items : List Json)
  | object (fields : List (List CodePoint × Json))

namespace Json

def ofString (s : String) : Json := .text (CodePoint.ofString s)

/-- The object with these fields. -/
def ofFields (fields : List (String × Json)) : Json :=
  .object (fields.map fun f => (CodePoint.ofString f.1, f.2))

/-- The field of that name. -/
def field? (fields : List (List CodePoint × Json)) (name : String) : Option Json :=
  (fields.find? fun f => f.1 == CodePoint.ofString name).map (·.2)

mutual

/-- Whether every number in the value is finite. -/
def isFinite : Json → Bool
  | float v => v.isFinite
  | list items => areFinite items
  | object fields => haveFinite fields
  | _ => true

def areFinite : List Json → Bool
  | [] => true
  | j :: js => j.isFinite && areFinite js

def haveFinite : List (List CodePoint × Json) → Bool
  | [] => true
  | (_, j) :: fs => j.isFinite && haveFinite fs

end

end Json

end Brainfuck
