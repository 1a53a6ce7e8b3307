import Brainfuck.Http.IntegerText
import Brainfuck.Index
import Brainfuck.Json
import Brainfuck.Text.Integer

/-! Checking the fields of a request. Every field is checked, and all complaints are returned in the
order of the fields. -/
namespace Brainfuck.Http

inductive Issue
  | missing
  | malformed
  | notObject
  | notText
  | notUnicode
  | notInteger
  | badInteger
  | hugeInteger
  | fractional
  | infinite
  | tooSmall
  | notBool
  | badBool
  deriving DecidableEq

namespace Issue

def kind : Issue → String
  | missing => "missing"
  | malformed => "json_invalid"
  | notObject => "model_attributes_type"
  | notText => "string_type"
  | notUnicode => "string_unicode"
  | notInteger => "int_type"
  | badInteger => "int_parsing"
  | hugeInteger => "int_parsing_size"
  | fractional => "int_from_float"
  | infinite => "finite_number"
  | tooSmall => "greater_than_equal"
  | notBool => "bool_type"
  | badBool => "bool_parsing"

def message : Issue → String
  | missing => "Field required"
  | malformed => "JSON decode error"
  | notObject => "Input should be a valid dictionary or object to extract fields from"
  | notText => "Input should be a valid string"
  | notUnicode =>
    "Input should be a valid string, unable to parse raw data as a unicode string"
  | notInteger => "Input should be a valid integer"
  | badInteger => "Input should be a valid integer, unable to parse string as an integer"
  | hugeInteger => "Unable to parse input string as an integer, exceeded maximum size"
  | fractional => "Input should be a valid integer, got a number with a fractional part"
  | infinite => "Input should be a finite number"
  | tooSmall => "Input should be greater than or equal to 1"
  | notBool => "Input should be a valid boolean"
  | badBool => "Input should be a valid boolean, unable to interpret input"

/-- The bound that a value failed to keep. -/
def bound? : Issue → Option Int
  | tooSmall => some 1
  | _ => none

end Issue

/-- An issue, where in the request it is, and the value that has it. -/
structure Complaint where
  issue : Issue
  location : List Json
  input : Json

/-- Fields with names that start like this are not shown. -/
def hiddenStart : List CodePoint := CodePoint.ofString "_sa"

mutual

/-- A value as a complaint shows it. -/
def shown : Json → Json
  | .list items => .list (shownItems items)
  | .object fields => .object (shownFields fields)
  | j => j

def shownItems : List Json → List Json
  | [] => []
  | j :: js => shown j :: shownItems js

def shownFields : List (List CodePoint × Json) → List (List CodePoint × Json)
  | [] => []
  | (name, j) :: fs =>
    if hiddenStart.isPrefixOf name then shownFields fs else (name, shown j) :: shownFields fs

end

def Complaint.json (c : Complaint) : Json :=
  let bound := match c.issue.bound? with
    | some n => [("ctx", Json.ofFields [("ge", .integer n)])]
    | none => []
  .ofFields
    ([("type", .ofString c.issue.kind), ("loc", .list c.location),
      ("msg", .ofString c.issue.message), ("input", shown c.input)] ++ bound)

/-! Values. -/

/-- Surrogates that stand alone are neither symbols nor bytes, and as good as any such character. -/
def text : Json → Except Issue String
  | .text cs => .ok (CodePoint.toString cs)
  | _ => .error .notText

/-- Text that numbers and truth values are read from has to be without surrogates. -/
def wholeText (cs : List CodePoint) : Except Issue String :=
  if cs.any CodePoint.isSurrogate then .error .notUnicode else .ok (CodePoint.toString cs)

def integerIssue : IntegerTextError → Issue
  | .invalid => .badInteger
  | .tooLong => .hugeInteger

/-- A floating-point number that is whole and lies strictly within 64 bits. -/
def integerFloat : Binary64 → Except Issue Int
  | .finite negative units =>
    let whole := units / Binary64.one
    if units % Binary64.one ≠ 0 then .error .fractional
    else if maxIndex < whole then .error .hugeInteger
    else .ok (Text.signed negative whole)
  | _ => .error .infinite

def integer : Json → Except Issue Int
  | .integer n => .ok n
  | .bool b => .ok (if b then 1 else 0)
  | .float v => integerFloat v
  | .text cs => do (integerText (← wholeText cs)).mapError integerIssue
  | _ => .error .notInteger

def positive (j : Json) : Except Issue Int := do
  let n ← integer j
  if n < 1 then throw .tooSmall else return n

/-- Letter case does not matter. -/
def boolText (s : String) : Except Issue Bool :=
  let word := String.ofList (s.toList.map Char.toLower)
  if ["1", "t", "true", "on", "y", "yes"].contains word then .ok true
  else if ["0", "f", "n", "no", "off", "false"].contains word then .ok false
  else .error .badBool

def boolInteger (n : Int) : Except Issue Bool :=
  if n = 0 then .ok false
  else if n = 1 then .ok true
  else if -(maxIndex : Int) - 1 ≤ n ∧ n ≤ maxIndex then .error .badBool
  else .error .notBool

def bool : Json → Except Issue Bool
  | .bool b => .ok b
  | .text cs => do boolText (← wholeText cs)
  | .integer n => boolInteger n
  | .float v =>
    match integerFloat v with
    | .ok n => boolInteger n
    | .error _ => .error .notBool
  | _ => .error .notBool

/-! Fields. -/

/-- A value, or all complaints about it. -/
abbrev Checked (α : Type) := Except (List Complaint) α

variable {α β : Type}

/-- Both values are checked even if the first is refused. -/
def Checked.both (x : Checked α) (y : Checked β) : Checked (α × β) :=
  match x, y with
  | .ok a, .ok b => .ok (a, b)
  | .ok _, .error es => .error es
  | .error es, .ok _ => .error es
  | .error es, .error fs => .error (es ++ fs)

def complaint (issue : Issue) (place : List Json) (input : Json) : Complaint :=
  ⟨issue, .ofString "body" :: place, input⟩

def given (name : String) (check : Json → Except Issue α) (j : Json) : Checked α :=
  (check j).mapError fun issue => [complaint issue [.ofString name] j]

def required (fields : List (List CodePoint × Json)) (name : String) (check : Json → Except Issue α) :
    Checked α :=
  match Json.field? fields name with
  | some j => given name check j
  | none => .error [complaint .missing [.ofString name] (.object fields)]

def optional (fields : List (List CodePoint × Json)) (name : String) (default : α)
    (check : Json → Except Issue α) : Checked α :=
  match Json.field? fields name with
  | some j => given name check j
  | none => .ok default

end Brainfuck.Http
