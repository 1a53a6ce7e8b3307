import Brainfuck.Json.Encoding
import Brainfuck.Json.Scan

/-! Reading a JSON text. The reader keeps its own stack of open lists and objects, so nesting is not
bounded, and blames the first character that no value can go on with. -/
namespace Brainfuck.Json

/-- An open list or object, last item first; an object also has the name its next value belongs to. -/
inductive Frame
  | list (items : List Json)
  | object (fields : List (List CodePoint × Json)) (name : List CodePoint)

/-- What comes next: a value, the name of a field, or whatever follows a value. -/
inductive Goal
  | value
  | name (fields : List (List CodePoint × Json))
  | after (value : Json)

/-- A field takes the place of an earlier one with its name. The last field comes first. -/
def put (name : List CodePoint) (value : Json) (fields : List (List CodePoint × Json)) :
    List (List CodePoint × Json) :=
  if fields.any fun f => f.1 == name then
    fields.map fun f => if f.1 == name then (name, value) else f
  else (name, value) :: fields

/-- One of the words that are values, with its length. -/
def word? (cs : List CodePoint) : Option (Json × Nat) :=
  let words : List (String × Json) :=
    [("null", .null), ("true", .bool true), ("false", .bool false), ("NaN", .float .nan),
      ("Infinity", .float (.infinite false)), ("-Infinity", .float (.infinite true))]
  (words.find? fun w => (CodePoint.ofString w.1).isPrefixOf cs).map fun w => (w.2, w.1.length)

/-- One step of the reader: the next goal with its frames, or the value of the whole text. -/
def step (c : Cursor) (goal : Goal) (frames : List Frame) :
    Except ReadError (Cursor × Goal × List Frame ⊕ Json) :=
  match goal with
  | .value =>
    match c.rest with
    | .char '"' :: cs =>
      (scanString c.position 0 (c.position + 1) cs []).map fun (s, c) =>
        .inl (c, .after (.text s), frames)
    | .char '{' :: _ =>
      let c := (c.advance 1).skip
      match c.rest with
      | .char '}' :: _ => .ok (.inl (c.advance 1, .after (.object []), frames))
      | _ => .ok (.inl (c, .name [], frames))
    | .char '[' :: _ =>
      let c := (c.advance 1).skip
      match c.rest with
      | .char ']' :: _ => .ok (.inl (c.advance 1, .after (.list []), frames))
      | _ => .ok (.inl (c, .value, .list [] :: frames))
    | cs =>
      match word? cs with
      | some (v, n) => .ok (.inl (c.advance n, .after v, frames))
      | none =>
        match number? cs with
        | none => .error (.malformed c.position)
        | some (.error e) => .error e
        | some (.ok (v, rest)) =>
          .ok (.inl (⟨c.position + (cs.length - rest.length), rest⟩, .after v, frames))
  | .name fields =>
    match c.rest with
    | .char '"' :: cs => do
      let (s, c) ← scanString c.position 0 (c.position + 1) cs []
      let c := c.skip
      match c.rest with
      | .char ':' :: _ => return .inl ((c.advance 1).skip, .value, .object fields s :: frames)
      | _ => throw (.malformed c.position)
    | _ => .error (.malformed c.position)
  | .after v =>
    let c := c.skip
    match frames, c.rest with
    | [], [] => .ok (.inr v)
    | .list items :: outer, .char ',' :: _ =>
      .ok (.inl ((c.advance 1).skip, .value, .list (v :: items) :: outer))
    | .list items :: outer, .char ']' :: _ =>
      .ok (.inl (c.advance 1, .after (.list (v :: items).reverse), outer))
    | .object fields s :: outer, .char ',' :: _ =>
      .ok (.inl ((c.advance 1).skip, .name (put s v fields), outer))
    | .object fields s :: outer, .char '}' :: _ =>
      .ok (.inl (c.advance 1, .after (.object (put s v fields).reverse), outer))
    | _, _ => .error (.malformed c.position)

/-- Takes steps until the text is read; each step but the last takes a character. -/
def readFrom : Nat → Cursor → Goal → List Frame → Except ReadError Json
  | 0, c, _, _ => .error (.malformed c.position)
  | n + 1, c, goal, frames =>
    match step c goal frames with
    | .error e => .error e
    | .ok (.inr v) => .ok v
    | .ok (.inl (c, goal, frames)) => readFrom n c goal frames

/-- The value of a text. -/
def read (text : String) : Except ReadError Json :=
  match codePoints? text with
  | none => .error .unreadable
  | some cs => readFrom (cs.length + 2) (Cursor.skip ⟨0, cs⟩) .value []

end Brainfuck.Json
