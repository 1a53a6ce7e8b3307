/-! The eight symbols of the language; every other character is a comment. -/
namespace Brainfuck

/-- The four operations on the tape that come in runs. -/
inductive TapeOp
  | moveRight
  | moveLeft
  | increment
  | decrement
  deriving DecidableEq, Inhabited

inductive Symbol
  | tape (op : TapeOp)
  | output
  | input
  | loopStart
  | loopEnd
  deriving DecidableEq

namespace Symbol

def toChar : Symbol → Char
  | tape .moveRight => '>'
  | tape .moveLeft => '<'
  | tape .increment => '+'
  | tape .decrement => '-'
  | output => '.'
  | input => ','
  | loopStart => '['
  | loopEnd => ']'

def ofChar? : Char → Option Symbol
  | '>' => some (tape .moveRight)
  | '<' => some (tape .moveLeft)
  | '+' => some (tape .increment)
  | '-' => some (tape .decrement)
  | '.' => some output
  | ',' => some input
  | '[' => some loopStart
  | ']' => some loopEnd
  | _ => none

/-- A text names a symbol only if it is that symbol's one character. -/
def ofText? (text : String) : Option Symbol :=
  match text.toList with
  | [c] => ofChar? c
  | _ => none

theorem ofChar?_toChar (s : Symbol) : ofChar? s.toChar = some s := by
  cases s with
  | tape op => cases op <;> rfl
  | _ => rfl

theorem ofChar?_eq_some_iff {c : Char} {s : Symbol} : ofChar? c = some s ↔ c = s.toChar := by
  refine ⟨fun h => ?_, fun h => h ▸ ofChar?_toChar s⟩
  unfold ofChar? at h
  split at h <;> cases h <;> rfl

theorem ofText?_eq_some_iff {text : String} {s : Symbol} :
    ofText? text = some s ↔ text = String.singleton s.toChar := by
  constructor
  · intro h
    unfold ofText? at h
    split at h
    next c hc =>
      obtain rfl := ofChar?_eq_some_iff.mp h
      exact String.toList_injective (by rw [hc, String.toList_singleton])
    next => cases h
  · rintro rfl
    rw [ofText?, String.toList_singleton]
    exact ofChar?_toChar s

end Symbol

end Brainfuck
