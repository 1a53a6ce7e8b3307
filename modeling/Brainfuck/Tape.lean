import Brainfuck.Index
import Brainfuck.Symbol
import Brainfuck.Tape.Cells

/-! The tape: byte cells and a cursor. It grows to the right with zero cells, and cell arithmetic is
modulo 256. Every operation returns the tape it leaves, also when it fails. -/
namespace Brainfuck

inductive SizeError
  | tooSmall (size : Int)
  | tooLarge
  | outOfMemory
  deriving DecidableEq

inductive TapeError
  | negativeAddress (count cursor : Int)
  | outOfRange
  | unaddressable
  | tooLarge
  | blockTooLarge
  | outOfMemory
  deriving DecidableEq

def SizeError.message : SizeError → String
  | .tooSmall n => "Tape size must be at least 1, got " ++ toString n
  | .tooLarge => indexMessage
  | .outOfMemory => ""

/-- A count and a cursor are written however long they are, as if no limit were set on digits. -/
def TapeError.message : TapeError → String
  | .negativeAddress n c =>
    "Cannot move " ++ toString n ++ " cell(s) left from cell " ++ toString c ++
      ": negative memory addresses are invalid"
  | .outOfRange => "bytearray index out of range"
  | .unaddressable => indexMessage
  | .tooLarge => indexMessage
  | .blockTooLarge => "byte string is too large"
  | .outOfMemory => ""

/-- The cells number `length`, and those past the stored ones are zero. Memory is idealised as a bound on the
length of one tape, its `room`: neither the block that a tape grows by nor a tape that another is about to
replace is counted. So what a run comes to that memory gives out on is more than this can tell. -/
structure Tape where
  room : Nat
  length : Nat
  cursor : Int
  cells : Cells
  extent_le : cells.extent ≤ length
  length_pos : 0 < length
  length_le : length ≤ room

namespace Tape

def defaultSize : Int := 4096

/-- The cells for which a usual memory has room. -/
def usualRoom : Nat := 0x4_0000_0000

/-- A tape of zero cells with the cursor on the first. -/
def create (room : Nat) (size : Int) : Except SizeError Tape :=
  if h : size < 1 then .error (.tooSmall size)
  else if maxIndex < size then .error .tooLarge
  else if h' : room < size then .error .outOfMemory
  else .ok ⟨room, size.toNat, 0, .zero, Nat.zero_le _, by omega, by omega⟩

def cell (t : Tape) (i : Nat) : UInt8 := t.cells.get i

/-- The cell under the cursor; a negative cursor counts from the end. -/
def address (t : Tape) : Except TapeError (Fin t.length) :=
  if t.cursor < -(maxIndex : Int) - 1 ∨ maxIndex < t.cursor then .error .unaddressable
  else if h : 0 ≤ t.cursor ∧ t.cursor < t.length then .ok ⟨t.cursor.toNat, by omega⟩
  else if h : t.cursor < 0 ∧ 0 ≤ t.length + t.cursor then
    .ok ⟨(t.length + t.cursor).toNat, by omega⟩
  else .error .outOfRange

def put (t : Tape) (i : Fin t.length) (v : UInt8) : Tape :=
  { t with
    cells := t.cells.set i v
    extent_le := Nat.le_trans Cells.extent_set_le (Nat.max_le.2 ⟨t.extent_le, i.isLt⟩) }

theorem cell_put {t : Tape} {i : Fin t.length} {v : UInt8} {j : Nat} :
    (t.put i v).cell j = if i.val = j then v else t.cell j :=
  Cells.get_set

/-- The cells past the end are zero. -/
theorem cell_of_length_le {t : Tape} {i : Nat} (h : t.length ≤ i) : t.cell i = 0 :=
  Cells.get_of_extent_le (Nat.le_trans t.extent_le h)

def read : EStateM TapeError Tape UInt8 := fun t =>
  match t.address with
  | .ok i => .ok (t.cell i) t
  | .error e => .error e t

/-- Changes the cell under the cursor. -/
def update (f : UInt8 → UInt8) : EStateM TapeError Tape Unit := fun t =>
  match t.address with
  | .ok i => .ok () (t.put i (f (t.cell i)))
  | .error e => .error e t

def write (value : Int) : EStateM TapeError Tape Unit := update fun _ => .ofInt value

def increment (n : Int) : EStateM TapeError Tape Unit := update fun v => v + .ofInt n

def decrement (n : Int) : EStateM TapeError Tape Unit := update fun v => v - .ofInt n

/-- The cursor moves first, so it stays moved even if the tape cannot grow as far. Memory is asked for the
tape that has grown, and not for the block of new cells beside it. -/
def moveRight (n : Int) : EStateM TapeError Tape Unit := fun t =>
  let cursor := t.cursor + n
  let missing := cursor + 1 - t.length
  if h₀ : missing ≤ 0 then .ok () { t with cursor }
  else if maxIndex < missing then .error .tooLarge { t with cursor }
  else if maxBlock < missing then .error .blockTooLarge { t with cursor }
  else if h : t.room < cursor + 1 then .error .outOfMemory { t with cursor }
  else
    .ok () { t with
      cursor
      length := (cursor + 1).toNat
      extent_le := Nat.le_trans t.extent_le (by grind)
      length_pos := by grind [t.length_pos]
      length_le := by grind }

def moveLeft (n : Int) : EStateM TapeError Tape Unit := fun t =>
  if t.cursor < n then .error (.negativeAddress n t.cursor) t
  else .ok () { t with cursor := t.cursor - n }

def apply : TapeOp → Int → EStateM TapeError Tape Unit
  | .moveRight => moveRight
  | .moveLeft => moveLeft
  | .increment => increment
  | .decrement => decrement

/-- The cells up to the last that is not zero. -/
def contents (t : Tape) : List UInt8 :=
  (t.cells.stored.toList.reverse.dropWhile (· == 0)).reverse

def display (t : Tape) : String :=
  "Tape(length=" ++ toString t.length ++ ", cursor=" ++ toString t.cursor ++ ")"

end Tape

end Brainfuck
