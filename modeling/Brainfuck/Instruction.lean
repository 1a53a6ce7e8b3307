import Brainfuck.Symbol

/-! Programs as trees: counted tape operations, input, output and loops. -/
namespace Brainfuck

/-- How often a tape operation is applied; never zero. -/
structure Count where
  val : Nat
  pos : 0 < val
  deriving DecidableEq

namespace Count

def one : Count := ⟨1, Nat.one_pos⟩

def add (a b : Count) : Count := ⟨a.val + b.val, Nat.add_pos_left a.pos _⟩

instance : Add Count := ⟨add⟩

def ofInt? (n : Int) : Option Count :=
  if h : 0 < n.toNat then some ⟨n.toNat, h⟩ else none

@[simp] theorem val_add (a b : Count) : (a + b).val = a.val + b.val := rfl

@[ext] theorem ext {a b : Count} (h : a.val = b.val) : a = b := by
  cases a
  cases b
  cases h
  rfl

end Count

/-- An instruction that is not a loop. An unknown one has no meaning: it stays where it is until a
run or a listing meets it and stops. Unknown ones are not told apart: all are displayed as `Unknown()`. -/
inductive Action
  | apply (op : TapeOp) (count : Count)
  | output
  | input
  | unknown
  deriving DecidableEq

inductive Instruction
  | act (action : Action)
  | loop (body : List Instruction)

abbrev Program := List Instruction

/-- A count that no instruction can have. -/
structure CountError where
  op : TapeOp
  count : Int
  deriving Inhabited

def TapeOp.title : TapeOp → String
  | .moveRight => "MoveRight"
  | .moveLeft => "MoveLeft"
  | .increment => "Increment"
  | .decrement => "Decrement"

def CountError.message (e : CountError) : String :=
  e.op.title ++ " count must be >= 1, got " ++ toString e.count

/-- The instruction that applies `op` the given number of times. -/
def Instruction.counted (op : TapeOp) (count : Int) : Except CountError Instruction :=
  match Count.ofInt? count with
  | some n => .ok (.act (.apply op n))
  | none => .error ⟨op, count⟩

/-- A count passes the check that its instruction makes. -/
theorem Instruction.counted_val (op : TapeOp) (n : Count) :
    counted op n.val = .ok (.act (.apply op n)) := by
  have hn : Count.ofInt? n.val = some n := dif_pos n.pos
  simp only [counted, hn]

mutual

/-- Whether no instruction is unknown, at any depth. -/
def Instruction.isKnown : Instruction → Bool
  | .act .unknown => false
  | .act _ => true
  | .loop body => Program.isKnown body

def Program.isKnown : Program → Bool
  | [] => true
  | i :: is => i.isKnown && Program.isKnown is

end

/-! Equality of trees is decided node by node. -/

mutual

def Instruction.same : Instruction → Instruction → Bool
  | .act a, .act b => a == b
  | .loop a, .loop b => Program.same a b
  | _, _ => false

def Program.same : Program → Program → Bool
  | [], [] => true
  | i :: is, j :: js => i.same j && Program.same is js
  | _, _ => false

end

mutual

theorem Instruction.same_iff : ∀ i j : Instruction, i.same j = true ↔ i = j
  | .act a, .act b => by simp [Instruction.same]
  | .loop a, .loop b => by simp [Instruction.same, Program.same_iff a b]
  | .act _, .loop _ => by simp [Instruction.same]
  | .loop _, .act _ => by simp [Instruction.same]

theorem Program.same_iff : ∀ p q : Program, Program.same p q = true ↔ p = q
  | [], [] => by simp [Program.same]
  | i :: is, j :: js => by
    simp [Program.same, Instruction.same_iff i j, Program.same_iff is js]
  | [], _ :: _ => by simp [Program.same]
  | _ :: _, [] => by simp [Program.same]

end

/-- Whether two programs are sure to be equal; an unknown instruction could be anything. -/
def Program.agree (p q : Program) : Bool := Program.same p q && p.isKnown

instance : DecidableEq Instruction := fun i j => decidable_of_iff _ (Instruction.same_iff i j)

end Brainfuck
