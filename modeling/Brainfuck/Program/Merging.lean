import Brainfuck.Program.Optimize

/-! Merging with a stack of open bodies instead of a recursion: a run is read to its end before its sum is
added, and a body to its end before its loop is. -/
namespace Brainfuck

/-- A body that is being merged: the place it has been read to, and what has come of it so far, the last
instruction first. -/
structure Merging where
  source : Program
  index : Nat
  merged : List Instruction

namespace Merging

/-- Open bodies, the innermost first, or the merged program. -/
inductive Stage
  | within (inner : Merging) (outer : List Merging)
  | done (p : Program)

def start (p : Program) : Stage := .within ⟨p, 0, []⟩ []

/-- Adds up what follows that applies the same operation; gives the sum and the place after it. -/
def absorb (op : TapeOp) : Program → Nat → Nat → Nat × Nat
  | .act (.apply op' n) :: rest, index, total =>
    if op' = op then absorb op rest (index + 1) (total + n.val) else (total, index)
  | _, index, total => (total, index)

/-- One round: the innermost body ends, or its next instruction is read, a run as a whole. The sum of a run
is checked like any count. -/
def round (inner : Merging) (outer : List Merging) : Except CountError Stage :=
  match inner.source[inner.index]? with
  | none =>
    match outer with
    | [] => .ok (.done inner.merged.reverse)
    | next :: outer =>
      .ok (.within { next with merged := .loop inner.merged.reverse :: next.merged } outer)
  | some (.loop body) =>
    .ok (.within ⟨body, 0, []⟩ ({ inner with index := inner.index + 1 } :: outer))
  | some (.act (.apply op n)) =>
    let (total, index) :=
      absorb op (inner.source.drop (inner.index + 1)) (inner.index + 1) n.val
    (Instruction.counted op total).map fun sum =>
      .within ⟨inner.source, index, sum :: inner.merged⟩ outer
  | some (.act a) =>
    .ok (.within ⟨inner.source, inner.index + 1, .act a :: inner.merged⟩ outer)

/-- At most the given number of rounds. -/
def rounds : Nat → Stage → Except CountError Stage
  | 0, stage => .ok stage
  | _ + 1, .done p => .ok (.done p)
  | n + 1, .within inner outer => (round inner outer).bind (rounds n)

end Merging

end Brainfuck
