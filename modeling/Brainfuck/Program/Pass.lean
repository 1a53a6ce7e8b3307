import Brainfuck.Instruction

/-! One pass over a program, in source order: each loop is entered once and left once. -/
namespace Brainfuck

inductive Visit
  | act (action : Action)
  | enter
  | leave
  deriving DecidableEq

variable {σ : Type}

mutual

/-- Feeds the visits of one instruction to `f`. -/
def Instruction.fold (f : σ → Visit → σ) : Instruction → σ → σ
  | .act a, s => f s (.act a)
  | .loop body, s => f (Program.fold f body (f s .enter)) .leave

/-- Feeds the visits of a program to `f`, first to last. -/
def Program.fold (f : σ → Visit → σ) : Program → σ → σ
  | [], s => s
  | i :: is, s => Program.fold f is (i.fold f s)

end

mutual

def Instruction.visits : Instruction → List Visit
  | .act a => [.act a]
  | .loop body => .enter :: Program.visits body ++ [.leave]

def Program.visits : Program → List Visit
  | [] => []
  | i :: is => i.visits ++ Program.visits is

end

mutual

theorem Instruction.fold_eq (f : σ → Visit → σ) :
    ∀ (i : Instruction) (s : σ), i.fold f s = i.visits.foldl f s
  | .act _, _ => rfl
  | .loop body, s => by
    simp [Instruction.fold, Instruction.visits, Program.fold_eq f body]

/-- A fold over the tree is the fold over the list of its visits. -/
theorem Program.fold_eq (f : σ → Visit → σ) :
    ∀ (p : Program) (s : σ), Program.fold f p s = (Program.visits p).foldl f s
  | [], _ => rfl
  | i :: is, s => by
    simp [Program.fold, Program.visits, Instruction.fold_eq f i, Program.fold_eq f is]

end

/-- Once a pass that can fail has failed, it stays as it is. -/
theorem foldl_bind_error {ε : Type} (f : σ → Visit → Except ε σ) (e : ε) (vs : List Visit) :
    vs.foldl (fun (done : Except ε σ) v => done.bind (f · v)) (.error e) = .error e := by
  induction vs with
  | nil => rfl
  | cons v vs ih => exact ih

theorem Program.visits_append {p q : Program} : visits (p ++ q) = visits p ++ visits q := by
  induction p with
  | nil => rfl
  | cons i p ih => simp [visits, ih]

end Brainfuck
