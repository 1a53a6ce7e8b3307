import Brainfuck.Instruction

/-! Walking a program with a visitor that decides about loops. The walk keeps its own stack of open
passes, so it can be stopped after any number of rounds and taken up again. -/
namespace Brainfuck

variable {ε σ : Type}

/-- What a walk does at each place. `enter` decides whether a loop's body is walked at all, and
`again`, after each pass over the body, whether it is walked once more. -/
structure Visitor (ε σ : Type) where
  act : Action → EStateM ε σ Unit
  enter : Program → EStateM ε σ Bool
  again : Program → EStateM ε σ Bool

/-- An open pass over a body: what is left of it and, for a loop, the whole body. -/
structure Frame where
  rest : Program
  loop : Option Program

namespace Visitor

/-- One round: the innermost pass meets its next instruction or ends. -/
def round (v : Visitor ε σ) (inner : Frame) (outer : List Frame) : EStateM ε σ (List Frame) :=
  match inner.rest, inner.loop with
  | [], none => pure outer
  | [], some body => do
    if ← v.again body then pure (⟨body, some body⟩ :: outer) else pure outer
  | .act a :: rest, loop => do
    v.act a
    pure (⟨rest, loop⟩ :: outer)
  | .loop body :: rest, loop => do
    if ← v.enter body then pure (⟨body, some body⟩ :: ⟨rest, loop⟩ :: outer)
    else pure (⟨rest, loop⟩ :: outer)

/-- At most the given number of rounds. The frames that are left are those of an unfinished walk;
none are left when it has ended. -/
def rounds (v : Visitor ε σ) : Nat → List Frame → σ → EStateM.Result ε σ (List Frame)
  | 0, frames, s => .ok frames s
  | _ + 1, [], s => .ok [] s
  | n + 1, inner :: outer, s =>
    match v.round inner outer s with
    | .ok frames s => v.rounds n frames s
    | .error e s => .error e s

theorem rounds_nil (v : Visitor ε σ) (n : Nat) (s : σ) : v.rounds n [] s = .ok [] s := by
  cases n <;> rfl

/-- Rounds can be taken in two parts; the second takes up where the first stopped. -/
theorem rounds_add (v : Visitor ε σ) (m n : Nat) (frames : List Frame) (s : σ) :
    v.rounds (m + n) frames s =
      match v.rounds m frames s with
      | .ok frames s => v.rounds n frames s
      | .error e s => .error e s := by
  induction m generalizing frames s with
  | zero => simp [rounds]
  | succ m ih =>
    cases frames with
    | nil => simp [rounds_nil]
    | cons inner outer =>
      simp only [Nat.succ_add, rounds]
      cases v.round inner outer s <;> simp [ih]

def walk (v : Visitor ε σ) (n : Nat) (p : Program) (s : σ) : EStateM.Result ε σ (List Frame) :=
  v.rounds n [⟨p, none⟩] s

end Visitor

end Brainfuck
