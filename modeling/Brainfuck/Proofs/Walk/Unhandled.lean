import Brainfuck.Proofs.Program.Shape
import Brainfuck.Walk.Trace

/-! Walks of visitors that leave handlers out: where they stop, and with which failure. -/
namespace Brainfuck

/-- How a visitor fails that has no handler for what is visited. -/
def Visit.unhandled : Visit → WalkError
  | .act .unknown => .unsupported
  | _ => .unimplemented

/-- The first that is visited when all loops before it are entered. -/
def Program.afterEntering (p : Program) : Option Visit := (p.visits.dropWhile (· = .enter)).head?

/-- Past the start of a loop there is at least the end of its body. -/
theorem Program.afterEntering_loop {body p : Program} :
    afterEntering (.loop body :: p) = some (body.afterEntering.getD .leave) := by
  simp only [afterEntering, visits, Instruction.visits, List.cons_append, List.append_assoc]
  rw [List.dropWhile_cons_of_pos (by simp), List.dropWhile_append]
  cases h : (visits body).dropWhile (· = .enter) <;> rfl

namespace Visitor

variable {σ : Type}

theorem bare_act (a : Action) (s : σ) : bare.act a s = .error (Visit.act a).unhandled s := by
  cases a <;> rfl

theorem rounds_entering : ∀ (p body : Program) (outer : List Frame) (s : σ) (n : Nat),
    Program.nodes p < n → entering.rounds n (⟨p, some body⟩ :: outer) s =
      .error (p.afterEntering.getD .leave).unhandled s
  | [], _, _, _, _ + 1, _ => rfl
  | .act a :: _, _, _, _, _ + 1, _ => by
    simp only [rounds, round, entering, bind, EStateM.bind, bare_act]
    rfl
  | .loop inner :: p, body, outer, s, n + 1, hn => by
    have hnodes : Program.nodes inner < n := by
      simp only [Program.nodes, Instruction.nodes] at hn
      omega
    rw [Program.afterEntering_loop, Option.getD_some,
      ← rounds_entering inner inner (⟨p, some body⟩ :: outer) s n hnodes]
    rfl

end Visitor

namespace Program

/-- A visitor that handles nothing stops at the first instruction. -/
theorem bareTrace_eq (p : Program) : p.bareTrace = ⟨#[], p.visits.head?.map Visit.unhandled⟩ := by
  match p with
  | [] => rfl
  | .act a :: p =>
    simp only [bareTrace, Visitor.walk, Visitor.rounds, Visitor.round, bind, EStateM.bind,
      Visitor.bare_act]
    rfl
  | .loop body :: p => rfl

/-- A visitor that only enters loops stops at the first instruction that is none, or where a body ends. -/
theorem enteringTrace_eq (p : Program) :
    p.enteringTrace = ⟨#[], p.afterEntering.map Visit.unhandled⟩ := by
  match p with
  | [] => rfl
  | .act a :: p =>
    simp only [enteringTrace, Visitor.walk, Visitor.rounds, Visitor.round, Visitor.entering, bind,
      EStateM.bind, Visitor.bare_act]
    rfl
  | .loop body :: p =>
    have hnodes : nodes body < size (.loop body :: p) + 1 := by
      rw [size_eq_nodes, nodes, Instruction.nodes]
      omega
    have hinside := Visitor.rounds_entering body body [⟨p, none⟩] (⟨[], #[]⟩ : Recording) _ hnodes
    have hwalk : Visitor.entering.walk (size (.loop body :: p) + 2) (.loop body :: p) ⟨[], #[]⟩ =
        Visitor.entering.rounds (size (.loop body :: p) + 1) (⟨body, some body⟩ :: [⟨p, none⟩])
          (⟨[], #[]⟩ : Recording) := rfl
    rw [enteringTrace, hwalk, hinside, afterEntering_loop]
    rfl

end Program

end Brainfuck
