import Brainfuck.Program.Measure
import Brainfuck.Proofs.Optimize.Units

/-! The number of nodes of a program and how deep its loops nest, told by the tree itself. One pass with a
running depth finds both, and merging leaves the depth. -/
namespace Brainfuck

mutual

def Instruction.nodes : Instruction → Nat
  | .act _ => 1
  | .loop body => Program.nodes body + 1

/-- All nodes of the tree, each loop counted once beside its body. -/
def Program.nodes : Program → Nat
  | [] => 0
  | i :: is => i.nodes + Program.nodes is

end

mutual

def Instruction.nesting : Instruction → Nat
  | .act _ => 0
  | .loop body => Program.nesting body + 1

/-- The most loops one inside the other. -/
def Program.nesting : Program → Nat
  | [] => 0
  | i :: is => max i.nesting (Program.nesting is)

end

variable {p q done : Program} {i : Instruction}

/-- The measure after some more of the tree: the depth is again what it was. -/
def Measure.add (m : Measure) (nodes nesting : Nat) : Measure :=
  ⟨m.nodes + nodes, m.depth, max m.deepest (m.depth + nesting)⟩

namespace Program

mutual

theorem fold_measure_instruction : ∀ (i : Instruction) (m : Measure), m.depth ≤ m.deepest →
    i.fold Measure.visit m = m.add i.nodes i.nesting
  | .act a, m, h => by
    have hdeepest : max m.deepest m.depth = m.deepest := Nat.max_eq_left h
    simp [Instruction.fold, Measure.visit, Measure.add, Instruction.nodes, Instruction.nesting,
      hdeepest]
  | .loop body, m, h => by
    have hbody := fold_measure body (m.visit .enter) (Nat.le_max_right _ _)
    rw [Instruction.fold, hbody]
    simp only [Measure.visit, Measure.add, Instruction.nodes, Instruction.nesting, Measure.mk.injEq]
    omega

/-- A pass over a tree adds its nodes, and the depth it reaches if that is new. -/
theorem fold_measure : ∀ (p : Program) (m : Measure), m.depth ≤ m.deepest →
    p.fold Measure.visit m = m.add p.nodes p.nesting
  | [], m, h => by
    have hdeepest : max m.deepest m.depth = m.deepest := Nat.max_eq_left h
    simp [fold, Measure.add, nodes, nesting, hdeepest]
  | i :: p, m, h => by
    have hi := fold_measure_instruction i m h
    have hp := fold_measure p (m.add i.nodes i.nesting) (Nat.le_trans h (Nat.le_max_left _ _))
    rw [fold, hi, hp]
    simp only [Measure.add, nodes, nesting, Measure.mk.injEq, true_and]
    omega

end

theorem measure_eq (p : Program) : p.measure = ⟨p.nodes, 0, p.nesting⟩ := by
  rw [measure, fold_measure p Measure.start (Nat.le_refl _)]
  simp [Measure.add, Measure.start]

theorem size_eq_nodes (p : Program) : p.size = p.nodes := by
  rw [size, measure_eq]

theorem depth_eq_nesting (p : Program) : p.depth = p.nesting := by
  rw [depth, measure_eq]

theorem nesting_append : nesting (p ++ q) = max p.nesting q.nesting := by
  induction p with
  | nil => exact (Nat.zero_max _).symm
  | cons i p ih => rw [List.cons_append, nesting, nesting, ih, Nat.max_assoc]

theorem nesting_run (op : TapeOp) (k : Nat) :
    nesting (List.replicate k (.act (.apply op .one))) = 0 := by
  induction k with
  | zero => rfl
  | succ k ih =>
    rw [List.replicate_succ, nesting, ih]
    rfl

mutual

theorem nesting_units_instruction : ∀ i : Instruction, nesting i.units = i.nesting
  | .act (.apply op n) => by
    rw [Instruction.units, Action.units, List.map_replicate, nesting_run]
    rfl
  | .act .output | .act .input | .act .unknown => rfl
  | .loop body => by
    rw [Instruction.units, nesting, Instruction.nesting, nesting_units body, nesting,
      Instruction.nesting]
    exact Nat.max_zero _

theorem nesting_units : ∀ p : Program, p.units.nesting = p.nesting
  | [] => rfl
  | i :: p => by
    rw [units, nesting_append, nesting_units_instruction i, nesting_units p, nesting]

end

/-- Only tape operations are merged, so loops nest as deep as before. -/
theorem nesting_optimize (p : Program) : p.optimize.nesting = p.nesting := by
  rw [← nesting_units, units_optimize, nesting_units]

end Program

end Brainfuck
