import Brainfuck.Proofs.Optimize.Merged
import Brainfuck.Proofs.Walk.Recursion

/-! How many nodes a program has and how deep its loops nest, counted along a walk, and what merging does to
the two. -/
namespace Brainfuck

namespace Measure

/-- The visitor that counts nodes and open loops. It never fails. -/
def counter : Visitor Empty Measure := .folding fun m now => .ok (m.visit now)

/-- Walking with the stack counts what one pass over the tree does. -/
theorem walk_counter {n : Nat} (p : Program) (m : Measure) (hn : p.visits.length < n) :
    counter.walk n p m = .ok [] (p.fold visit m) := by
  have hlength : p.encounters.length < n := by
    rwa [← Program.visit_encounters, List.length_map] at hn
  have hfollows : counter.Follows true fun _ => [] := Visitor.follows_folding _
  obtain ⟨r, hmet, hwalk⟩ := Visitor.walk_encounters hfollows p m hlength
  have hcount : Visitor.outcome r = .ok (p.fold visit m) := by
    rw [Visitor.folding_meetsAll hmet, Program.visit_encounters, Program.fold_eq]
    exact Visitor.foldl_ok visit p.visits m
  rcases Visitor.yields_cases hwalk with ⟨s, rfl, hw⟩ | ⟨x, -⟩
  · cases hcount
    exact hw
  · exact x.elim

end Measure

namespace Program

/-- Fewer nodes, or the same program. -/
def Shrinks (p q : Program) : Prop := q.nodes < p.nodes ∨ q = p

variable {p q r done : Program} {i j : Instruction}

theorem nodes_append : nodes (p ++ q) = p.nodes + q.nodes := by
  induction p with
  | nil => exact (Nat.zero_add _).symm
  | cons i p ih => rw [List.cons_append, nodes, nodes, ih, Nat.add_assoc]

theorem shrinks_refl (p : Program) : p.Shrinks p := Or.inr rfl

theorem shrinks_trans (h : p.Shrinks q) (h' : q.Shrinks r) : p.Shrinks r := by
  rcases h with hless | rfl
  · rcases h' with hless' | rfl
    · exact Or.inl (Nat.lt_trans hless' hless)
    · exact Or.inl hless
  · exact h'

theorem shrinks_between (before after : Program) (h : p.Shrinks q) :
    Shrinks (before ++ p ++ after) (before ++ q ++ after) := by
  rcases h with hless | rfl
  · left
    simp only [nodes_append]
    omega
  · exact shrinks_refl _

/-- An instruction that joins the one before it is a node less. -/
theorem shrinks_merge (done : Program) (i : Instruction) :
    Shrinks (done.reverse ++ [i]) (merge done i).reverse := by
  rcases merge_cases done i with ⟨op, n, m, before, rfl, rfl, hmerge⟩ | ⟨hmerge, -⟩
  · left
    simp only [hmerge, List.reverse_cons, nodes_append, nodes, Instruction.nodes]
    omega
  · right
    rw [hmerge, List.reverse_cons]

mutual

theorem shrinks_optimize_instruction : ∀ i : Instruction, Shrinks [i] [i.optimize]
  | .act _ => shrinks_refl _
  | .loop body => by
    rcases shrinks_optimizeOnto body [] with hless | hsame
    · exact Or.inl (Nat.add_lt_add_right (Nat.succ_lt_succ hless) 0)
    · exact Or.inr (congrArg (fun body => [Instruction.loop body]) hsame)

/-- Merging drops nodes or changes nothing, at every depth. -/
theorem shrinks_optimizeOnto :
    ∀ p done : Program, Shrinks (done.reverse ++ p) (optimizeOnto done p)
  | [], done => Or.inr (List.append_nil _).symm
  | i :: p, done => by
    have hi := shrinks_between done.reverse p (shrinks_optimize_instruction i)
    have hmerge := shrinks_between [] p (shrinks_merge done i.optimize)
    have hp := shrinks_optimizeOnto p (merge done i.optimize)
    have hlast := shrinks_trans (shrinks_trans hi hmerge) hp
    rwa [List.append_assoc] at hlast

end

theorem shrinks_optimize (p : Program) : p.Shrinks p.optimize := shrinks_optimizeOnto p []

/-- The count of instructions and the depth that a walk finds with its running counts are the number of nodes
and the depth of nesting that the tree has, and the walk ends with no loop open. Merging leaves the depth,
and it leaves as many instructions only if it changes nothing; otherwise there are fewer. -/
theorem measure_of_tree (p : Program) :
    (∀ n, p.visits.length < n → Measure.counter.walk n p .start = .ok [] ⟨p.nodes, 0, p.nesting⟩) ∧
    p.size = p.nodes ∧ p.depth = p.nesting ∧ p.optimize.depth = p.depth ∧
    p.optimize.size ≤ p.size ∧ (p.optimize.size = p.size ↔ p.optimize = p) := by
  have hshrinks := p.shrinks_optimize
  refine ⟨fun n hn => ?_, size_eq_nodes p, depth_eq_nesting p, ?_, ?_, ?_⟩
  · rw [Measure.walk_counter p .start hn, ← measure, measure_eq]
  · rw [depth_eq_nesting, depth_eq_nesting, nesting_optimize]
  · rw [size_eq_nodes, size_eq_nodes]
    rcases hshrinks with hless | hsame
    · exact Nat.le_of_lt hless
    · exact Nat.le_of_eq (congrArg nodes hsame)
  · rw [size_eq_nodes, size_eq_nodes]
    constructor
    · intro heq
      exact hshrinks.resolve_left (by omega)
    · exact congrArg nodes

/-- A run inside two loops, beside a shallower loop with an unknown instruction. -/
theorem measure_of_tree_nested :
    ∃ p : Program, p.optimize ≠ p ∧ p.optimize.size < p.size ∧ p.depth = 2 ∧ p.optimize.depth = 2 ∧
      Measure.counter.walk 10 p .start = .ok [] ⟨6, 0, 2⟩ := by
  let right : Instruction := .act (.apply .moveRight .one)
  let p : Program := [.loop [.loop [right, right]], .loop [.act .unknown]]
  obtain ⟨hwalk, -, -, hdepth, hle, hiff⟩ := measure_of_tree p
  have hne : p.optimize ≠ p := by decide
  have htwo : p.depth = 2 := by decide
  refine ⟨p, hne, Nat.lt_of_le_of_ne hle (mt hiff.mp hne), htwo, hdepth.trans htwo, ?_⟩
  exact hwalk 10 (by decide)

end Program

end Brainfuck
