import Brainfuck.Proofs.Program.Shape
import Brainfuck.Walk.Trace

/-! The recursive traversal of a program, for visitors whose answers about loops come from a list. Once
the list is used up no loop is walked again; whether one is still entered depends on the visitor. -/
namespace Brainfuck

/-- One place a traversal comes to, with the answer given there. -/
inductive Encounter
  | act (action : Action)
  | enter (body : Program) (answer : Bool)
  | again (body : Program) (answer : Bool)

namespace Encounter

def call : Encounter → Call
  | act a => .act a
  | enter body answer => .enter body.length answer
  | again body answer => .again body.length answer

def visit : Encounter → Visit
  | act a => .act a
  | enter _ _ => .enter
  | again _ _ => .leave

def isKnown : Encounter → Bool
  | act .unknown => false
  | _ => true

/-- The node met for the first time. -/
def node? : Encounter → Option Instruction
  | act a => some (.act a)
  | enter body _ => some (.loop body)
  | again _ _ => none

end Encounter

/-- What a traversal meets, and the answers it leaves of those it had. -/
structure Traversal (answers : List Bool) where
  met : List Encounter
  left : List Bool
  length_le : left.length ≤ answers.length

variable {eager : Bool} {answers : List Bool} {p body : Program} {i : Instruction}

namespace Traversal

/-- After the next of the answers that are left there are fewer than at the start. -/
theorem length_lt {answer : Bool} {rest : List Bool} (t : Traversal answers)
    (h : t.left = answer :: rest) : rest.length < answers.length := by
  have hle := t.length_le
  rw [h] at hle
  exact hle

/-- Passes over a body until the answer after one of them is no. -/
def passes (body : Program) (once : ∀ answers, Traversal answers) (answers : List Bool) :
    Traversal answers :=
  match hleft : (once answers).left with
  | true :: rest =>
    let later := passes body once rest
    ⟨(once answers).met ++ .again body true :: later.met, later.left,
      Nat.le_trans later.length_le (Nat.le_of_lt ((once answers).length_lt hleft))⟩
  | false :: rest =>
    ⟨(once answers).met ++ [.again body false], rest,
      Nat.le_of_lt ((once answers).length_lt hleft)⟩
  | [] => ⟨(once answers).met ++ [.again body false], [], Nat.zero_le _⟩
termination_by answers.length
decreasing_by exact (once answers).length_lt hleft

end Traversal

mutual

/-- A loop is asked for once, and if it is entered its body is traversed, once or more often. -/
def Instruction.traverse (eager : Bool) : Instruction → (answers : List Bool) → Traversal answers
  | .act a, answers => ⟨[.act a], answers, Nat.le_refl _⟩
  | .loop body, answers =>
    match answers.headD eager with
    | true =>
      let walked := Traversal.passes body (Program.traverse eager body) answers.tail
      ⟨.enter body true :: walked.met, walked.left, Nat.le_trans walked.length_le (by simp)⟩
    | false => ⟨[.enter body false], answers.tail, by simp⟩

/-- The instructions of a program in order, each with the answers the ones before it left. -/
def Program.traverse (eager : Bool) : Program → (answers : List Bool) → Traversal answers
  | [], answers => ⟨[], answers, Nat.le_refl _⟩
  | i :: is, answers =>
    let first := i.traverse eager answers
    let later := Program.traverse eager is first.left
    ⟨first.met ++ later.met, later.left, Nat.le_trans later.length_le first.length_le⟩

end

theorem Program.met_traverse_cons : (Program.traverse eager (i :: p) answers).met =
    (i.traverse eager answers).met ++ (p.traverse eager (i.traverse eager answers).left).met := rfl

section once

mutual

/-- A loop that is always entered and never walked again: what its body meets stands between its start and
its end. -/
def Instruction.encounters : Instruction → List Encounter
  | .act a => [.act a]
  | .loop body => .enter body true :: Program.encounters body ++ [.again body false]

/-- What a traversal meets that enters every loop once. -/
def Program.encounters : Program → List Encounter
  | [] => []
  | i :: is => i.encounters ++ Program.encounters is

end

mutual

def Instruction.preorder : Instruction → List Instruction
  | .act a => [.act a]
  | .loop body => .loop body :: Program.preorder body

/-- The nodes of the tree, each before those of its body. -/
def Program.preorder : Program → List Instruction
  | [] => []
  | i :: is => i.preorder ++ Program.preorder is

end

theorem Traversal.left_nil (t : Traversal []) : t.left = [] :=
  List.eq_nil_of_length_eq_zero (Nat.le_zero.mp t.length_le)

theorem Traversal.passes_nil (body : Program) (once : ∀ answers, Traversal answers) :
    (passes body once []).met = (once []).met ++ [.again body false] := by
  have hleft := (once []).left_nil
  rw [passes]
  split
  case h_1 rest heq => rw [hleft] at heq; cases heq
  case h_2 rest heq => rfl
  case h_3 heq => rfl

mutual

theorem Instruction.met_traverse_nil : ∀ i : Instruction, (i.traverse true []).met = i.encounters
  | .act _ => rfl
  | .loop body => by
    have hbody := Program.met_traverse_nil body
    have hpasses := Traversal.passes_nil body (Program.traverse true body)
    rw [Instruction.encounters, ← hbody, List.cons_append, ← hpasses]
    rfl

theorem Program.met_traverse_nil : ∀ p : Program, (p.traverse true []).met = p.encounters
  | [] => rfl
  | i :: p => by
    have hleft := (i.traverse true []).left_nil
    rw [Program.met_traverse_cons, hleft, Instruction.met_traverse_nil i, Program.met_traverse_nil p,
      Program.encounters]

end

mutual

theorem Instruction.visit_encounters : ∀ i : Instruction, i.encounters.map Encounter.visit = i.visits
  | .act _ => rfl
  | .loop body => by
    simp [Instruction.encounters, Instruction.visits, Encounter.visit, Program.visit_encounters body]

theorem Program.visit_encounters : ∀ p : Program, p.encounters.map Encounter.visit = p.visits
  | [] => rfl
  | i :: p => by
    rw [Program.encounters, List.map_append, Instruction.visit_encounters i,
      Program.visit_encounters p, Program.visits]

end

mutual

theorem Instruction.node_encounters :
    ∀ i : Instruction, i.encounters.filterMap Encounter.node? = i.preorder
  | .act _ => rfl
  | .loop body => by
    simp [Instruction.encounters, Instruction.preorder, Encounter.node?, Program.node_encounters body]

/-- Each node is met for the first time once, in the order of the tree. -/
theorem Program.node_encounters : ∀ p : Program, p.encounters.filterMap Encounter.node? = p.preorder
  | [] => rfl
  | i :: p => by
    rw [Program.encounters, List.filterMap_append, Instruction.node_encounters i,
      Program.node_encounters p, Program.preorder]

end

end once

section length

/-- Each answer pays for one pass over a body that is no longer than `k`. -/
theorem Traversal.length_passes {k : Nat} {once : ∀ answers, Traversal answers}
    (honce : ∀ answers, (once answers).met.length + k * (once answers).left.length ≤
      k * answers.length + body.nodes) (hk : body.nodes + 1 ≤ k) (answers : List Bool) :
    (passes body once answers).met.length + k * (passes body once answers).left.length ≤
      k * answers.length + body.nodes + 1 := by
  have hfirst := honce answers
  rw [passes]
  split
  case h_1 rest hleft =>
    have hless := (once answers).length_lt hleft
    have hlater := length_passes honce hk rest
    rw [hleft, List.length_cons, Nat.mul_succ] at hfirst
    simp only [List.length_append, List.length_cons]
    omega
  case h_2 rest hleft =>
    rw [hleft, List.length_cons, Nat.mul_succ] at hfirst
    simp only [List.length_append, List.length_cons, List.length_nil]
    omega
  case h_3 hleft =>
    rw [hleft] at hfirst
    simp only [List.length_append, List.length_cons, List.length_nil] at hfirst ⊢
    omega
termination_by answers.length

mutual

theorem Instruction.length_traverse : ∀ (i : Instruction) {k : Nat}, i.nodes ≤ k → ∀ answers,
    (i.traverse false answers).met.length + k * (i.traverse false answers).left.length ≤
      k * answers.length + i.nodes
  | .act a, k, hk, answers => by
    simp only [Instruction.traverse, Instruction.nodes, List.length_singleton]
    omega
  | .loop body, k, hk, answers => by
    rw [Instruction.nodes] at hk ⊢
    cases answers with
    | nil => simp [Instruction.traverse]
    | cons answer rest =>
      cases answer with
      | false =>
        simp only [Instruction.traverse, List.headD_cons, List.tail_cons, List.length_cons,
          List.length_nil, Nat.mul_succ]
        omega
      | true =>
        have hbody := Program.length_traverse body (Nat.le_of_succ_le hk)
        have hpasses := Traversal.length_passes hbody hk rest
        simp only [Instruction.traverse, List.headD_cons, List.tail_cons, List.length_cons,
          Nat.mul_succ]
        omega

/-- What a traversal meets besides one pass over the program is paid for by the answers it uses. -/
theorem Program.length_traverse : ∀ (p : Program) {k : Nat}, p.nodes ≤ k → ∀ answers,
    (p.traverse false answers).met.length + k * (p.traverse false answers).left.length ≤
      k * answers.length + p.nodes
  | [], k, hk, answers => by
    simp [Program.traverse]
  | i :: p, k, hk, answers => by
    rw [Program.nodes] at hk ⊢
    have hfirst := Instruction.length_traverse i (k := k) (by omega) answers
    have hlater := Program.length_traverse p (k := k) (by omega) (i.traverse false answers).left
    rw [Program.met_traverse_cons, List.length_append]
    change _ + k * (Program.traverse false p (i.traverse false answers).left).left.length ≤ _
    omega

end

theorem Program.met_traverse_lt (p : Program) (answers : List Bool) :
    (p.traverse false answers).met.length < p.traceRounds answers := by
  have hlength := p.length_traverse (Nat.le_refl p.nodes) answers
  rw [Program.traceRounds, Program.size_eq_nodes, Nat.succ_mul, Nat.mul_succ,
    Nat.mul_comm answers.length]
  omega

end length

end Brainfuck
