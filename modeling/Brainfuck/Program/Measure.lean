import Brainfuck.Program.Pass

/-! How large a program is and how deep its loops nest, from one pass over it. -/
namespace Brainfuck

/-- The nodes met so far, the loops open now and the most that were ever open. -/
structure Measure where
  nodes : Nat
  depth : Nat
  deepest : Nat

namespace Measure

def start : Measure := ⟨0, 0, 0⟩

def visit (m : Measure) : Visit → Measure
  | .act _ => { m with nodes := m.nodes + 1 }
  | .enter => ⟨m.nodes + 1, m.depth + 1, max m.deepest (m.depth + 1)⟩
  | .leave => { m with depth := m.depth - 1 }

end Measure

namespace Program

def measure (p : Program) : Measure := p.fold Measure.visit Measure.start

/-- The number of nodes, loops included. -/
def size (p : Program) : Nat := p.measure.nodes

/-- The most loops around any place of the program. -/
def depth (p : Program) : Nat := p.measure.deepest

end Program

end Brainfuck
