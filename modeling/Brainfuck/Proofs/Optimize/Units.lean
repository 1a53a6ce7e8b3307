import Brainfuck.Program.Optimize

/-! Programs with their counts written out. Merging undoes the writing out, and nothing else. -/
namespace Brainfuck

/-- The action done once, as often as it is counted. -/
def Action.units : Action → List Action
  | .apply op n => List.replicate n.val (.apply op .one)
  | a => [a]

mutual

def Instruction.units : Instruction → Program
  | .act a => a.units.map .act
  | .loop body => [.loop (Program.units body)]

/-- Every counted instruction becomes as many instructions of count one, in every body. -/
def Program.units : Program → Program
  | [] => []
  | i :: is => i.units ++ Program.units is

end

namespace Program

variable {p q a b : Program} {done : List Instruction} {i : Instruction} {op : TapeOp} {n m : Count}

theorem units_append : units (p ++ q) = units p ++ units q := by
  induction p with
  | nil => rfl
  | cons i p ih => rw [List.cons_append, units, units, ih, List.append_assoc]

theorem units_singleton : units [i] = i.units := by
  rw [units, units, List.append_nil]

theorem units_add (op : TapeOp) (n m : Count) : (Instruction.act (.apply op (n + m))).units =
    (Instruction.act (.apply op n)).units ++ (Instruction.act (.apply op m)).units := by
  simp only [Instruction.units, Action.units, Count.val_add, ← List.replicate_append_replicate,
    List.map_append]

theorem isKnown_append : isKnown (p ++ q) = (isKnown p && isKnown q) := by
  induction p with
  | nil => rfl
  | cons i p ih => rw [List.cons_append, isKnown, isKnown, ih, Bool.and_assoc]

theorem isKnown_run (op : TapeOp) (k : Nat) :
    isKnown (List.replicate k (.act (.apply op .one))) = true := by
  induction k with
  | zero => rfl
  | succ k ih =>
    rw [List.replicate_succ, isKnown, ih]
    rfl

mutual

theorem isKnown_units_instruction : ∀ i : Instruction, isKnown i.units = i.isKnown
  | .act (.apply op n) => by
    rw [Instruction.units, Action.units, List.map_replicate, isKnown_run]
    rfl
  | .act .output => rfl
  | .act .input => rfl
  | .act .unknown => rfl
  | .loop body => by
    rw [Instruction.units, isKnown, Instruction.isKnown, isKnown_units body, isKnown, Bool.and_true,
      Instruction.isKnown]

theorem isKnown_units : ∀ p : Program, p.units.isKnown = p.isKnown
  | [] => rfl
  | i :: p => by
    rw [units, isKnown_append, isKnown_units_instruction i, isKnown_units p, isKnown]

end

/-- What is merged into a run still has the run's units. -/
theorem units_merge : units (merge done i).reverse = units done.reverse ++ i.units := by
  unfold merge
  split
  next op n before op' n' =>
    split
    next hop =>
      subst hop
      have hadd := units_add op n n'
      simp only [List.reverse_cons, units_append, units_singleton, List.append_assoc, hadd]
    next => simp only [List.reverse_cons, units_append, units_singleton]
  next => simp only [List.reverse_cons, units_append, units_singleton]

mutual

theorem units_optimize_instruction : ∀ i : Instruction, i.optimize.units = i.units
  | .act _ => rfl
  | .loop body => by
    have hbody := units_optimizeOnto body []
    rw [Instruction.optimize, Instruction.units, hbody]
    rfl

theorem units_optimizeOnto : ∀ (p : Program) (done : List Instruction),
    units (optimizeOnto done p) = units done.reverse ++ units p
  | [], done => by rw [optimizeOnto, units, List.append_nil]
  | i :: p, done => by
    rw [optimizeOnto, units_optimizeOnto p, units_merge, units_optimize_instruction i, units,
      List.append_assoc]

end

/-- Merging changes no unit. -/
theorem units_optimize : p.optimize.units = p.units :=
  units_optimizeOnto p []

theorem isKnown_optimize : p.optimize.isKnown = p.isKnown := by
  rw [← isKnown_units, units_optimize, isKnown_units]

/-- Two merges of one operation are one merge of the sum, whatever precedes them. -/
theorem merge_merge : merge (merge done (.act (.apply op n))) (.act (.apply op m)) =
    merge done (.act (.apply op (n + m))) := by
  rcases done with _ | ⟨⟨⟨op', k⟩ | _ | _ | _⟩ | body, before⟩
  · simp [merge]
  · by_cases hop : op' = op
    · subst hop
      have hadd : k + n + m = k + (n + m) := Count.ext (Nat.add_assoc _ _ _)
      simp [merge, hadd]
    · simp [merge, hop]
  · simp [merge]
  · simp [merge]
  · simp [merge]
  · simp [merge]

/-- Units of one operation that follow a run of it are merged into the run. -/
theorem optimizeOnto_units (k : Nat) (n : Count) (done : List Instruction) (p : Program) :
    optimizeOnto (merge done (.act (.apply op n)))
        (List.replicate k (.act (.apply op .one)) ++ p) =
      optimizeOnto (merge done (.act (.apply op ⟨n.val + k, Nat.add_pos_left n.pos k⟩))) p := by
  induction k generalizing n with
  | zero => rfl
  | succ k ih =>
    have hsum : (⟨(n + .one).val + k, Nat.add_pos_left (n + .one).pos k⟩ : Count) =
        ⟨n.val + (k + 1), Nat.add_pos_left n.pos (k + 1)⟩ := by
      apply Count.ext
      change n.val + 1 + k = n.val + (k + 1)
      omega
    rw [List.replicate_succ, List.cons_append, optimizeOnto, Instruction.optimize, merge_merge, ih,
      hsum]

/-- The units of an action are merged like the action itself. -/
theorem optimizeOnto_action (x : Action) (done : List Instruction) (p : Program) :
    optimizeOnto done (x.units.map .act ++ p) = optimizeOnto (merge done (.act x)) p := by
  cases x with
  | apply op n =>
    obtain ⟨k, hk⟩ : ∃ k, n.val = 1 + k := Nat.exists_eq_add_of_le n.pos
    have hn : (⟨Count.one.val + k, Nat.add_pos_left Count.one.pos k⟩ : Count) = n :=
      Count.ext hk.symm
    rw [Action.units, List.map_replicate, hk, Nat.add_comm, List.replicate_succ, List.cons_append,
      optimizeOnto, Instruction.optimize, optimizeOnto_units, hn]
  | output => rfl
  | input => rfl
  | unknown => rfl

mutual

theorem optimizeOnto_instruction : ∀ (i : Instruction) (done : List Instruction) (p : Program),
    optimizeOnto done (i.units ++ p) = optimizeOnto (merge done i.optimize) p
  | .act x, done, p => optimizeOnto_action x done p
  | .loop body, done, p => by
    have hbody := optimizeOnto_program body []
    rw [Instruction.units, List.cons_append, List.nil_append, optimizeOnto, Instruction.optimize,
      hbody, Instruction.optimize]

theorem optimizeOnto_program : ∀ (p : Program) (done : List Instruction),
    optimizeOnto done (units p) = optimizeOnto done p
  | [], _ => rfl
  | i :: p, done => by
    rw [units, optimizeOnto_instruction i, optimizeOnto_program p, optimizeOnto]

end

/-- Counts may be written out before merging. -/
theorem optimize_units : p.units.optimize = p.optimize :=
  optimizeOnto_program p []

/-- The merged form keeps the units of a program and forgets all else. -/
theorem optimize_eq_iff_units_eq : a.optimize = b.optimize ↔ a.units = b.units := by
  constructor
  · intro h
    rw [← units_optimize, h, units_optimize]
  · intro h
    rw [← optimize_units, h, optimize_units]

end Program

end Brainfuck
