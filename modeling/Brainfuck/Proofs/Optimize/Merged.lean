import Brainfuck.Program.Pass
import Brainfuck.Proofs.Optimize.Units
import Mathlib.Data.List.Chain

/-! What merging ends in: no body has two neighbours left that apply one operation. -/
namespace Brainfuck

/-- Two instructions that are not two applications of one operation. -/
def Instruction.Apart (i j : Instruction) : Prop :=
  ∀ op n m, i = .act (.apply op n) → j ≠ .act (.apply op m)

namespace Program

/-- The program itself and the bodies of its loops, at any depth. -/
inductive HasBody : Program → Program → Prop
  | whole (p : Program) : HasBody p p
  | inside {p q : Program} {body : List Instruction} :
    .loop body ∈ p → HasBody body q → HasBody p q

/-- Neighbours are apart, in every body. -/
def IsMerged (p : Program) : Prop := ∀ body, p.HasBody body → body.IsChain Instruction.Apart

end Program

mutual

/-- What is left of an instruction when no tape operation is. -/
def Instruction.skeleton : Instruction → Program
  | .act (.apply _ _) => []
  | .act a => [.act a]
  | .loop body => [.loop (Program.skeleton body)]

/-- The loops, outputs, inputs and unknown instructions, where they are. -/
def Program.skeleton : Program → Program
  | [] => []
  | i :: is => i.skeleton ++ Program.skeleton is

end

variable {p q done : Program} {i j : Instruction} {op : TapeOp} {n m : Count}

namespace Instruction

theorem apart_symm (h : i.Apart j) : j.Apart i := by
  intro op n m hj hi
  exact h op m n hi hj

/-- What applies no operation is apart from everything. -/
theorem apart_of_other (h : ∀ op n, i ≠ .act (.apply op n)) : i.Apart j := by
  intro op n _ hi
  exact (h op n hi).elim

/-- How often an operation is applied does not matter. -/
theorem apart_count (h : (act (.apply op n)).Apart j) : (act (.apply op m)).Apart j := by
  intro op' n' k hop
  cases hop
  exact h op n k rfl

theorem apart_apply_iff {op' : TapeOp} :
    (act (.apply op n)).Apart (act (.apply op' m)) ↔ op ≠ op' := by
  constructor
  · rintro h rfl
    exact h op n m rfl rfl
  · intro hop op₁ n₁ m₁ hi hj
    cases hi
    cases hj
    exact hop rfl

end Instruction

namespace Program

/-- The neighbours of the outermost body, and the loops one by one. -/
theorem isMerged_iff :
    p.IsMerged ↔ p.IsChain Instruction.Apart ∧ ∀ body, .loop body ∈ p → IsMerged body := by
  constructor
  · intro h
    exact ⟨h p (.whole p), fun body hbody q hq => h q (.inside hbody hq)⟩
  · rintro ⟨hp, hloops⟩ q hq
    cases hq with
    | whole => exact hp
    | inside hbody hq => exact hloops _ hbody q hq

theorem isMerged_cons : IsMerged (i :: p) ↔
    (∀ j ∈ p.head?, i.Apart j) ∧ (∀ body, i = .loop body → IsMerged body) ∧ IsMerged p := by
  rw [isMerged_iff, isMerged_iff, List.isChain_cons]
  constructor
  · rintro ⟨⟨hhead, hp⟩, hloops⟩
    refine ⟨hhead, ?_, hp, fun body hbody => hloops body (List.mem_cons_of_mem i hbody)⟩
    rintro body rfl
    exact hloops body List.mem_cons_self
  · rintro ⟨hhead, hi, hp, hloops⟩
    refine ⟨⟨hhead, hp⟩, fun body hbody => ?_⟩
    rcases List.mem_cons.mp hbody with hbody | hbody
    · exact hi body hbody.symm
    · exact hloops body hbody

theorem isMerged_reverse (h : p.IsMerged) : IsMerged p.reverse := by
  obtain ⟨hp, hloops⟩ := isMerged_iff.mp h
  refine isMerged_iff.mpr ⟨?_, fun body hbody => hloops body (List.mem_reverse.mp hbody)⟩
  exact List.isChain_reverse.mpr (hp.imp fun _ _ => Instruction.apart_symm)

/-- An instruction joins the one before it, or it is apart from it and stays. -/
theorem merge_cases (done : Program) (i : Instruction) :
    (∃ op n m before, done = .act (.apply op n) :: before ∧ i = .act (.apply op m) ∧
      merge done i = .act (.apply op (n + m)) :: before) ∨
    (merge done i = i :: done ∧ ∀ j ∈ done.head?, i.Apart j) := by
  unfold merge
  split
  next op n before op' m =>
    by_cases hop : op = op'
    · subst hop
      exact Or.inl ⟨op, n, m, before, rfl, rfl, if_pos rfl⟩
    · refine Or.inr ⟨if_neg hop, ?_⟩
      rintro j ⟨⟩
      exact Instruction.apart_apply_iff.mpr (Ne.symm hop)
  next hapart =>
    refine Or.inr ⟨rfl, ?_⟩
    intro j hj op m n hi hop
    obtain ⟨before, hdone⟩ := List.head?_eq_some_iff.mp hj
    exact hapart op n before op m (hop ▸ hdone) hi

/-- The sum of a run is as far apart from what precedes it as the run was. -/
theorem isMerged_merge (hdone : done.IsMerged) (hi : ∀ body, i = .loop body → IsMerged body) :
    IsMerged (merge done i) := by
  rcases merge_cases done i with ⟨op, n, m, before, rfl, -, hmerge⟩ | ⟨hmerge, hapart⟩
  · obtain ⟨hhead, -, hbefore⟩ := isMerged_cons.mp hdone
    rw [hmerge]
    refine isMerged_cons.mpr ⟨fun j hj => Instruction.apart_count (hhead j hj), ?_, hbefore⟩
    rintro body ⟨⟩
  · rw [hmerge]
    exact isMerged_cons.mpr ⟨hapart, hi, hdone⟩

mutual

theorem isMerged_optimize_body :
    ∀ (i : Instruction) (body : Program), i.optimize = .loop body → IsMerged body
  | .loop body, _, rfl => isMerged_optimizeOnto body [] (isMerged_iff.mpr ⟨.nil, by simp⟩)

theorem isMerged_optimizeOnto :
    ∀ (p done : Program), done.IsMerged → IsMerged (optimizeOnto done p)
  | [], _, h => isMerged_reverse h
  | i :: p, done, h => by
    have hi := isMerged_optimize_body i
    exact isMerged_optimizeOnto p _ (isMerged_merge h hi)

end

/-- An instruction that is apart from the one before it is added as it is. -/
theorem merge_of_apart (h : ∀ j ∈ done.head?, i.Apart j) : merge done i = i :: done := by
  rcases merge_cases done i with ⟨op, n, m, before, rfl, rfl, -⟩ | ⟨hmerge, -⟩
  · exact absurd rfl (h (.act (.apply op n)) rfl op m n rfl)
  · exact hmerge

theorem merge_of_isMerged (h : IsMerged (done.reverse ++ i :: p)) : merge done i = i :: done := by
  obtain ⟨-, -, hbetween⟩ := List.isChain_append.mp (isMerged_iff.mp h).1
  apply merge_of_apart
  intro j hj
  exact Instruction.apart_symm (hbetween j (by simpa using hj) i rfl)

mutual

theorem optimize_instruction_of_isMerged :
    ∀ i : Instruction, (∀ body, i = .loop body → IsMerged body) → i.optimize = i
  | .act _, _ => rfl
  | .loop body, h => congrArg Instruction.loop (optimizeOnto_of_isMerged body [] (h body rfl))

theorem optimizeOnto_of_isMerged :
    ∀ p done : Program, IsMerged (done.reverse ++ p) → optimizeOnto done p = done.reverse ++ p
  | [], done, _ => (List.append_nil _).symm
  | i :: p, done, h => by
    have hloops := (isMerged_iff.mp h).2
    have hi := optimize_instruction_of_isMerged i fun body hbody => hloops body (by simp [hbody])
    have hmove : done.reverse ++ i :: p = (i :: done).reverse ++ p := by simp
    have hp := optimizeOnto_of_isMerged p (i :: done) (hmove ▸ h)
    rw [optimizeOnto, hi, merge_of_isMerged h, hp, hmove]

end

/-- The merged form is the one merged program with these units. -/
theorem eq_optimize_iff : q = p.optimize ↔ q.IsMerged ∧ q.units = p.units := by
  constructor
  · rintro rfl
    exact ⟨isMerged_optimizeOnto p [] (isMerged_iff.mpr ⟨.nil, by simp⟩), units_optimize⟩
  · rintro ⟨hq, hunits⟩
    have hfix : q.optimize = q := optimizeOnto_of_isMerged q [] hq
    rw [← hfix]
    exact optimize_eq_iff_units_eq.mpr hunits

theorem isMerged_optimize : p.optimize.IsMerged :=
  (eq_optimize_iff.mp rfl).1

theorem optimize_eq_self_iff : p.optimize = p ↔ p.IsMerged := by
  rw [eq_comm, eq_optimize_iff]
  exact and_iff_left rfl

instance : Decidable p.IsMerged := decidable_of_iff (p.optimize = p) optimize_eq_self_iff

example : ¬ IsMerged [.act .unknown, .loop [.act .output, .act (.apply .moveLeft .one),
    .act (.apply .moveLeft .one)]] := by decide

theorem skeleton_append : skeleton (p ++ q) = skeleton p ++ skeleton q := by
  induction p with
  | nil => rfl
  | cons i p ih => rw [List.cons_append, skeleton, skeleton, ih, List.append_assoc]

theorem skeleton_run (op : TapeOp) (k : Nat) :
    skeleton (List.replicate k (.act (.apply op .one))) = [] := by
  induction k with
  | zero => rfl
  | succ k ih => exact ih

mutual

theorem skeleton_units_instruction : ∀ i : Instruction, skeleton i.units = i.skeleton
  | .act (.apply op n) => by
    rw [Instruction.units, Action.units, List.map_replicate, skeleton_run]
    rfl
  | .act .output => rfl
  | .act .input => rfl
  | .act .unknown => rfl
  | .loop body => by
    have hbody := skeleton_units body
    simp only [Instruction.units, skeleton, Instruction.skeleton, hbody, List.append_nil]

theorem skeleton_units : ∀ p : Program, skeleton p.units = skeleton p
  | [] => rfl
  | i :: p => by
    rw [units, skeleton_append, skeleton_units_instruction i, skeleton_units p, skeleton]

end

/-- Everything but the tape operations stays in its place. -/
theorem skeleton_optimize : p.optimize.skeleton = p.skeleton := by
  rw [← skeleton_units, units_optimize, skeleton_units]

end Program

end Brainfuck
