import Brainfuck.Program.Merging
import Brainfuck.Proofs.Optimize.Merged

/-! Merging round by round, with a stack of open bodies, comes to what merging instruction by instruction
does. -/
namespace Brainfuck

namespace Merging

variable {inner : Merging} {outer : List Merging} {stage stage' stage'' : Stage} {m n : Nat}

theorem rounds_done (n : Nat) (p : Program) : rounds n (.done p) = .ok (.done p) := by
  cases n <;> rfl

theorem rounds_succ (h : round inner outer = .ok stage) (n : Nat) :
    rounds (n + 1) (.within inner outer) = rounds n stage := by
  rw [rounds, h]
  rfl

/-- No more rounds than these lead from one stage to the other. -/
def Reaches (n : Nat) (stage stage' : Stage) : Prop :=
  ∃ k ≤ n, ∀ m, rounds (k + m) stage = rounds m stage'

theorem reaches_refl (stage : Stage) : Reaches 0 stage stage :=
  ⟨0, Nat.le_refl 0, fun m => by rw [Nat.zero_add]⟩

theorem reaches_trans (h : Reaches m stage stage') (h' : Reaches n stage' stage'') :
    Reaches (m + n) stage stage'' := by
  obtain ⟨j, hj, hfirst⟩ := h
  obtain ⟨k, hk, hsecond⟩ := h'
  refine ⟨j + k, Nat.add_le_add hj hk, ?_⟩
  intro l
  rw [Nat.add_assoc, hfirst, hsecond]

theorem reaches_round (h : round inner outer = .ok stage) : Reaches 1 (.within inner outer) stage := by
  refine ⟨1, Nat.le_refl 1, ?_⟩
  intro m
  rw [Nat.add_comm, rounds_succ h]

theorem reaches_mono (h : Reaches m stage stage') (hle : m ≤ n) : Reaches n stage stage' := by
  obtain ⟨k, hk, hrounds⟩ := h
  exact ⟨k, Nat.le_trans hk hle, hrounds⟩

variable {before p merged body : Program} {i : Instruction} {op : TapeOp}

/-- A body that has been read up to `p`. -/
def upTo (before p merged : Program) : Merging := ⟨before ++ p, before.length, merged⟩

/-- The same body, read to its end and merged to `q`. -/
def toEnd (before p q : Program) : Merging := ⟨before ++ p, (before ++ p).length, q.reverse⟩

theorem upTo_append : upTo (before ++ [i]) p merged =
    ⟨before ++ i :: p, before.length + 1, merged⟩ := by
  simp [upTo]

theorem toEnd_append {q : Program} : toEnd (before ++ [i]) p q = toEnd before (i :: p) q := by
  simp [toEnd]

theorem getElem?_source : (before ++ i :: p)[before.length]? = some i := by simp

theorem drop_source : (before ++ i :: p).drop (before.length + 1) = p := by simp

/-- What is left of a body is merged as it would be instruction by instruction: where the next one is apart
from what has been merged last, and also where a run is being read. -/
structure Settles (p : Program) : Prop where
  apart : ∀ before merged outer, (∀ i ∈ p.head?, ∀ j ∈ merged.head?, i.Apart j) →
    Reaches p.visits.length (.within (upTo before p merged) outer)
      (.within (toEnd before p (Program.optimizeOnto merged p)) outer)
  inRun : ∀ before merged outer op (n : Count), ∃ sum : Count,
    (absorb op p before.length n.val).1 = sum.val ∧
    Reaches p.visits.length
      (.within ⟨before ++ p, (absorb op p before.length n.val).2, .act (.apply op sum) :: merged⟩ outer)
      (.within (toEnd before p (Program.optimizeOnto (.act (.apply op n) :: merged) p)) outer)

theorem settles_nil : Settles [] where
  apart before merged outer _ := by
    simp only [upTo, toEnd, List.append_nil, Program.optimizeOnto, List.reverse_reverse]
    exact reaches_refl _
  inRun before merged outer op n := by
    refine ⟨n, rfl, ?_⟩
    simp only [toEnd, List.append_nil, Program.optimizeOnto, List.reverse_reverse]
    exact reaches_refl _

/-- After an instruction that applies no operation the rest is merged. -/
theorem reaches_other {j : Instruction} (hp : Settles p) (hj : ∀ op n, j ≠ .act (.apply op n)) :
    Reaches p.visits.length (.within (upTo (before ++ [i]) p (j :: merged)) outer)
      (.within (toEnd before (i :: p) (Program.optimizeOnto (j :: merged) p)) outer) := by
  rw [← toEnd_append]
  apply hp.apart
  rintro k - _ ⟨⟩
  exact Instruction.apart_symm (Instruction.apart_of_other hj)

/-- After an instruction of a run the rest of the run is read, and then the rest is merged. -/
theorem reaches_inRun (hp : Settles p) (before merged : Program) (outer : List Merging) (i : Instruction)
    (op : TapeOp) (n : Count) : ∃ sum : Count,
    (absorb op p (before.length + 1) n.val).1 = sum.val ∧
    Reaches p.visits.length
      (.within ⟨before ++ i :: p, (absorb op p (before.length + 1) n.val).2,
        .act (.apply op sum) :: merged⟩ outer)
      (.within (toEnd before (i :: p) (Program.optimizeOnto (.act (.apply op n) :: merged) p))
        outer) := by
  obtain ⟨sum, hsum, hrest⟩ := hp.inRun (before ++ [i]) merged outer op n
  rw [List.length_append, List.length_singleton] at hsum hrest
  rw [toEnd_append, List.append_assoc, List.singleton_append] at hrest
  exact ⟨sum, hsum, hrest⟩

theorem absorb_same {m : Count} {index total : Nat} :
    absorb op (.act (.apply op m) :: p) index total = absorb op p (index + 1) (total + m.val) :=
  if_pos rfl

theorem absorb_of_apart {m : Count} {index total : Nat} (h : i.Apart (.act (.apply op m))) :
    absorb op (i :: p) index total = (total, index) := by
  rcases i with (⟨op', k⟩ | _ | _ | _) | body
  · exact if_neg (Instruction.apart_apply_iff.mp h)
  · rfl
  · rfl
  · rfl
  · rfl

theorem isRun_or_apart (i : Instruction) (op : TapeOp) :
    (∃ m, i = .act (.apply op m)) ∨ ∀ n, i.Apart (.act (.apply op n)) := by
  by_cases h : ∃ m, i = .act (.apply op m)
  · exact .inl h
  · right
    rintro n op' m k hi hop
    cases hop
    exact h ⟨m, hi⟩

/-- A run that is being read goes on with what applies the same operation, and ends at anything else. -/
theorem settles_cons (hp : Settles p)
    (hi : ∀ before merged outer, (∀ j ∈ merged.head?, i.Apart j) →
      Reaches (Program.visits (i :: p)).length (.within (upTo before (i :: p) merged) outer)
        (.within (toEnd before (i :: p) (Program.optimizeOnto merged (i :: p))) outer)) :
    Settles (i :: p) where
  apart before merged outer h := hi before merged outer (h i rfl)
  inRun before merged outer op n := by
    rcases isRun_or_apart i op with ⟨m, rfl⟩ | hapart
    · obtain ⟨sum, hsum, hrest⟩ := reaches_inRun hp before merged outer (.act (.apply op m)) op (n + m)
      have hmerge : Program.merge (.act (.apply op n) :: merged) (.act (.apply op m)) =
          .act (.apply op (n + m)) :: merged := if_pos rfl
      rw [absorb_same, Program.optimizeOnto, Instruction.optimize, hmerge]
      exact ⟨sum, hsum, reaches_mono hrest (by simp [Program.visits])⟩
    · rw [absorb_of_apart (hapart n)]
      refine ⟨n, rfl, hi before _ outer ?_⟩
      rintro j ⟨⟩
      exact hapart n

theorem settles_apply (hp : Settles p) (op : TapeOp) (n : Count) :
    Settles (.act (.apply op n) :: p) := by
  apply settles_cons hp
  intro before merged outer hapart
  obtain ⟨sum, hsum, hrest⟩ := reaches_inRun hp before merged outer (.act (.apply op n)) op n
  have hround : round (upTo before (.act (.apply op n) :: p) merged) outer = .ok (.within
      ⟨before ++ .act (.apply op n) :: p, (absorb op p (before.length + 1) n.val).2,
        .act (.apply op sum) :: merged⟩ outer) := by
    simp only [round, upTo, getElem?_source, drop_source, hsum, Instruction.counted_val]
    rfl
  rw [Program.optimizeOnto, Instruction.optimize, Program.merge_of_apart hapart]
  refine reaches_mono (reaches_trans (reaches_round hround) hrest) ?_
  simp [Program.visits, Instruction.visits, Nat.add_comm]

theorem settles_other (hp : Settles p) {a : Action} (ha : ∀ op n, a ≠ .apply op n) :
    Settles (.act a :: p) := by
  apply settles_cons hp
  intro before merged outer hapart
  have hround : round (upTo before (.act a :: p) merged) outer =
      .ok (.within (upTo (before ++ [.act a]) p (.act a :: merged)) outer) := by
    rw [upTo_append]
    cases a with
    | apply op n => exact (ha op n rfl).elim
    | _ => simp only [round, upTo, getElem?_source]
  have hother : ∀ op n, Instruction.act a ≠ .act (.apply op n) := by
    intro op n h
    exact ha op n (Instruction.act.inj h)
  rw [Program.optimizeOnto, Instruction.optimize, Program.merge_of_apart hapart]
  refine reaches_mono (reaches_trans (reaches_round hround) (reaches_other hp hother)) ?_
  simp [Program.visits, Instruction.visits, Nat.add_comm]

/-- A loop is entered in one round, and left in another when its body has been merged. -/
theorem settles_loop (hp : Settles p) (hbody : Settles body) : Settles (.loop body :: p) := by
  apply settles_cons hp
  intro before merged outer hapart
  have henter : round (upTo before (.loop body :: p) merged) outer = .ok (.within
      (upTo [] body []) (⟨before ++ .loop body :: p, before.length + 1, merged⟩ :: outer)) := by
    simp only [round, upTo, getElem?_source]
    rfl
  have hinside := hbody.apart [] [] (⟨before ++ .loop body :: p, before.length + 1, merged⟩ :: outer)
    (by simp)
  have hleave : round (toEnd [] body (Program.optimizeOnto [] body))
      (⟨before ++ .loop body :: p, before.length + 1, merged⟩ :: outer) =
      .ok (.within (upTo (before ++ [.loop body]) p
        (.loop (Program.optimizeOnto [] body) :: merged)) outer) := by
    rw [upTo_append]
    simp [round, toEnd]
  have hother : ∀ op n, Instruction.loop (Program.optimizeOnto [] body) ≠ .act (.apply op n) := by
    intro op n h
    cases h
  have hmerge : Program.merge merged (.loop (Program.optimizeOnto [] body)) =
      .loop (Program.optimizeOnto [] body) :: merged :=
    Program.merge_of_apart fun _ _ => Instruction.apart_of_other hother
  rw [Program.optimizeOnto, Instruction.optimize, hmerge]
  have hrounds := reaches_trans (reaches_round henter)
    (reaches_trans hinside (reaches_trans (reaches_round hleave) (reaches_other hp hother)))
  refine reaches_mono hrounds ?_
  simp only [Program.visits, Instruction.visits, List.length_append, List.length_cons,
    List.length_nil]
  omega

mutual

theorem settles_body : ∀ (i : Instruction) (body : Program), i = .loop body → Settles body
  | .loop body, _, rfl => settles body

/-- Every body is merged, by induction on the tree. -/
theorem settles : ∀ p : Program, Settles p
  | [] => settles_nil
  | .act (.apply op n) :: p => settles_apply (settles p) op n
  | .act .output :: p => settles_other (settles p) (by simp)
  | .act .input :: p => settles_other (settles p) (by simp)
  | .act .unknown :: p => settles_other (settles p) (by simp)
  | .loop body :: p => settles_loop (settles p) (settles_body (.loop body) body rfl)

end

/-- The rounds end with the merged program, and no count is refused on the way. -/
theorem rounds_start (p : Program) {n : Nat} (hn : p.visits.length < n) :
    rounds n (start p) = .ok (.done p.optimize) := by
  obtain ⟨k, hk, hrounds⟩ := (settles p).apart [] [] [] (by simp)
  have hend : round (toEnd [] p p.optimize) [] = .ok (.done p.optimize) := by
    simp [round, toEnd]
  obtain ⟨m, rfl⟩ : ∃ m, n = k + (m + 1) := ⟨n - k - 1, by omega⟩
  have hlast := rounds_succ hend m
  rw [rounds_done] at hlast
  exact (hrounds (m + 1)).trans hlast

/-- The inner body of a loop is merged before the loop is added, and a run in it as a whole. -/
example : rounds 8 (start [.act (.apply .increment .one), .loop [.act (.apply .moveLeft .one),
    .act (.apply .moveLeft .one)], .act .unknown]) =
    .ok (.done [.act (.apply .increment .one), .loop [.act (.apply .moveLeft ⟨2, by decide⟩)],
      .act .unknown]) := rfl

end Merging

namespace Program

/-- Merging a program, unknown instructions and all, ends within a round for each visit and one more, fails no
check of a count and leaves no two neighbours that apply one operation, in any body, while loops, outputs,
inputs and unknown instructions stay where they are. It changes exactly the programs that have such
neighbours, hence none a second time, and it is the only merged program with the same units. -/
theorem optimize_normalizes (p : Program) :
    (∀ n, p.visits.length < n → Merging.rounds n (Merging.start p) = .ok (.done p.optimize)) ∧
    (∀ op n, .act (.apply op n) ∈ p.optimize.visits → 1 ≤ n.val) ∧
    p.optimize.IsMerged ∧ p.optimize.skeleton = p.skeleton ∧
    (p.optimize = p ↔ p.IsMerged) ∧ p.optimize.optimize = p.optimize ∧
    (∀ q : Program, q.IsMerged → q.units = p.units → q = p.optimize) := by
  refine ⟨fun _ => Merging.rounds_start p, fun _ n _ => n.pos, isMerged_optimize, skeleton_optimize,
    optimize_eq_self_iff, optimize_eq_self_iff.mpr isMerged_optimize, ?_⟩
  intro q hq hunits
  exact eq_optimize_iff.mpr ⟨hq, hunits⟩

end Program

end Brainfuck
