import Brainfuck.Program.Optimize
import Brainfuck.Program.Pass
import Brainfuck.Proofs.Optimize.Agreement

/-! Merging runs, one pair of neighbours at a time. -/
namespace Brainfuck

namespace Program

/-- Moves to the right by these counts. -/
def rights (counts : List Count) : List Visit := counts.map fun n => .act (.apply .moveRight n)

/-- How far the moves to the right go in all. -/
def reach : List Visit → Nat
  | [] => 0
  | .act (.apply .moveRight n) :: vs => n.val + reach vs
  | _ :: vs => reach vs

/-- No run of adjacent moves to the right, at any depth, goes further than `k` in all. -/
def RightRunsWithin (k : Nat) (p : Program) : Prop :=
  ∀ counts, rights counts <:+: visits p → reach (rights counts) ≤ k

/-- The last count of `done`, if it is that of a move to the right, is the sum of a run that the program
`before` ends with. -/
def EndsWithRun (done : List Instruction) (before : Program) : Prop :=
  ∀ a rest, done = .act (.apply .moveRight a) :: rest →
    ∃ counts, rights counts <:+ visits before ∧ reach (rights counts) = a.val

variable {k : Nat} {p q before body : Program} {done : List Instruction} {i : Instruction}
  {n : Count}

theorem reach_append (us vs : List Visit) : reach (us ++ vs) = reach us + reach vs := by
  induction us with
  | nil => simp [reach]
  | cons u us ih =>
    rcases u with (⟨op, n⟩ | _ | _ | _) | _ | _
    · cases op <;> simp only [List.cons_append, reach, ih]
      omega
    · exact ih
    · exact ih
    · exact ih
    · exact ih
    · exact ih

theorem rights_concat (counts : List Count) (n : Count) :
    rights (counts ++ [n]) = rights counts ++ [.act (.apply .moveRight n)] := by
  simp [rights]

theorem reach_rights_concat (counts : List Count) (n : Count) :
    reach (rights (counts ++ [n])) = reach (rights counts) + n.val := by
  rw [rights_concat, reach_append]
  rfl

/-- No run goes further than all moves to the right together. -/
theorem rightRunsWithin_of_reach (h : reach (visits p) ≤ k) : RightRunsWithin k p := by
  intro counts hc
  obtain ⟨us, vs, hv⟩ := hc
  rw [← hv, reach_append, reach_append] at h
  omega

theorem rightRunsWithin_of_infix (h : RightRunsWithin k p) (hq : visits q <:+: visits p) :
    RightRunsWithin k q :=
  fun counts hc => h counts (hc.trans hq)

theorem rightRunsWithin_body (h : RightRunsWithin k [.loop body]) : RightRunsWithin k body := by
  apply rightRunsWithin_of_infix h
  exact ⟨[.enter], [.leave], by simp [visits, Instruction.visits]⟩

theorem rightRunsWithin_middle (h : RightRunsWithin k (before ++ i :: p)) :
    RightRunsWithin k [i] := by
  apply rightRunsWithin_of_infix h
  exact ⟨visits before, visits p, by simp [visits_append, visits]⟩

/-- Merging one more move keeps the last count within the bound on runs. -/
theorem add_le_of_endsWithRun {a : Count} {rest : List Instruction}
    (hd : EndsWithRun (.act (.apply .moveRight a) :: rest) before)
    (h : RightRunsWithin k (before ++ .act (.apply .moveRight n) :: p)) : a.val + n.val ≤ k := by
  obtain ⟨counts, ⟨ws, hw⟩, hsum⟩ := hd a rest rfl
  have hrun : rights (counts ++ [n]) <:+: visits (before ++ .act (.apply .moveRight n) :: p) :=
    ⟨ws, visits p, by simp [rights_concat, visits_append, visits, Instruction.visits, ← hw]⟩
  rw [← hsum, ← reach_rights_concat]
  exact h _ hrun

theorem eq_act_of_optimize {x : Action} (h : i.optimize = .act x) : i = .act x := by
  cases i with
  | act y => exact h
  | loop body => simp [Instruction.optimize] at h

theorem visits_concat_act {x : Action} : visits (before ++ [.act x]) = visits before ++ [.act x] := by
  simp [visits_append, visits, Instruction.visits]

theorem endsWithRun_cons : EndsWithRun (i.optimize :: done) (before ++ [i]) := by
  intro a rest heq
  obtain rfl := eq_act_of_optimize (List.cons.inj heq).1
  exact ⟨[a], ⟨visits before, visits_concat_act.symm⟩, rfl⟩

theorem endsWithRun_merge (hd : EndsWithRun done before) :
    EndsWithRun (merge done i.optimize) (before ++ [i]) := by
  unfold merge
  split
  next op m rest op' n hi =>
    split
    next hop =>
      intro a rest heq
      obtain ⟨hact, -⟩ := List.cons.inj heq
      cases hact
      obtain rfl := eq_act_of_optimize hi
      obtain ⟨counts, ⟨ws, hw⟩, hsum⟩ := hd m _ rfl
      subst hop
      refine ⟨counts ++ [n], ⟨ws, ?_⟩, ?_⟩
      · rw [visits_concat_act, ← hw, rights_concat, List.append_assoc]
      · rw [reach_rights_concat, hsum]
        rfl
    next => exact endsWithRun_cons
  next => exact endsWithRun_cons

/-- A relation that is kept in every context, and that two operations of one kind have to their merged
form where moves to the right stay within `k`. -/
structure MergeCongruence (k : Nat) (S : Program → Program → Prop) : Prop where
  refl : ∀ p, S p p
  trans : ∀ p q r, S p q → S q r → S p r
  append : ∀ p p' q q', S p p' → S q q' → S (p ++ q) (p' ++ q')
  loop : ∀ body body', S body body' → S [.loop body] [.loop body']
  pair : ∀ op a b, (op = .moveRight → a.val + b.val ≤ k) →
    S [.act (.apply op a), .act (.apply op b)] [.act (.apply op (a + b))]

variable {S : Program → Program → Prop}

/-- Merging an instruction into what precedes it, where the moves it joins stay within the bound. -/
theorem congruence_merge (hS : MergeCongruence k S) (hd : EndsWithRun done before)
    (h : RightRunsWithin k (before ++ i :: p)) :
    S (done.reverse ++ [i.optimize]) (merge done i.optimize).reverse := by
  unfold merge
  split
  next op m rest op' n hi =>
    split
    next hop =>
      subst hop
      obtain rfl := eq_act_of_optimize hi
      simp only [List.reverse_cons, List.append_assoc]
      apply hS.append _ _ _ _ (hS.refl _)
      apply hS.pair
      rintro rfl
      exact add_le_of_endsWithRun hd h
    next => simpa [hi] using hS.refl _
  next => simpa using hS.refl _

mutual

theorem congruence_instruction (hS : MergeCongruence k S) :
    ∀ i : Instruction, RightRunsWithin k [i] → S [i] [i.optimize]
  | .act a, _ => hS.refl _
  | .loop body, h => hS.loop _ _
      (congruence_optimizeOnto hS body [] [] (by simp [EndsWithRun]) (rightRunsWithin_body h))

/-- What is merged so far, followed by the rest as it stands, becomes the merged whole. -/
theorem congruence_optimizeOnto (hS : MergeCongruence k S) :
    ∀ (p done before : Program), EndsWithRun done before → RightRunsWithin k (before ++ p) →
      S (done.reverse ++ p) (optimizeOnto done p)
  | [], done, before, _, _ => by simpa [optimizeOnto] using hS.refl _
  | i :: p, done, before, hd, h => by
    have hone := congruence_instruction hS i (rightRunsWithin_middle h)
    have hrest := congruence_optimizeOnto hS p (merge done i.optimize) (before ++ [i])
      (endsWithRun_merge hd) (by simpa using h)
    rw [optimizeOnto]
    apply hS.trans _ _ _ _ hrest
    rw [List.append_cons]
    apply hS.append _ _ _ _ _ (hS.refl p)
    exact hS.trans _ _ _ (hS.append _ _ _ _ (hS.refl done.reverse) hone)
      (congruence_merge hS hd h)

end

/-- A program has every such relation to its merged form. -/
theorem congruence_optimize (hS : MergeCongruence k S) (h : RightRunsWithin k p) :
    S p p.optimize := by
  have hp := congruence_optimizeOnto hS p [] [] (by simp [EndsWithRun]) h
  simpa [optimize] using hp

end Program

namespace Machine

variable {le : Nat → Nat → Prop} {p q s body body' : Program} {op : TapeOp} {a b n : Count}
  {m : Machine} {r : Outcome}

theorem executes_apply :
    Executes none [.act (.apply op n)] m r ↔
      r = onTape (Tape.apply op n.val) { m with steps := m.steps + 1 } :=
  executes_single

/-- Two operations in a row count two steps, or one if the first fails. -/
theorem executes_applyBoth (op : TapeOp) (a b : Count) (m : Machine) :
    ∃ k, (k = 1 ∨ k = 2) ∧ ∀ r, Executes none [.act (.apply op a), .act (.apply op b)] m r ↔
      r = onTape (Tape.applyBoth op a b) { m with steps := m.steps + k } := by
  have hp : perform none (.apply op a) m =
      onTape (Tape.apply op a.val) { m with steps := m.steps + 1 } := rfl
  rw [onTape_apply] at hp
  simp only [executes_act, hp, onTape_apply, Tape.applyBoth]
  cases Tape.apply op a.val m.tape with
  | ok _ t =>
    refine ⟨2, Or.inr rfl, fun r => ?_⟩
    rw [← executes_act, executes_apply, onTape_apply]
  | error e t => exact ⟨1, Or.inl rfl, fun r => Iff.rfl⟩

theorem simulates_merge (hab : op = .moveRight → a.val + b.val ≤ maxBlock)
    (hle : ∀ j k l, le j k → l = 1 ∨ l = 2 → le (j + l) (k + 1)) :
    Simulates none none (Agree le) (FailsLike le)
      [.act (.apply op a), .act (.apply op b)] [.act (.apply op (a + b))] := by
  intro m m' r hm hx
  obtain ⟨k, hk, hboth⟩ := executes_applyBoth op a b m
  refine ⟨_, executes_apply.mpr rfl, ?_⟩
  rw [(hboth r).mp hx]
  have hs : Agree le { m with steps := m.steps + k } { m' with steps := m'.steps + 1 } :=
    ⟨hm.tape, hm.streams, hle _ _ _ hm.steps hk⟩
  exact onTape_related hs (Tape.apply_both hm.tape hab)

theorem simulates_split (hab : op = .moveRight → a.val + b.val ≤ maxBlock)
    (hle : ∀ j k l, le j k → l = 1 ∨ l = 2 → le (j + 1) (k + l)) :
    Simulates none none (Agree le) (FailsLike le)
      [.act (.apply op (a + b))] [.act (.apply op a), .act (.apply op b)] := by
  intro m m' r hm hx
  obtain ⟨k, hk, hboth⟩ := executes_applyBoth op a b m'
  refine ⟨_, (hboth _).mpr rfl, ?_⟩
  rw [executes_apply.mp hx]
  have hs : Agree le { m with steps := m.steps + 1 } { m' with steps := m'.steps + k } :=
    ⟨hm.tape, hm.streams, hle _ _ _ hm.steps hk⟩
  apply onTape_related hs
  exact related_symm (fun _ _ => Tape.alike_symm) (fun _ _ _ _ => Tape.failsLike_symm)
    (Tape.apply_both (Tape.alike_symm hm.tape) hab)

/-- Each of two programs simulates the other, and the second counts no more steps. -/
structure Improves (p q : Program) : Prop where
  forth : Simulates none none (Agree (· ≥ ·)) (FailsLike (· ≥ ·)) p q
  back : Simulates none none (Agree (· ≤ ·)) (FailsLike (· ≤ ·)) q p

theorem improves_refl (p : Program) : Improves p p where
  forth := simulates_refl (lockstep_agree comparison_ge) p
  back := simulates_refl (lockstep_agree comparison_le) p

theorem improves_trans (h : Improves p q) (h' : Improves q s) : Improves p s where
  forth := simulates_trans comparison_ge h.forth h'.forth
  back := simulates_trans comparison_le h'.back h.back

theorem improves_append {p' q' : Program} (h : Improves p q) (h' : Improves p' q') :
    Improves (p ++ p') (q ++ q') where
  forth := simulates_append h.forth h'.forth
  back := simulates_append h.back h'.back

theorem improves_loop (h : Improves body body') : Improves [.loop body] [.loop body'] where
  forth := simulates_loop (lockstep_agree comparison_ge) h.forth
  back := simulates_loop (lockstep_agree comparison_le) h.back

theorem improves_pair (hab : op = .moveRight → a.val + b.val ≤ maxBlock) :
    Improves [.act (.apply op a), .act (.apply op b)] [.act (.apply op (a + b))] where
  forth := by
    apply simulates_merge hab
    intro j k l hle hl
    omega
  back := by
    apply simulates_split hab
    intro j k l hle hl
    omega

theorem improves_congruence : Program.MergeCongruence maxBlock Improves where
  refl := improves_refl
  trans _ _ _ := improves_trans
  append _ _ _ _ := improves_append
  loop _ _ := improves_loop
  pair _ _ _ := improves_pair

/-- Merging the runs of a program changes neither what it does nor whether it ends, and saves steps. -/
theorem improves_optimize (h : p.RightRunsWithin maxBlock) : Improves p p.optimize :=
  Program.congruence_optimize improves_congruence h

end Machine

end Brainfuck
