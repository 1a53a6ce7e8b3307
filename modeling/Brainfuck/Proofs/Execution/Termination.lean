import Brainfuck.Proofs.Execution.Bounds
import Brainfuck.Proofs.Execution.Budget

/-! A finite budget ends every run: each round but the last counts a step, so a run has no more rounds to go
than its budget and one. -/
namespace Brainfuck

namespace Machine

variable {b : Option Int} {p : Program} {m m' : Machine} {inner : Frame} {outer frames : List Frame}
  {n : Nat}

/-- A round that does not end the program counts one step, if it does not fail. -/
theorem steps_of_round (h : inner ≠ ⟨[], none⟩)
    (hr : (runner b).round inner outer m = .ok frames m') : m'.steps = m.steps + 1 := by
  have hacts := uncounted_acts inner outer { m with steps := m.steps + 1 }
  have hround : (runner b).round inner outer m = EStateM.bind (countStep b) _ m :=
    congrFun (round_counted b h) m
  rw [hr, EStateM.bind] at hround
  rcases countStep_cases b m with hgoes | hstops
  · rw [hgoes] at hround
    dsimp only at hround
    rw [← hround] at hacts
    exact hacts.steps
  · rw [hstops] at hround
    cases hround

/-- While there are rounds to go, each of them has counted a step. The pass over the program itself is the
only one that ends without a step, and it ends the walk. -/
theorem steps_of_rounds (hone : grounds (inner :: outer) = 1) (hground : Grounded (inner :: outer))
    (hne : frames ≠ []) (hr : (runner b).rounds n (inner :: outer) m = .ok frames m') :
    m'.steps = m.steps + n := by
  induction n generalizing inner outer m with
  | zero =>
    cases hr
    rfl
  | succ n ih =>
    have hgoes {frames₁ : List Frame} {m₁ : Machine}
        (h : (runner b).rounds n frames₁ m₁ = .ok frames m') : frames₁ ≠ [] := by
      rintro rfl
      rw [Visitor.rounds_nil] at h
      cases h
      exact hne rfl
    by_cases hend : inner = ⟨[], none⟩
    · subst hend
      have hrest : (runner b).rounds n outer m = .ok frames m' := hr
      have hpos := grounds_pos ((grounded_cons _ (hgoes hrest)).mp hground) (hgoes hrest)
      have hcount : grounds (⟨[], none⟩ :: outer) = grounds outer + 1 := by simp [grounds]
      omega
    · rw [Visitor.rounds] at hr
      cases hfirst : (runner b).round inner outer m with
      | error e m₁ =>
        rw [hfirst] at hr
        cases hr
      | ok frames₁ m₁ =>
        rw [hfirst] at hr
        have hcounted := steps_of_round hend hfirst
        have hone₁ := (grounds_round hend hfirst).trans hone
        have hground₁ := grounded_round hground hfirst
        obtain ⟨inner₁, outer₁, rfl⟩ := List.exists_cons_of_ne_nil (hgoes hr)
        have hlater := ih hone₁ hground₁ hr
        omega

/-- Whatever the budget, a walk that has not ended has counted its rounds. -/
theorem steps_of_walk (hne : frames ≠ []) (hr : (runner b).walk n p m = .ok frames m') :
    m'.steps = m.steps + n := by
  have hground : Grounded [⟨p, none⟩] := by
    rintro _ ⟨⟩
    rfl
  exact steps_of_rounds rfl hground hne hr

end Machine

namespace Interpreter

open Machine

variable {i : Interpreter} {p : Program} {s : Streams} {k : Int} {n : Nat}

theorem steps_of_unfinished (h : (i.run n p s).ending = .unfinished) : (i.run n p s).steps = n := by
  cases hc : Tape.create i.room i.memorySize with
  | error e =>
    rw [run_of_create_error hc] at h
    cases h
  | ok t =>
    rw [run_of_create_ok hc] at h ⊢
    cases hw : (runner i.budget).walk n p ⟨t, s, 0⟩ with
    | error e m =>
      rw [hw] at h
      cases h
    | ok frames m =>
      rw [hw] at h
      cases frames with
      | nil => cases h
      | cons inner outer =>
        have hsteps := steps_of_walk (List.cons_ne_nil _ _) hw
        dsimp only at hsteps ⊢
        omega

/-- After one round more than its budget has steps, a run is over, and no further round changes it. -/
theorem run_over (hb : i.budget = some k) (hn : k.toNat + 1 ≤ n) :
    (i.run n p s).ending ≠ .unfinished ∧ i.run n p s = i.run (k.toNat + 1) p s := by
  have hne : (i.run (k.toNat + 1) p s).ending ≠ .unfinished := by
    obtain ⟨_, -, hne⟩ := ends_run (p := p) (s := s) hb
    exact hne
  obtain ⟨j, rfl⟩ := Nat.exists_eq_add_of_le hn
  rw [run_add hne j]
  exact ⟨hne, rfl⟩

end Interpreter

end Brainfuck
