import Brainfuck.Proofs.Execution.Outcome
import Brainfuck.Proofs.Execution.Progress

/-! Runs within a budget of steps. They go like a run without one as far as the budget reaches, and stop
at the first step beyond it. -/
namespace Brainfuck

namespace Machine

variable {k : Int} {m m' : Machine} {inner : Frame} {outer frames : List Frame} {n : Nat}
  {p : Program}

theorem countStep_within (h : m.steps < k.toNat) : countStep (some k) m = countStep none m := by
  have hle : ¬ k < (m.steps + 1 : Nat) := by omega
  exact if_neg hle

theorem countStep_beyond (h : k.toNat ≤ m.steps) :
    countStep (some k) m = .error .stepLimit { m with steps := m.steps + 1 } := by
  have hlt : k < (m.steps + 1 : Nat) := by omega
  exact if_pos hlt

/-- A round goes as it would without a budget, or it is the one that would count a step too many. -/
theorem round_budget (inner : Frame) (outer : List Frame) (h : m.steps ≤ k.toNat) :
    ((runner (some k)).round inner outer m = (runner none).round inner outer m ∧
      (leaves ((runner none).round inner outer m)).steps ≤ k.toNat) ∨
    (m.steps = k.toNat ∧ k.toNat < (leaves ((runner none).round inner outer m)).steps ∧
      (runner (some k)).round inner outer m =
        .error .stepLimit { m with steps := m.steps + 1 }) := by
  by_cases hend : inner = ⟨[], none⟩
  · subst hend
    exact Or.inl ⟨rfl, h⟩
  · obtain ⟨hsteps, -⟩ := round_steps outer hend m
    have hfree : (runner none).round inner outer m = EStateM.bind (countStep none) _ m :=
      congrFun (round_counted none hend) m
    have hheld : (runner (some k)).round inner outer m = EStateM.bind (countStep (some k)) _ m :=
      congrFun (round_counted (some k) hend) m
    by_cases hk : m.steps < k.toNat
    · refine Or.inl ⟨?_, by omega⟩
      rw [hheld, hfree, EStateM.bind, EStateM.bind, countStep_within hk]
    · have hspent : m.steps = k.toNat := by omega
      refine Or.inr ⟨hspent, by omega, ?_⟩
      rw [hheld, EStateM.bind, countStep_beyond (Nat.le_of_not_lt hk)]

/-- After `j` rounds without a budget the machine is `m'`, and the next one counts a step beyond `k`. -/
structure Exhausts (k : Int) (frames : List Frame) (m : Machine) (j : Nat) (m' : Machine) :
    Prop where
  reached : leaves ((runner none).rounds j frames m) = m'
  spent : m'.steps = k.toNat
  passed : k.toNat < (leaves ((runner none).rounds (j + 1) frames m)).steps

/-- Rounds within a budget are those without one, or end at the first step beyond it. -/
theorem rounds_budget (n : Nat) (frames : List Frame) (h : m.steps ≤ k.toNat) :
    ((runner (some k)).rounds n frames m = (runner none).rounds n frames m ∧
      (leaves ((runner none).rounds n frames m)).steps ≤ k.toNat) ∨
    ∃ j m', Exhausts k frames m j m' ∧ (runner (some k)).rounds n frames m =
      .error .stepLimit { m' with steps := m'.steps + 1 } := by
  induction n generalizing frames m with
  | zero => exact Or.inl ⟨rfl, h⟩
  | succ n ih =>
    cases frames with
    | nil => exact Or.inl ⟨rfl, h⟩
    | cons inner outer =>
      rcases round_budget inner outer h with ⟨hsame, hle⟩ | ⟨hspent, hlt, hstop⟩
      · cases hr : (runner none).round inner outer m with
        | error e m₁ =>
          rw [hr] at hle
          rw [Visitor.rounds, Visitor.rounds, hsame, hr]
          exact Or.inl ⟨rfl, hle⟩
        | ok frames₁ m₁ =>
          rw [hr] at hle
          rcases ih frames₁ hle with hrest | ⟨j, m', hj, hrest⟩
          · rw [Visitor.rounds, Visitor.rounds, hsame, hr]
            exact Or.inl hrest
          · refine Or.inr ⟨j + 1, m', ⟨?_, hj.spent, ?_⟩, ?_⟩
            · rw [Visitor.rounds, hr]
              exact hj.reached
            · rw [Visitor.rounds, hr]
              exact hj.passed
            · rw [Visitor.rounds, hsame, hr]
              exact hrest
      · refine Or.inr ⟨0, m, ⟨rfl, hspent, ?_⟩, ?_⟩
        · rw [Visitor.rounds]
          cases hr : (runner none).round inner outer m <;> rw [hr] at hlt <;> exact hlt
        · rw [Visitor.rounds, hstop]

/-- Of two states of a walk without a budget, the one with fewer steps is the earlier. -/
theorem noLater_of_steps_le {a b : Nat}
    (h : (leaves ((runner none).rounds a frames m)).steps ≤
      (leaves ((runner none).rounds b frames m)).steps) :
    NoLater (leaves ((runner none).rounds a frames m)) (leaves ((runner none).rounds b frames m)) := by
  rcases Nat.le_total a b with hab | hba
  · exact keeps_rounds_later noLater_refl rounds_noLater a b hab
  · have hlater : NoLater (leaves ((runner none).rounds b frames m))
        (leaves ((runner none).rounds a frames m)) :=
      keeps_rounds_later noLater_refl rounds_noLater b a hba
    have hsteps := steps_of_noLater hlater
    exact Or.inl (eq_of_noLater hlater (by omega)).symm

theorem leaves_of_yields {y : EStateM.Result RunError Machine (List Frame)} {x : Outcome}
    (h : Visitor.Yields y x) : leaves y = leaves x := by
  cases x <;> cases h <;> rfl

/-- No round goes beyond what the walk ends with. -/
theorem steps_le_of_yields {x : Outcome} (h : Visitor.Yields ((runner none).rounds n frames m) x)
    (j : Nat) : (leaves ((runner none).rounds j frames m)).steps ≤ (leaves x).steps := by
  have hend : leaves ((runner none).rounds (n + j) frames m) = leaves x :=
    leaves_of_yields (Visitor.yields_add h j)
  have hlater : NoLater (leaves ((runner none).rounds j frames m))
      (leaves ((runner none).rounds (n + j) frames m)) :=
    keeps_rounds_later noLater_refl rounds_noLater j (n + j) (by omega)
  rw [hend] at hlater
  exact steps_of_noLater hlater

/-- A budget that is not spent is not noticed. -/
theorem executes_within {x : Outcome} (hm : m.steps ≤ k.toNat) (h : Executes none p m x)
    (hx : (leaves x).steps ≤ k.toNat) : Executes (some k) p m x := by
  obtain ⟨n, hn⟩ := settles_iff_executes.mpr h
  rcases rounds_budget n [⟨p, none⟩] hm with ⟨hsame, -⟩ | ⟨j, m', hj, -⟩
  · apply settles_iff_executes.mp
    exact ⟨n, hsame ▸ hn⟩
  · have hle := steps_le_of_yields hn (j + 1)
    have hlt := hj.passed
    omega

/-- A program that takes more steps than its budget, or never ends, fails at the first step beyond. -/
theorem executes_beyond (hm : m.steps ≤ k.toNat)
    (h : ∀ x, Executes none p m x → k.toNat < (leaves x).steps) :
    ∃ j m', Exhausts k [⟨p, none⟩] m j m' ∧
      Executes (some k) p m (.error .stepLimit { m' with steps := m'.steps + 1 }) := by
  -- each round but one counts a step, so after these many the budget is spent
  rcases rounds_budget (k.toNat + 1) [⟨p, none⟩] hm with ⟨-, hle⟩ | ⟨j, m', hj, hstop⟩
  · exfalso
    have hno (x : Outcome)
        (hx : Visitor.Yields ((runner none).rounds (k.toNat + 1) [⟨p, none⟩] m) x) : False := by
      have hlt := h x (settles_iff_executes.mp ⟨_, hx⟩)
      rw [leaves_of_yields hx] at hle
      omega
    cases hr : (runner none).rounds (k.toNat + 1) [⟨p, none⟩] m with
    | error e m' => exact hno (.error e m') hr
    | ok frames m' =>
      rw [hr] at hle
      obtain rfl := nil_of_rounds hr hle
      exact hno (.ok () m') hr
  · exact ⟨j, m', hj, settles_iff_executes.mp ⟨_, hstop⟩⟩

/-- A budget is a bound on rounds as well. -/
theorem rounds_end (p : Program) (hm : m.steps ≤ k.toNat) :
    ∃ x, Visitor.Yields ((runner (some k)).rounds (k.toNat + 1) [⟨p, none⟩] m) x := by
  rcases rounds_budget (k.toNat + 1) [⟨p, none⟩] hm with ⟨hsame, hle⟩ | ⟨j, m', -, hstop⟩
  · rw [hsame]
    cases hr : (runner none).rounds (k.toNat + 1) [⟨p, none⟩] m with
    | error e m' => exact ⟨.error e m', rfl⟩
    | ok frames m' =>
      rw [hr] at hle
      obtain rfl := nil_of_rounds hr hle
      exact ⟨.ok () m', rfl⟩
  · rw [hstop]
    exact ⟨.error _ _, rfl⟩

/-- A budget brings every program to an end. What it comes to is what it would come to without the
budget, unless the budget is spent. -/
theorem exists_executes (p : Program) (hm : m.steps ≤ k.toNat) :
    ∃ x, Executes (some k) p m x ∧
      ((Executes none p m x ∧ (leaves x).steps ≤ k.toNat) ∨ ∃ m₁, x = .error .stepLimit m₁) := by
  by_cases h : ∃ x, Executes none p m x ∧ (leaves x).steps ≤ k.toNat
  · obtain ⟨x, hx, hle⟩ := h
    exact ⟨x, executes_within hm hx hle, Or.inl ⟨hx, hle⟩⟩
  · have hbeyond : ∀ x, Executes none p m x → k.toNat < (leaves x).steps := by
      intro x hx
      apply Nat.lt_of_not_le
      intro hle
      exact h ⟨x, hx, hle⟩
    obtain ⟨j, m', -, hx⟩ := executes_beyond hm hbeyond
    exact ⟨_, hx, Or.inr ⟨_, rfl⟩⟩

theorem executes_or_spent {x : Outcome} (hm : m.steps ≤ k.toNat) (h : Executes (some k) p m x) :
    (Executes none p m x ∧ (leaves x).steps ≤ k.toNat) ∨ ∃ m₁, x = .error .stepLimit m₁ := by
  obtain ⟨y, hy, hcases⟩ := exists_executes p hm
  rwa [executes_unique h hy]

end Machine

/-- The machine that a run leaves. -/
def Run.machine (r : Run) : Machine := ⟨r.interpreter.tape, r.streams, r.steps⟩

/-- Runs that end alike, with the same tape, the same streams and the same count of steps. -/
structure Run.Same (r r' : Run) : Prop where
  ending : r.ending = r'.ending
  tape : r.interpreter.tape = r'.interpreter.tape
  streams : r.streams = r'.streams
  steps : r.steps = r'.steps

theorem Run.same_symm {r r' : Run} (h : r.Same r') : r'.Same r :=
  ⟨h.ending.symm, h.tape.symm, h.streams.symm, h.steps.symm⟩

theorem Run.same_trans {r r' r'' : Run} (h : r.Same r') (h' : r'.Same r'') : r.Same r'' :=
  ⟨h.ending.trans h'.ending, h.tape.trans h'.tape, h.streams.trans h'.streams,
    h.steps.trans h'.steps⟩

namespace Interpreter

open Machine

variable {i : Interpreter} {p : Program} {s : Streams} {t : Tape} {r r' : Run} {k : Int}
  {b b' : Option Int} {x : Outcome} {n : Nat}

/-- The interpreter with another budget, or without one. -/
def within (i : Interpreter) (budget : Option Int) : Interpreter := { i with budget }

theorem after_same : ((i.within b).after x).Same ((i.within b').after x) := by
  cases x <;> exact ⟨rfl, rfl, rfl, rfl⟩

theorem steps_after : (i.after x).steps = (leaves x).steps := by
  cases x <;> rfl

theorem within_ends_of_error {e : SizeError} (h : Tape.create i.room i.memorySize = .error e) :
    (i.within b).Ends p s r ↔ r = ⟨i.within b, s, 0, .failed (.size e)⟩ :=
  ends_of_create_error (i := i.within b) h

theorem within_ends_of_ok (h : Tape.create i.room i.memorySize = .ok t) :
    (i.within b).Ends p s r ↔ ∃ x, Executes b p ⟨t, s, 0⟩ x ∧ r = (i.within b).after x :=
  ends_of_create_ok (i := i.within b) h

/-- What a run on a fresh tape leaves is what the walk leaves. -/
theorem machine_run (h : Tape.create i.room i.memorySize = .ok t) (n : Nat) :
    (i.run n p s).machine = leaves ((runner i.budget).rounds n [⟨p, none⟩] ⟨t, s, 0⟩) := by
  rw [run_of_create_ok h, Visitor.walk]
  cases (runner i.budget).rounds n [⟨p, none⟩] ⟨t, s, 0⟩ <;> rfl

theorem steps_run (h : Tape.create i.room i.memorySize = .ok t) (n : Nat) :
    ((i.within none).run n p s).steps =
      (leaves ((runner none).rounds n [⟨p, none⟩] ⟨t, s, 0⟩)).steps :=
  congrArg Machine.steps (machine_run (i := i.within none) h n)

/-- Of two states of a run without a budget, the one with fewer steps is the earlier. -/
theorem run_noLater {a c : Nat}
    (h : ((i.within none).run a p s).steps ≤ ((i.within none).run c p s).steps) :
    NoLater ((i.within none).run a p s).machine ((i.within none).run c p s).machine := by
  cases hc : Tape.create i.room i.memorySize with
  | error e =>
    rw [run_of_create_error (i := i.within none) hc, run_of_create_error (i := i.within none) hc]
    exact noLater_refl _
  | ok t =>
    rw [steps_run hc, steps_run hc] at h
    rw [machine_run (i := i.within none) hc, machine_run (i := i.within none) hc]
    exact noLater_of_steps_le h

theorem within_or_beyond (i : Interpreter) (p : Program) (s : Streams) (k : Int) :
    (∃ r, (i.within none).Ends p s r ∧ r.steps ≤ k.toNat) ∨
      ∀ r, (i.within none).Ends p s r → k.toNat < r.steps := by
  by_cases h : ∃ r, (i.within none).Ends p s r ∧ r.steps ≤ k.toNat
  · exact Or.inl h
  · right
    intro r hr
    apply Nat.lt_of_not_le
    intro hle
    exact h ⟨r, hr, hle⟩

/-- A run that takes no more steps than a budget is the run within that budget. -/
theorem ends_within (h : (i.within none).Ends p s r) (hr : r.steps ≤ k.toNat) :
    ∃ r', (i.within (some k)).Ends p s r' ∧ r'.Same r := by
  cases hc : Tape.create i.room i.memorySize with
  | error e =>
    rw [within_ends_of_error hc] at h
    subst h
    exact ⟨_, (within_ends_of_error hc).mpr rfl, rfl, rfl, rfl, rfl⟩
  | ok t =>
    obtain ⟨x, hx, rfl⟩ := (within_ends_of_ok hc).mp h
    rw [steps_after] at hr
    have hheld : Executes (some k) p ⟨t, s, 0⟩ x := executes_within (Nat.zero_le _) hx hr
    exact ⟨_, (within_ends_of_ok hc).mpr ⟨x, hheld, rfl⟩, after_same⟩

/-- A run that takes more steps than a budget, or never ends, fails within the budget as it is after that
many steps. -/
theorem ends_beyond (h : ∀ r, (i.within none).Ends p s r → k.toNat < r.steps) :
    ∃ r' n, (i.within (some k)).Ends p s r' ∧ r'.ending = .failed .stepLimit ∧
      ((i.within none).run n p s).steps = k.toNat ∧
      r'.interpreter.tape = ((i.within none).run n p s).interpreter.tape ∧
      r'.streams = ((i.within none).run n p s).streams := by
  cases hc : Tape.create i.room i.memorySize with
  | error e =>
    have hlt := h _ ((within_ends_of_error hc).mpr rfl)
    exact (Nat.not_lt_zero _ hlt).elim
  | ok t =>
    have hbeyond : ∀ x, Executes none p ⟨t, s, 0⟩ x → k.toNat < (leaves x).steps := by
      intro x hx
      have hlt := h _ ((within_ends_of_ok hc).mpr ⟨x, hx, rfl⟩)
      rwa [steps_after] at hlt
    obtain ⟨j, m', hj, hx⟩ := executes_beyond (Nat.zero_le _) hbeyond
    have hleaves := (machine_run (i := i.within none) hc j).trans hj.reached
    have hsteps := congrArg Machine.steps hleaves
    have htape := congrArg Machine.tape hleaves
    have hstreams := congrArg Machine.streams hleaves
    exact ⟨_, j, (within_ends_of_ok hc).mpr ⟨_, hx, rfl⟩, rfl, hsteps.trans hj.spent, htape.symm,
      hstreams.symm⟩

/-- No state of a run has more steps than the run has in the end. -/
theorem steps_le_of_ends (h : (i.within none).Ends p s r) (n : Nat) :
    ((i.within none).run n p s).steps ≤ r.steps := by
  cases hc : Tape.create i.room i.memorySize with
  | error e =>
    rw [run_of_create_error (i := i.within none) hc]
    exact Nat.zero_le _
  | ok t =>
    obtain ⟨x, hx, rfl⟩ := (within_ends_of_ok hc).mp h
    obtain ⟨n', hn'⟩ := settles_iff_executes.mpr hx
    rw [steps_run hc, steps_after]
    exact steps_le_of_yields hn' n

/-- A run within a budget treats its streams as the run without one does up to the last of its states that
are within the budget. -/
theorem last_of_ends (h : (i.within b).Ends p s r) :
    ∃ n, r.streams = ((i.within none).run n p s).streams ∧
      (∀ k ∈ b, ((i.within none).run n p s).steps ≤ k.toNat) ∧
      ∀ n', (∀ k ∈ b, ((i.within none).run n' p s).steps ≤ k.toNat) →
        ((i.within none).run n' p s).steps ≤ ((i.within none).run n p s).steps := by
  cases b with
  | none =>
    obtain ⟨n, rfl, hne⟩ := h
    exact ⟨n, rfl, by simp, fun n' _ => steps_le_of_ends ⟨n, rfl, hne⟩ n'⟩
  | some k =>
    simp only [Option.mem_some_iff, forall_eq']
    rcases within_or_beyond i p s k with ⟨_, ⟨n, rfl, hne⟩, hle⟩ | hbeyond
    · have hends : (i.within none).Ends p s ((i.within none).run n p s) := ⟨n, rfl, hne⟩
      obtain ⟨r', hr', hsame⟩ := ends_within hends hle
      rw [ends_unique h hr']
      exact ⟨n, hsame.streams, hle, fun n' _ => steps_le_of_ends hends n'⟩
    · obtain ⟨r', n, hr', -, hsteps, -, hstreams⟩ := ends_beyond hbeyond
      rw [ends_unique h hr']
      exact ⟨n, hstreams, by omega, fun n' hn' => by omega⟩

/-- A run within a budget is over after one more round than the budget allows steps. -/
theorem ends_run (hb : i.budget = some k) :
    i.Ends p s (i.run (k.toNat + 1) p s) := by
  refine ⟨_, rfl, ?_⟩
  cases hc : Tape.create i.room i.memorySize with
  | error e =>
    rw [run_of_create_error hc]
    rintro ⟨⟩
  | ok t =>
    obtain ⟨x, hx⟩ := rounds_end (k := k) (m := ⟨t, s, 0⟩) p (Nat.zero_le _)
    rw [run_of_create_ok hc, hb, Visitor.walk]
    cases x with
    | ok _ m =>
      have hw : (runner (some k)).rounds (k.toNat + 1) [⟨p, none⟩] ⟨t, s, 0⟩ = .ok [] m := hx
      rw [hw]
      rintro ⟨⟩
    | error e m =>
      have hw : (runner (some k)).rounds (k.toNat + 1) [⟨p, none⟩] ⟨t, s, 0⟩ = .error e m := hx
      rw [hw]
      rintro ⟨⟩

/-- A larger budget, or none, changes nothing where the smaller one was not spent. -/
theorem ends_larger (hb : ∀ l ∈ b, k ≤ l) (h : (i.within (some k)).Ends p s r)
    (hr : r.ending ≠ .failed .stepLimit) : ∃ r', (i.within b).Ends p s r' ∧ r'.Same r := by
  rcases within_or_beyond i p s k with ⟨r₀, hr₀, hle⟩ | hbeyond
  · obtain ⟨r₁, hr₁, hsame⟩ := ends_within hr₀ hle
    obtain rfl := ends_unique h hr₁
    cases b with
    | none => exact ⟨r₀, hr₀, Run.same_symm hsame⟩
    | some l =>
      have hkl : k ≤ l := hb l rfl
      obtain ⟨r₂, hr₂, hsame'⟩ := ends_within (k := l) hr₀ (by omega)
      exact ⟨r₂, hr₂, Run.same_trans hsame' (Run.same_symm hsame)⟩
  · obtain ⟨r', n, hr', hlimit, -⟩ := ends_beyond hbeyond
    rw [ends_unique h hr'] at hr
    exact (hr hlimit).elim

/-- What is written and called within a budget is the start of what is within a larger one. -/
theorem precedes_larger (hb : ∀ l ∈ b, k ≤ l) (h : (i.within (some k)).Ends p s r)
    (h' : (i.within b).Ends p s r') : r.streams.Precedes r'.streams := by
  obtain ⟨n, hn, hk, -⟩ := last_of_ends h
  obtain ⟨n', hn', -, hlast⟩ := last_of_ends h'
  have hle : ((i.within none).run n p s).steps ≤ ((i.within none).run n' p s).steps := by
    apply hlast
    intro l hl
    have hkl := hb l hl
    have hsteps := hk k rfl
    omega
  rw [hn, hn']
  exact precedes_of_noLater (run_noLater hle)

/-- The budget is exact. Where the run without one counts no more steps than the budget allows, the failing
one included, both runs are the same. Otherwise the budget fails with the tape and streams of the run
without one after that many steps. So a larger budget changes no run that ended for another reason, and
adds to what is written. -/
theorem budget_exact (i : Interpreter) (p : Program) (s : Streams) (k : Int) :
    (∀ r, (i.within none).Ends p s r → r.steps ≤ k.toNat →
      ∃ r', (i.within (some k)).Ends p s r' ∧ r'.Same r) ∧
    ((∀ r, (i.within none).Ends p s r → k.toNat < r.steps) →
      ∃ r', (i.within (some k)).Ends p s r' ∧ r'.ending = .failed .stepLimit ∧
        (∃ n, ((i.within none).run n p s).steps = k.toNat) ∧
        ∀ n, ((i.within none).run n p s).steps = k.toNat →
          r'.interpreter.tape = ((i.within none).run n p s).interpreter.tape ∧
          r'.streams = ((i.within none).run n p s).streams) ∧
    ∀ b, (∀ l ∈ b, k ≤ l) → ∀ r, (i.within (some k)).Ends p s r →
      (r.ending ≠ .failed .stepLimit → ∃ r', (i.within b).Ends p s r' ∧ r'.Same r) ∧
      ∀ r', (i.within b).Ends p s r' → r.streams.Precedes r'.streams := by
  refine ⟨fun r => ends_within, ?_, ?_⟩
  · intro h
    obtain ⟨r', j, hr', hlimit, hsteps, htape, hstreams⟩ := ends_beyond h
    refine ⟨r', hr', hlimit, ⟨j, hsteps⟩, ?_⟩
    intro n hn
    have hle : ((i.within none).run j p s).steps ≤ ((i.within none).run n p s).steps := by omega
    have heq := eq_of_noLater (run_noLater hle) (hsteps.trans hn.symm)
    rw [htape, hstreams]
    exact ⟨congrArg Machine.tape heq, congrArg Machine.streams heq⟩
  · intro b hb r hr
    exact ⟨ends_larger hb hr, fun r' => precedes_larger hb hr⟩

end Interpreter

end Brainfuck
