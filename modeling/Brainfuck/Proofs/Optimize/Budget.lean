import Brainfuck.Proofs.Execution.Budget
import Brainfuck.Proofs.Optimize.Transparency

/-! Merged programs within a budget. They count no more steps, so what a program does within a budget its
merged form does too, and perhaps more. -/
namespace Brainfuck

namespace Machine

variable {α : Type} {k : Int} {m m' m₁ : Machine} {a : α} {e : RunError} {p p' q q' : Program}
  {body body' : List Instruction}

/-- The first result has spent the budget, and its streams are the start of those of the second; or else the
second result is like it, with no more steps. -/
def Covers (x y : EStateM.Result RunError Machine α) : Prop :=
  (∃ m, x = .error .stepLimit m ∧ Extends m (leaves y)) ∨
    Related (Agree (· ≥ ·)) (FailsLike (· ≥ ·)) x y

variable {x y z : EStateM.Result RunError Machine α}

theorem covers_ok (h : Covers x y) (hx : x = .ok a m) :
    ∃ m', y = .ok a m' ∧ Agree (· ≥ ·) m m' := by
  rcases h with ⟨m₁, rfl, -⟩ | h
  · cases hx
  · exact related_ok_left h hx

theorem steps_of_related (h : Related (Agree (· ≥ ·)) (FailsLike (· ≥ ·)) x y) :
    (leaves y).steps ≤ (leaves x).steps := by
  cases x with
  | ok a m =>
    obtain ⟨m', rfl, hm⟩ := related_ok_left h rfl
    exact hm.steps
  | error e m =>
    obtain ⟨e', m', rfl, he⟩ := related_error_left h rfl
    exact he.steps

theorem streams_of_related (h : Related (Agree (· ≥ ·)) (FailsLike (· ≥ ·)) x y) :
    (leaves x).streams = (leaves y).streams := by
  cases x with
  | ok a m =>
    obtain ⟨m', rfl, hm⟩ := related_ok_left h rfl
    exact hm.streams
  | error e m =>
    obtain ⟨e', m', rfl, he⟩ := related_error_left h rfl
    exact he.streams

theorem extends_of_covers (h : Covers x y) : Extends (leaves x) (leaves y) := by
  rcases h with ⟨m, rfl, hm⟩ | h
  · exact hm
  · exact extends_of_streams_eq (streams_of_related h)

theorem covers_trans (h : Covers x y) (h' : Covers y z) : Covers x z := by
  rcases h with ⟨m, rfl, hm⟩ | h
  · exact Or.inl ⟨m, rfl, extends_trans _ _ _ hm (extends_of_covers h')⟩
  · rcases h' with ⟨m', rfl, hm'⟩ | h'
    · -- only a spent budget is like a spent budget
      cases x with
      | ok a m => exact h.elim
      | error e m =>
        rcases h.error with rfl | ⟨-, hu⟩
        · exact Or.inl ⟨m, rfl, extends_trans _ _ _ (extends_of_streams_eq h.streams) hm'⟩
        · exact hu.elim
    · exact Or.inr (related_trans comparison_ge h h')

/-- What counts one step first is covered by the same with no more steps before it. -/
theorem counted_covers {f : EStateM RunError Machine α} (hm : Agree (· ≥ ·) m m')
    (hf : ∀ m m', Agree (· ≥ ·) m m' → Related (Agree (· ≥ ·)) (FailsLike (· ≥ ·)) (f m) (f m'))
    (hkeeps : Keeps Extends f) :
    Covers ((do countStep (some k); f) m) ((do countStep (some k); f) m') := by
  have hle : m'.steps ≤ m.steps := hm.steps
  by_cases hk : m.steps < k.toNat
  · right
    apply related_bind _ fun _ => hf
    rw [countStep_within hk, countStep_within (by omega)]
    exact countStep_related comparison_ge hm
  · left
    refine ⟨{ m with steps := m.steps + 1 }, ?_, ?_⟩
    · change EStateM.bind (countStep (some k)) _ m = _
      rw [EStateM.bind, countStep_beyond (Nat.le_of_not_lt hk)]
    · have hlater : Keeps Extends (do countStep (some k); f) :=
        keeps_bind extends_trans (countStep_extends _) fun _ => hkeeps
      exact extends_trans _ _ _ (extends_of_streams_eq hm.streams) (hlater m')

theorem perform_covers (a : Action) (hm : Agree (· ≥ ·) m m') :
    Covers (perform (some k) a m) (perform (some k) a m') :=
  counted_covers hm (fun _ _ => act_related a) fun m => (act_acts a m).streams

theorem check_covers (hm : Agree (· ≥ ·) m m') :
    Covers (check (some k) m) (check (some k) m') :=
  counted_covers hm (fun _ _ => test_related) fun m => (test_acts m).streams

/-- Whatever a program comes to within a budget, another covers. -/
def Outpaces (k : Int) (p q : Program) : Prop :=
  ∀ m m' x, Agree (· ≥ ·) m m' → m.steps ≤ k.toNat → Executes (some k) p m x →
    ∃ y, Executes (some k) q m' y ∧ Covers x y

theorem steps_of_executes_ok (hm : m.steps ≤ k.toNat) (h : Executes (some k) p m (.ok () m₁)) :
    m₁.steps ≤ k.toNat := by
  rcases executes_or_spent hm h with ⟨-, hle⟩ | ⟨m₂, heq⟩
  · exact hle
  · cases heq

theorem steps_of_check_ok {b : Bool} (h : check (some k) m = .ok b m₁) : m₁.steps ≤ k.toNat := by
  by_cases hk : m.steps < k.toNat
  · have hacts := test_acts { m with steps := m.steps + 1 }
    change EStateM.bind (countStep (some k)) _ m = _ at h
    rw [EStateM.bind, countStep_within hk] at h
    have htest : test { m with steps := m.steps + 1 } = .ok b m₁ := h
    rw [htest] at hacts
    have hsteps : m₁.steps = m.steps + 1 := hacts.steps
    omega
  · change EStateM.bind (countStep (some k)) _ m = _ at h
    rw [EStateM.bind, countStep_beyond (Nat.le_of_not_lt hk)] at h
    cases h

/-- A failure that is covered stays so whatever would follow. -/
theorem covers_append {y : Outcome} (hm : m'.steps ≤ k.toNat) (hy : Executes (some k) p m' y)
    (h : Covers (.error e m₁) y) :
    ∃ z, Executes (some k) (p ++ q) m' z ∧ Covers (.error e m₁) z := by
  cases y with
  | error e' m₂ => exact ⟨_, executes_append_error hy, h⟩
  | ok _ m₂ =>
    rcases h with ⟨m, heq, hext⟩ | h
    · -- the budget is spent on the first side only, so the second goes on
      obtain ⟨z, hz, -⟩ := exists_executes q (steps_of_executes_ok hm hy)
      exact ⟨z, executes_append_ok hy hz,
        Or.inl ⟨m, heq, extends_trans _ _ _ hext (executes_extends hz)⟩⟩
    · exact h.elim

theorem outpaces_nil : Outpaces k [] [] := by
  intro m m' x hm _ hx
  obtain rfl := executes_nil.mp hx
  exact ⟨_, .done, Or.inr ⟨rfl, hm⟩⟩

theorem outpaces_act (a : Action) : Outpaces k [.act a] [.act a] := by
  intro m m' x hm _ hx
  obtain rfl := executes_single.mp hx
  exact ⟨_, executes_single.mpr rfl, perform_covers a hm⟩

theorem outpaces_append (hp : Outpaces k p p') (hq : Outpaces k q q') :
    Outpaces k (p ++ q) (p' ++ q') := by
  intro m m' x hm hk hx
  have hle : m'.steps ≤ m.steps := hm.steps
  obtain ⟨m₁, hfirst, hrest⟩ | ⟨e, m₁, rfl, hfirst⟩ := executes_append.mp hx
  · obtain ⟨y, hy, hcovers⟩ := hp m m' _ hm hk hfirst
    obtain ⟨m₁', rfl, hm₁⟩ := covers_ok hcovers rfl
    obtain ⟨z, hz, hcovers⟩ := hq m₁ m₁' x hm₁ (steps_of_executes_ok hk hfirst) hrest
    exact ⟨z, executes_append_ok hy hz, hcovers⟩
  · obtain ⟨y, hy, hcovers⟩ := hp m m' _ hm hk hfirst
    exact covers_append (Nat.le_trans hle hk) hy hcovers

/-- Where the test of a loop fails for want of budget, the loop still comes to something. -/
theorem executes_of_check (hm : m.steps ≤ k.toNat) (body : List Instruction) :
    ∃ x, Executes (some k) [.loop body] m x ∧ Extends (leaves (check (some k) m)) (leaves x) ∧
      ∀ e m₁, check (some k) m = .error e m₁ → x = .error e m₁ := by
  obtain ⟨x, hx, -⟩ := exists_executes [.loop body] hm
  refine ⟨x, hx, ?_⟩
  rw [executes_loop] at hx
  rcases hc : check (some k) m with ⟨_ | _, m₁⟩ | ⟨e, m₁⟩
  · rw [hc] at hx
    exact ⟨executes_extends hx, by simp⟩
  · rw [hc] at hx
    exact ⟨executes_extends hx, by simp⟩
  · rw [hc] at hx
    subst hx
    exact ⟨extends_refl _, by simp⟩

theorem outpaces_loop (hb : Outpaces k body body') : Outpaces k [.loop body] [.loop body'] := by
  intro m m' x hm hk hx
  generalize hl : [Instruction.loop body] = l at hx
  induction hx generalizing m' with
  | done | act | actFails => cases hl
  | @skip _ _ m _ _ test later =>
    cases hl
    obtain ⟨m₁', test', hm₁⟩ := covers_ok (check_covers hm) test
    rw [executes_nil.mp later]
    exact ⟨_, .skip test' .done, Or.inr ⟨rfl, hm₁⟩⟩
  | @pass _ _ m _ _ _ test once _ _ ih =>
    cases hl
    obtain ⟨m₁', test', hm₁⟩ := covers_ok (check_covers hm) test
    have hk₁ := steps_of_check_ok test
    obtain ⟨y, once', hcovers⟩ := hb _ _ _ hm₁ hk₁ once
    obtain ⟨m₂', rfl, hm₂⟩ := covers_ok hcovers rfl
    obtain ⟨z, again', hcovers⟩ := ih m₂' hm₂ (steps_of_executes_ok hk₁ once) rfl
    exact ⟨z, .pass test' once' again', hcovers⟩
  | @passFails _ _ m _ _ _ test once =>
    cases hl
    obtain ⟨m₁', test', hm₁⟩ := covers_ok (check_covers hm) test
    obtain ⟨y, once', hcovers⟩ := hb _ _ _ hm₁ (steps_of_check_ok test) once
    obtain ⟨z, hz, hcovers⟩ :=
      covers_append (q := [.loop body']) (steps_of_check_ok test') once' hcovers
    refine ⟨z, executes_loop.mpr ?_, hcovers⟩
    rw [test']
    exact hz
  | @checkFails _ _ m _ _ test =>
    cases hl
    have hle : m'.steps ≤ m.steps := hm.steps
    have hcovers := check_covers (k := k) hm
    obtain ⟨y, hy, hext, herror⟩ := executes_of_check (Nat.le_trans hle hk) body'
    rw [test] at hcovers
    refine ⟨y, hy, ?_⟩
    rcases hcovers with ⟨m₁, heq, hm₁⟩ | hrel
    · cases heq
      exact Or.inl ⟨_, rfl, extends_trans _ _ _ hm₁ hext⟩
    · obtain ⟨e', m₁', test', he⟩ := related_error_left hrel rfl
      rw [herror e' m₁' test']
      exact Or.inr he

mutual

theorem outpaces_instruction : ∀ i : Instruction, Outpaces k [i] [i]
  | .act a => outpaces_act a
  | .loop body => outpaces_loop (outpaces_refl body)

theorem outpaces_refl : ∀ p : Program, Outpaces k p p
  | [] => outpaces_nil
  | i :: is => outpaces_append (p := [i]) (outpaces_instruction i) (outpaces_refl is)

end

theorem outpaces_trans (h : Outpaces k p q) (h' : Outpaces k q q') : Outpaces k p q' := by
  intro m m' x hm hk hx
  have hself : Agree (· ≥ ·) m m := ⟨⟨Tape.same_refl _, hm.tape.2⟩, rfl, Nat.le_refl _⟩
  obtain ⟨y, hy, hxy⟩ := h m m x hself hk hx
  obtain ⟨z, hz, hyz⟩ := h' m m' y hm hk hy
  exact ⟨z, hz, covers_trans hxy hyz⟩

theorem outpaces_pair {op : TapeOp} {a b : Count}
    (hab : op = .moveRight → a.val + b.val ≤ maxBlock) :
    Outpaces k [.act (.apply op a), .act (.apply op b)] [.act (.apply op (a + b))] := by
  intro m m' x hm hk hx
  have hk' : m'.steps ≤ k.toNat := Nat.le_trans hm.steps hk
  rcases executes_or_spent hk hx with ⟨hfree, hle⟩ | ⟨m₁, rfl⟩
  · obtain ⟨y, hy, hrel⟩ :=
      simulates_merge hab (by intro j l n hjl hn; omega) m m' x hm hfree
    exact ⟨y, executes_within hk' hy (Nat.le_trans (steps_of_related hrel) hle), Or.inr hrel⟩
  · -- no tape operation touches the streams, wherever the budget stops the pair
    obtain ⟨y, hy, -⟩ := exists_executes [.act (.apply op (a + b))] hk'
    refine ⟨y, hy, Or.inl ⟨m₁, rfl, ?_⟩⟩
    have hsame : SameStreams m m₁ := by
      have hfirst := perform_apply_streams (some k) op a m
      rw [executes_act] at hx
      cases hp : perform (some k) (.apply op a) m with
      | error e m₂ =>
        rw [hp] at hx hfirst
        cases hx
        exact hfirst
      | ok _ m₂ =>
        rw [hp] at hx hfirst
        have hsecond := perform_apply_streams (some k) op b m₂
        rw [← executes_single.mp hx] at hsecond
        exact sameStreams_trans _ _ _ hfirst hsecond
    have hstart : Extends m₁ m' := extends_of_streams_eq (hsame.symm.trans hm.streams)
    exact extends_trans _ _ _ hstart (executes_extends hy)

theorem outpaces_congruence (k : Int) : Program.MergeCongruence maxBlock (Outpaces k) where
  refl := outpaces_refl
  trans _ _ _ := outpaces_trans
  append _ _ _ _ := outpaces_append
  loop _ _ := outpaces_loop
  pair _ _ _ := outpaces_pair

/-- Whatever a program does within a budget, its merged form covers. -/
theorem outpaces_optimize (k : Int) (h : p.RightRunsWithin maxBlock) : Outpaces k p p.optimize :=
  Program.congruence_optimize (outpaces_congruence k) h

end Machine

namespace Interpreter

open Machine

variable {i : Interpreter} {p : Program} {s : Streams} {k : Int} {r r' : Run}

theorem exists_ends_within (i : Interpreter) (p : Program) (s : Streams) (k : Int) :
    ∃ r, (i.within (some k)).Ends p s r := by
  rcases within_or_beyond i p s k with ⟨r, hr, hle⟩ | hbeyond
  · obtain ⟨r', hr', -⟩ := ends_within hr hle
    exact ⟨r', hr'⟩
  · obtain ⟨r', n, hr', -⟩ := ends_beyond hbeyond
    exact ⟨r', hr'⟩

/-- What a run comes to within a budget: the other run agrees with it, or goes on where it has spent the
budget. -/
theorem agrees_or_precedes {x y : Outcome} (h : Covers x y)
    (hmemory : ¬ (i.after x).ending.IsOutOfMemory) :
    (i.after x).ending = .failed .stepLimit ∧ (i.after x).streams.Precedes (i.after y).streams ∨
      (i.after x).Agrees (i.after y) := by
  rcases h with ⟨m, rfl, hm⟩ | h
  · left
    refine ⟨rfl, ?_⟩
    cases y <;> exact hm
  · exact Or.inr (agrees_of_related h hmemory)

/-- Merging runs that move no further than a block at once costs no budget. Both runs end, and if memory has
given out on neither: where that of the program has not spent its budget that of the merged one agrees with
it, and where it has, what it has written and called is the start of what the merged one writes and calls. -/
theorem optimize_costs_no_budget (i : Interpreter) (s : Streams) (k : Int)
    (hp : p.RightRunsWithin maxBlock) :
    (∃ r, (i.within (some k)).Ends p s r) ∧ (∃ r, (i.within (some k)).Ends p.optimize s r) ∧
      ∀ r r', (i.within (some k)).Completes p s r → (i.within (some k)).Completes p.optimize s r' →
        (r.ending ≠ .failed .stepLimit → r.Agrees r') ∧
        (r.ending = .failed .stepLimit → r.streams.Precedes r'.streams) := by
  refine ⟨exists_ends_within i p s k, exists_ends_within i p.optimize s k, ?_⟩
  rintro r r' ⟨hr, hmemory⟩ ⟨hr', -⟩
  cases hc : Tape.create i.room i.memorySize with
  | error e =>
    rw [within_ends_of_error hc] at hr hr'
    subst hr hr'
    exact ⟨fun _ => agrees_refl _, fun _ => Streams.precedes_refl _⟩
  | ok t =>
    obtain ⟨x, hx, rfl⟩ := (within_ends_of_ok hc).mp hr
    obtain ⟨y, hy, rfl⟩ := (within_ends_of_ok hc).mp hr'
    have ht : Tape.Alike t t := ⟨Tape.same_refl t, (Tape.create_ok hc).1⟩
    obtain ⟨y', hy', hcovers⟩ :=
      outpaces_optimize k hp _ _ x ⟨ht, rfl, Nat.le_refl _⟩ (Nat.zero_le _) hx
    obtain rfl := executes_unique hy hy'
    rcases agrees_or_precedes (i := i.within (some k)) hcovers hmemory
      with ⟨hspent, hprec⟩ | hagrees
    · exact ⟨fun hne => (hne hspent).elim, fun _ => hprec⟩
    · refine ⟨fun _ => hagrees, fun _ => ?_⟩
      rw [hagrees.streams]
      exact Streams.precedes_refl _

/-- A loop whose runs merge, inside and out. Where the budget allows for its twenty-two steps both runs end
alike; with fewer the merged program, which takes fourteen, goes on where the program has to stop. -/
theorem optimize_costs_no_budget_doubling :
    ∃ p r r' q q', Program.parse "++[->>++<<]>>." = .ok p ∧
      ((single Tape.usualRoom (by decide)).within (some 22)).Completes p (.ofBytes []) r ∧
      ((single Tape.usualRoom (by decide)).within (some 22)).Completes p.optimize (.ofBytes []) r' ∧
      r.ending = .finished ∧ r.streams.written.toList = [4] ∧ r.Agrees r' ∧
      ((single Tape.usualRoom (by decide)).within (some 14)).Completes p (.ofBytes []) q ∧
      ((single Tape.usualRoom (by decide)).within (some 14)).Completes p.optimize (.ofBytes []) q' ∧
      q.ending = .failed .stepLimit ∧ q'.ending = .finished ∧ q.streams.Precedes q'.streams := by
  let p : Program := [.act (.apply .increment .one), .act (.apply .increment .one),
    .loop [.act (.apply .decrement .one), .act (.apply .moveRight .one),
      .act (.apply .moveRight .one), .act (.apply .increment .one),
      .act (.apply .increment .one), .act (.apply .moveLeft .one), .act (.apply .moveLeft .one)],
    .act (.apply .moveRight .one), .act (.apply .moveRight .one), .act .output]
  let i : Interpreter := single Tape.usualRoom (by decide)
  have hp : p.RightRunsWithin maxBlock :=
    Program.rightRunsWithin_of_reach (by decide +kernel)
  obtain ⟨-, -, hwide⟩ := optimize_costs_no_budget i (.ofBytes []) 22 hp
  obtain ⟨-, -, hnarrow⟩ := optimize_costs_no_budget i (.ofBytes []) 14 hp
  have hr : (i.within (some 22)).Completes p (.ofBytes []) _ :=
    completes_run (n := 30) (x := .finished) (by decide +kernel) (by decide) id
  have hr' : (i.within (some 22)).Completes p.optimize (.ofBytes []) _ :=
    completes_run (n := 30) (x := .finished) (by decide +kernel) (by decide) id
  have hq : (i.within (some 14)).Completes p (.ofBytes []) _ :=
    completes_run (n := 30) (x := .failed .stepLimit) (by decide +kernel) (by decide) id
  have hq' : (i.within (some 14)).Completes p.optimize (.ofBytes []) _ :=
    completes_run (n := 30) (x := .finished) (by decide +kernel) (by decide) id
  exact ⟨p, _, _, _, _, by rfl, hr, hr', by decide +kernel, by decide +kernel,
    (hwide _ _ hr hr').1 (by decide +kernel), hq, hq', by decide +kernel, by decide +kernel,
    (hnarrow _ _ hq hq').2 (by decide +kernel)⟩

/-- Within a budget too, runs that move further at once are noticed: two moves that run out of memory one by
one are too much to ask for in one, and the first of two leaves cells that their sum does not. -/
theorem optimize_noticed_within_budget :
    (∃ p r r', Program.RightRunsWithin maxIndex p ∧
      ((single Tape.usualRoom (by decide)).within (some 2)).Ends p (.ofBytes []) r ∧
      ((single Tape.usualRoom (by decide)).within (some 2)).Ends p.optimize (.ofBytes []) r' ∧
      r.ending = .failed (.tape .outOfMemory) ∧ r'.ending = .failed (.tape .blockTooLarge)) ∧
    ∃ p r r', Program.RightRunsWithin maxIndex p ∧
      ((single Tape.usualRoom (by decide)).within (some 2)).Ends p (.ofBytes []) r ∧
      ((single Tape.usualRoom (by decide)).within (some 2)).Ends p.optimize (.ofBytes []) r' ∧
      r.ending ≠ .failed .stepLimit ∧ r.interpreter.tape.length = 2 ∧
      r'.interpreter.tape.length = 1 := by
  let far : Program := [.act (.apply .moveRight ⟨0x4000_0000_0000_0000, by decide⟩),
    .act (.apply .moveRight ⟨0x3FFF_FFFF_FFFF_FFF5, by decide⟩)]
  let near : Program := [.act (.apply .moveRight .one),
    .act (.apply .moveRight ⟨0x4000_0000_0000_0000, by decide⟩)]
  have hfar : far.RightRunsWithin maxIndex :=
    Program.rightRunsWithin_of_reach (by decide +kernel)
  have hnear : near.RightRunsWithin maxIndex :=
    Program.rightRunsWithin_of_reach (by decide +kernel)
  refine ⟨⟨far, _, _, hfar, ⟨3, rfl, ?_⟩, ⟨3, rfl, ?_⟩, ?_, ?_⟩,
    near, _, _, hnear, ⟨3, rfl, ?_⟩, ⟨3, rfl, ?_⟩, ?_, ?_, ?_⟩
  all_goals decide +kernel

end Interpreter

end Brainfuck
