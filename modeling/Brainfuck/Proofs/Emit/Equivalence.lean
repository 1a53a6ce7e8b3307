import Brainfuck.Proofs.Emit.Simulation
import Brainfuck.Proofs.Execution.Lockstep

/-! Running a program and running what is generated for it come to the same. -/
namespace Brainfuck

namespace Program

variable {p : Program} {body : List Instruction} {a : Action} {c : Emit.Call}
  {cs code : List Emit.Code}

theorem portable_act (h : Portable (.act a :: p)) : a.Portable ∧ Portable p := every_act.mp h

theorem portable_loop (h : Portable (.loop body :: p)) : Portable body ∧ Portable p := every_loop.mp h

theorem call?_of_portable (h : a.Portable) : ∃ c, a.call? = some c := by
  cases a with
  | apply op n => exact ⟨_, rfl⟩
  | output => exact ⟨_, rfl⟩
  | input => exact ⟨_, rfl⟩
  | unknown => exact h.elim

theorem code_act (h : a.call? = some c) : Program.code (.act a :: p) = .call c :: p.code := by
  rw [Program.code, Instruction.code, h]
  rfl

/-- Code that starts with a call comes from a program that starts with its instruction. -/
theorem act_of_code (hp : p.Portable) (h : p.code = .call c :: cs) :
    ∃ a q, p = .act a :: q ∧ a.call? = some c ∧ Program.code q = cs := by
  cases p with
  | nil => cases h
  | cons i q =>
    cases i with
    | act a =>
      obtain ⟨d, hd⟩ := call?_of_portable (portable_act hp).1
      rw [code_act hd] at h
      cases h
      exact ⟨a, q, rfl, hd, rfl⟩
    | loop body => cases h

theorem loop_of_code (hp : p.Portable) (h : p.code = .loop code :: cs) :
    ∃ body q, p = .loop body :: q ∧ Program.code body = code ∧ Program.code q = cs := by
  cases p with
  | nil => cases h
  | cons i q =>
    cases i with
    | act a =>
      obtain ⟨d, hd⟩ := call?_of_portable (portable_act hp).1
      rw [code_act hd] at h
      cases h
    | loop body =>
      cases h
      exact ⟨body, q, rfl, rfl, rfl⟩

theorem nil_of_code (hp : p.Portable) (h : p.code = []) : p = [] := by
  cases p with
  | nil => rfl
  | cons i q =>
    cases i with
    | act a =>
      obtain ⟨d, hd⟩ := call?_of_portable (portable_act hp).1
      rw [code_act hd] at h
      cases h
    | loop body => cases h

end Program

namespace Emit

open Machine

variable {junk : Nat → Nat → UInt8} {m : Machine} {s : Native} {a : Action} {c : Call}
  {cs : List Code} {p : Program} {x : Machine.Outcome} {y : Outcome}

theorem perform_related (junk : Nat → Nat → UInt8) (h : Mirrors m s) (ha : a.Portable)
    (hc : a.call? = some c) :
    RanShort (perform none a m) ∨
      Related Mirrors Stops (perform none a m) (Native.perform junk c s) := by
  have hm : Mirrors { m with steps := m.steps + 1 } s := ⟨h.tape, h.streams⟩
  exact act_related junk hm ha hc

theorem check_related (h : Mirrors m s) :
    Related Mirrors Stops (check none m) (Native.test s) := by
  have hm : Mirrors { m with steps := m.steps + 1 } s := ⟨h.tape, h.streams⟩
  exact test_related hm

/-- What a program does its code does, unless the host runs short. -/
theorem runs_of_executes (junk : Nat → Nat → UInt8) (h : Executes none p m x) (hp : p.Portable)
    (hs : Mirrors m s) :
    RanShort x ∨ ∃ y, Runs junk p.code s y ∧ Related Mirrors Stops x y := by
  induction h generalizing s with
  | done => exact Or.inr ⟨_, .done, rfl, hs⟩
  | act now _ ih =>
    obtain ⟨ha, hp⟩ := Program.portable_act hp
    obtain ⟨c, hc⟩ := Program.call?_of_portable ha
    rcases perform_related junk hs ha hc with hshort | hrel
    · rw [now] at hshort
      exact hshort.elim
    obtain ⟨s₁, hnow, hs₁⟩ := related_ok_left hrel now
    rcases ih hp hs₁ with hshort | ⟨y, hy, hxy⟩
    · exact Or.inl hshort
    · rw [Program.code_act hc]
      exact Or.inr ⟨y, .call hnow hy, hxy⟩
  | actFails now =>
    obtain ⟨ha, hp⟩ := Program.portable_act hp
    obtain ⟨c, hc⟩ := Program.call?_of_portable ha
    rcases perform_related junk hs ha hc with hshort | hrel
    · rw [now] at hshort
      exact Or.inl hshort
    obtain ⟨h₁, s₁, hnow, hs₁⟩ := related_error_left hrel now
    rw [Program.code_act hc]
    exact Or.inr ⟨_, .callStops hnow, hs₁⟩
  | skip test _ ih =>
    obtain ⟨s₁, htest, hs₁⟩ := related_ok_left (check_related hs) test
    rcases ih (Program.portable_loop hp).2 hs₁ with hshort | ⟨y, hy, hxy⟩
    · exact Or.inl hshort
    · exact Or.inr ⟨y, .skip htest hy, hxy⟩
  | pass test _ _ ihOnce ihAgain =>
    obtain ⟨s₁, htest, hs₁⟩ := related_ok_left (check_related hs) test
    rcases ihOnce (Program.portable_loop hp).1 hs₁ with hshort | ⟨y, hy, hrel⟩
    · exact hshort.elim
    obtain ⟨s₂, rfl, hs₂⟩ := related_ok_left hrel rfl
    rcases ihAgain hp hs₂ with hshort | ⟨y, hy', hxy⟩
    · exact Or.inl hshort
    · exact Or.inr ⟨y, .pass htest hy hy', hxy⟩
  | passFails test _ ihOnce =>
    obtain ⟨s₁, htest, hs₁⟩ := related_ok_left (check_related hs) test
    rcases ihOnce (Program.portable_loop hp).1 hs₁ with hshort | ⟨y, hy, hrel⟩
    · exact Or.inl hshort
    obtain ⟨h₂, s₂, rfl, hs₂⟩ := related_error_left hrel rfl
    exact Or.inr ⟨_, .passStops htest hy, hs₂⟩
  | checkFails test =>
    obtain ⟨h₁, s₁, htest, hs₁⟩ := related_error_left (check_related hs) test
    exact Or.inr ⟨_, .testStops htest, hs₁⟩

/-- What the code does its program does, unless the host runs short. -/
theorem executes_of_runs (h : Runs junk cs s y) (hp : p.Portable) (hcs : p.code = cs)
    (hs : Mirrors m s) :
    ∃ x, Executes none p m x ∧ (RanShort x ∨ Related Mirrors Stops x y) := by
  induction h generalizing p m with
  | done =>
    obtain rfl := Program.nil_of_code hp hcs
    exact ⟨_, .done, Or.inr ⟨rfl, hs⟩⟩
  | call now _ ih =>
    obtain ⟨a, q, rfl, hc, hq⟩ := Program.act_of_code hp hcs
    obtain ⟨ha, hp⟩ := Program.portable_act hp
    rcases perform_related junk hs ha hc with hshort | hrel
    · obtain ⟨e, m₁, hm, he⟩ := eq_error_of_ranShort hshort
      exact ⟨_, .actFails hm, Or.inl he⟩
    obtain ⟨m₁, hm, hs₁⟩ := related_ok_right hrel now
    obtain ⟨x, hx, hxy⟩ := ih hp hq hs₁
    exact ⟨x, .act hm hx, hxy⟩
  | callStops now =>
    obtain ⟨a, q, rfl, hc, hq⟩ := Program.act_of_code hp hcs
    obtain ⟨ha, hp⟩ := Program.portable_act hp
    rcases perform_related junk hs ha hc with hshort | hrel
    · obtain ⟨e, m₁, hm, he⟩ := eq_error_of_ranShort hshort
      exact ⟨_, .actFails hm, Or.inl he⟩
    obtain ⟨e, m₁, hm, hs₁⟩ := related_error_right hrel now
    exact ⟨_, .actFails hm, Or.inr hs₁⟩
  | skip test _ ih =>
    obtain ⟨body, q, rfl, hbody, hq⟩ := Program.loop_of_code hp hcs
    obtain ⟨m₁, hcheck, hs₁⟩ := related_ok_right (check_related hs) test
    obtain ⟨x, hx, hxy⟩ := ih (Program.portable_loop hp).2 hq hs₁
    exact ⟨x, .skip hcheck hx, hxy⟩
  | pass test _ _ ihOnce ihAgain =>
    obtain ⟨body, q, rfl, hbody, hq⟩ := Program.loop_of_code hp hcs
    obtain ⟨m₁, hcheck, hs₁⟩ := related_ok_right (check_related hs) test
    obtain ⟨x, hx, hshort | hrel⟩ := ihOnce (Program.portable_loop hp).1 hbody hs₁
    · -- the machine ends inside a pass that the code completes
      obtain ⟨e, m₂, rfl, he⟩ := eq_error_of_ranShort hshort
      exact ⟨_, .passFails hcheck hx, Or.inl he⟩
    obtain ⟨m₂, rfl, hs₂⟩ := related_ok_right hrel rfl
    obtain ⟨x, hx', hxy⟩ := ihAgain hp hcs hs₂
    exact ⟨x, .pass hcheck hx hx', hxy⟩
  | passStops test _ ihOnce =>
    obtain ⟨body, q, rfl, hbody, hq⟩ := Program.loop_of_code hp hcs
    obtain ⟨m₁, hcheck, hs₁⟩ := related_ok_right (check_related hs) test
    obtain ⟨x, hx, hshort | hrel⟩ := ihOnce (Program.portable_loop hp).1 hbody hs₁
    · obtain ⟨e, m₂, rfl, he⟩ := eq_error_of_ranShort hshort
      exact ⟨_, .passFails hcheck hx, Or.inl he⟩
    obtain ⟨e, m₂, rfl, hs₂⟩ := related_error_right hrel rfl
    exact ⟨_, .passFails hcheck hx, Or.inr hs₂⟩
  | testStops test =>
    obtain ⟨body, q, rfl, hbody, hq⟩ := Program.loop_of_code hp hcs
    obtain ⟨e, m₁, hcheck, hs₁⟩ := related_error_right (check_related hs) test
    exact ⟨_, .checkFails hcheck, Or.inr hs₁⟩

end Emit

end Brainfuck
