import Brainfuck.Machine
import Brainfuck.Proofs.Execution.Settling

/-! The structured meaning of programs, and that walking with a stack of open passes computes it. -/
namespace Brainfuck.Machine

abbrev Outcome := EStateM.Result RunError Machine Unit

/-- One simple instruction, counted before it acts. -/
def perform (budget : Option Int) (a : Action) : EStateM RunError Machine Unit := do
  countStep budget
  act a

/-- One test of a loop's cell, which counts as a step. -/
def check (budget : Option Int) : EStateM RunError Machine Bool := do
  countStep budget
  test

/-- A body does its instructions in order and stops at the first error. A loop tests its cell and, while
the cell is not zero, does its whole body and tests again. -/
inductive Executes (budget : Option Int) : Program → Machine → Outcome → Prop
  | done {m} : Executes budget [] m (.ok () m)
  | act {a p m m₁ r} (now : perform budget a m = .ok () m₁) (later : Executes budget p m₁ r) :
    Executes budget (.act a :: p) m r
  | actFails {a p m m₁ e} (now : perform budget a m = .error e m₁) :
    Executes budget (.act a :: p) m (.error e m₁)
  | skip {body p m m₁ r} (test : check budget m = .ok false m₁)
    (later : Executes budget p m₁ r) : Executes budget (.loop body :: p) m r
  | pass {body p m m₁ m₂ r} (test : check budget m = .ok true m₁)
    (once : Executes budget body m₁ (.ok () m₂))
    (again : Executes budget (.loop body :: p) m₂ r) : Executes budget (.loop body :: p) m r
  | passFails {body p m m₁ m₂ e} (test : check budget m = .ok true m₁)
    (once : Executes budget body m₁ (.error e m₂)) :
    Executes budget (.loop body :: p) m (.error e m₂)
  | checkFails {body p m m₁ e} (test : check budget m = .error e m₁) :
    Executes budget (.loop body :: p) m (.error e m₁)

variable {budget : Option Int} {p q body : Program} {a : Action} {m m₁ m₂ : Machine}
  {e : RunError} {r : Outcome} {inner : Frame} {outer frames : List Frame}

theorem executes_nil : Executes budget [] m r ↔ r = .ok () m := by
  constructor
  · intro h
    cases h
    rfl
  · rintro rfl
    exact .done

theorem executes_act :
    Executes budget (.act a :: p) m r ↔
      match perform budget a m with
      | .ok _ m => Executes budget p m r
      | .error e m => r = .error e m := by
  constructor
  · intro h
    cases h with
    | act now later => simpa [now] using later
    | actFails now => simp [now]
  · cases h : perform budget a m with
    | ok _ m₁ => exact .act h
    | error e m₁ =>
      rintro rfl
      exact .actFails h

theorem executes_single : Executes budget [.act a] m r ↔ r = perform budget a m := by
  rw [executes_act]
  cases perform budget a m with
  | ok _ m₁ => exact executes_nil
  | error e m₁ => rfl

theorem executes_append_ok (h : Executes budget p m (.ok () m₁)) (hq : Executes budget q m₁ r) :
    Executes budget (p ++ q) m r := by
  generalize hx : EStateM.Result.ok () m₁ = x at h
  induction h with
  | done => cases hx; exact hq
  | act now _ ih => exact .act now (ih hx)
  | actFails => cases hx
  | skip test _ ih => exact .skip test (ih hx)
  | pass test once _ _ ih => exact .pass test once (ih hx)
  | passFails => cases hx
  | checkFails => cases hx

theorem executes_append_error (h : Executes budget p m (.error e m₁)) :
    Executes budget (p ++ q) m (.error e m₁) := by
  generalize hx : EStateM.Result.error e m₁ = x at h ⊢
  induction h with
  | done => cases hx
  | act now _ ih => exact .act now (ih hx)
  | actFails now => exact .actFails now
  | skip test _ ih => exact .skip test (ih hx)
  | pass test once _ _ ih => exact .pass test once (ih hx)
  | passFails test once => exact .passFails test once
  | checkFails test => exact .checkFails test

/-- Two programs in a row are done one after the other, unless the first fails. -/
theorem executes_append :
    Executes budget (p ++ q) m r ↔
      (∃ m₁, Executes budget p m (.ok () m₁) ∧ Executes budget q m₁ r) ∨
        ∃ e m₁, r = .error e m₁ ∧ Executes budget p m r := by
  constructor
  · intro h
    generalize hx : p ++ q = x at h
    induction h generalizing p with
    | done =>
      obtain ⟨rfl, rfl⟩ := List.append_eq_nil_iff.mp hx
      exact Or.inl ⟨_, .done, .done⟩
    | act now later ih =>
      obtain ⟨rfl, rfl⟩ | ⟨p, rfl, rfl⟩ := List.append_eq_cons_iff.mp hx
      · exact Or.inl ⟨_, .done, .act now later⟩
      · obtain ⟨m₁, hp, hq⟩ | ⟨e, m₁, rfl, hp⟩ := ih rfl
        · exact Or.inl ⟨m₁, .act now hp, hq⟩
        · exact Or.inr ⟨e, m₁, rfl, .act now hp⟩
    | actFails now =>
      obtain ⟨rfl, rfl⟩ | ⟨p, rfl, rfl⟩ := List.append_eq_cons_iff.mp hx
      · exact Or.inl ⟨_, .done, .actFails now⟩
      · exact Or.inr ⟨_, _, rfl, .actFails now⟩
    | skip test later ih =>
      obtain ⟨rfl, rfl⟩ | ⟨p, rfl, rfl⟩ := List.append_eq_cons_iff.mp hx
      · exact Or.inl ⟨_, .done, .skip test later⟩
      · obtain ⟨m₁, hp, hq⟩ | ⟨e, m₁, rfl, hp⟩ := ih rfl
        · exact Or.inl ⟨m₁, .skip test hp, hq⟩
        · exact Or.inr ⟨e, m₁, rfl, .skip test hp⟩
    | pass test once again _ ih =>
      obtain ⟨rfl, rfl⟩ | ⟨p, rfl, rfl⟩ := List.append_eq_cons_iff.mp hx
      · exact Or.inl ⟨_, .done, .pass test once again⟩
      · obtain ⟨m₁, hp, hq⟩ | ⟨e, m₁, rfl, hp⟩ := ih (p := .loop _ :: p) rfl
        · exact Or.inl ⟨m₁, .pass test once hp, hq⟩
        · exact Or.inr ⟨e, m₁, rfl, .pass test once hp⟩
    | passFails test once =>
      obtain ⟨rfl, rfl⟩ | ⟨p, rfl, rfl⟩ := List.append_eq_cons_iff.mp hx
      · exact Or.inl ⟨_, .done, .passFails test once⟩
      · exact Or.inr ⟨_, _, rfl, .passFails test once⟩
    | checkFails test =>
      obtain ⟨rfl, rfl⟩ | ⟨p, rfl, rfl⟩ := List.append_eq_cons_iff.mp hx
      · exact Or.inl ⟨_, .done, .checkFails test⟩
      · exact Or.inr ⟨_, _, rfl, .checkFails test⟩
  · rintro (⟨m₁, hp, hq⟩ | ⟨e, m₁, rfl, hp⟩)
    · exact executes_append_ok hp hq
    · exact executes_append_error hp

/-- A loop is its body followed by the loop itself, for as long as its cell is not zero. -/
theorem executes_loop :
    Executes budget (.loop body :: p) m r ↔
      match check budget m with
      | .ok true m => Executes budget (body ++ .loop body :: p) m r
      | .ok false m => Executes budget p m r
      | .error e m => r = .error e m := by
  constructor
  · intro h
    cases h with
    | skip test later => simpa [test] using later
    | pass test once again => simpa [test] using executes_append_ok once again
    | passFails test once => simpa [test] using executes_append_error once
    | checkFails test => simp [test]
  · cases h : check budget m with
    | ok b m₁ =>
      cases b with
      | false => exact .skip h
      | true =>
        intro hx
        obtain ⟨m₂, once, again⟩ | ⟨e, m₂, rfl, once⟩ := executes_append.mp hx
        · exact .pass h once again
        · exact .passFails h once
    | error e m₁ =>
      rintro rfl
      exact .checkFails h

/-- What a stack of open passes still has to do, as one program: a pass over a loop's body is followed by
the loop itself, which tests again. -/
def remaining : List Frame → Program
  | [] => []
  | ⟨rest, none⟩ :: outer => rest ++ remaining outer
  | ⟨rest, some body⟩ :: outer => rest ++ .loop body :: remaining outer

theorem round_act {rest : Program} {loop : Option Program} :
    (runner budget).round ⟨.act a :: rest, loop⟩ outer m =
      match perform budget a m with
      | .ok _ m => .ok (⟨rest, loop⟩ :: outer) m
      | .error e m => .error e m := by
  change (EStateM.bind (perform budget a) fun _ => pure (⟨rest, loop⟩ :: outer)) m = _
  unfold EStateM.bind
  cases perform budget a m <;> rfl

theorem round_loop {rest : Program} {loop : Option Program} :
    (runner budget).round ⟨.loop body :: rest, loop⟩ outer m =
      match check budget m with
      | .ok true m => .ok (⟨body, some body⟩ :: ⟨rest, loop⟩ :: outer) m
      | .ok false m => .ok (⟨rest, loop⟩ :: outer) m
      | .error e m => .error e m := by
  change (EStateM.bind (check budget) fun b =>
    if b then pure (⟨body, some body⟩ :: ⟨rest, loop⟩ :: outer)
    else pure (⟨rest, loop⟩ :: outer)) m = _
  unfold EStateM.bind
  rcases check budget m with ⟨_ | _, m₁⟩ | ⟨e, m₁⟩ <;> rfl

/-- The end of a pass is a test of the loop's cell, like its start. -/
theorem round_again :
    (runner budget).round ⟨[], some body⟩ outer m =
      match check budget m with
      | .ok true m => .ok (⟨body, some body⟩ :: outer) m
      | .ok false m => .ok outer m
      | .error e m => .error e m := by
  change (EStateM.bind (check budget) fun b =>
    if b then pure (⟨body, some body⟩ :: outer) else pure outer) m = _
  unfold EStateM.bind
  rcases check budget m with ⟨_ | _, m₁⟩ | ⟨e, m₁⟩ <;> rfl

theorem remaining_cons {rest : Program} {loop : Option Program} :
    remaining (⟨rest, loop⟩ :: outer) = rest ++ remaining (⟨[], loop⟩ :: outer) := by
  cases loop <;> simp [remaining]

/-- One round does what the stack has to do next. -/
theorem executes_remaining :
    Executes budget (remaining (inner :: outer)) m r ↔
      match (runner budget).round inner outer m with
      | .ok frames m => Executes budget (remaining frames) m r
      | .error e m => r = .error e m := by
  obtain ⟨rest, loop⟩ := inner
  cases rest with
  | nil =>
    cases loop with
    | none => rfl
    | some body =>
      rw [round_again]
      simp only [remaining, List.nil_append, executes_loop]
      rcases check budget m with ⟨_ | _, m₁⟩ | ⟨e, m₁⟩ <;> rfl
  | cons i rest =>
    rw [remaining_cons, List.cons_append, ← remaining_cons]
    cases i with
    | act a =>
      rw [round_act, executes_act]
      cases perform budget a m <;> rfl
    | loop body =>
      rw [round_loop, executes_loop]
      rcases check budget m with ⟨_ | _, m₁⟩ | ⟨e, m₁⟩ <;> rfl

/-- A walk that ends has done what was left on its stack. -/
theorem executes_of_settles (h : (runner budget).Settles frames m r) :
    Executes budget (remaining frames) m r := by
  obtain ⟨n, hn⟩ := h
  induction n generalizing frames m with
  | zero =>
    cases r with
    | ok _ m' =>
      cases hn
      exact .done
    | error e m' => cases hn
  | succ n ih =>
    cases frames with
    | nil => exact executes_nil.mpr (Visitor.settles_nil.mp ⟨n + 1, hn⟩)
    | cons inner outer =>
      rw [executes_remaining]
      rw [Visitor.rounds] at hn
      cases h : (runner budget).round inner outer m with
      | ok frames m₁ => exact ih (by simpa only [h] using hn)
      | error e m₁ => cases r <;> simp_all [Visitor.Yields]

/-- The walk of these frames takes up where an outcome leaves off; an error is final. -/
def Resumes (budget : Option Int) (frames : List Frame) (r : Outcome) : Outcome → Prop
  | .ok _ m => (runner budget).Settles frames m r
  | .error e m => r = .error e m

/-- The walk does the rest of a pass and then goes on with what follows it. -/
theorem settles_of_executes {l : Option Program} {x : Outcome} (h : Executes budget p m x)
    (hx : Resumes budget (⟨[], l⟩ :: outer) r x) :
    (runner budget).Settles (⟨p, l⟩ :: outer) m r := by
  induction h generalizing l outer r with
  | done => exact hx
  | act now _ ih =>
    rw [Visitor.settles_cons, round_act, now]
    exact ih hx
  | actFails now =>
    rw [Visitor.settles_cons, round_act, now]
    exact hx
  | skip test _ ih =>
    rw [Visitor.settles_cons, round_loop, test]
    exact ih hx
  | @pass body p m m₁ m₂ x test once again ihOnce ihAgain =>
    rw [Visitor.settles_cons, round_loop, test]
    apply ihOnce
    -- ending a pass and meeting the loop anew leave the same stack
    have hsame := ihAgain hx
    rw [Visitor.settles_cons, round_loop] at hsame
    rw [Resumes, Visitor.settles_cons, round_again]
    rcases hc : check budget m₂ with ⟨_ | _, m₃⟩ | ⟨e, m₃⟩ <;> simpa only [hc] using hsame
  | passFails test _ ih =>
    rw [Visitor.settles_cons, round_loop, test]
    exact ih hx
  | checkFails test =>
    rw [Visitor.settles_cons, round_loop, test]
    exact hx

/-- Walking a program ends exactly as its structured meaning says. -/
theorem settles_iff_executes :
    (runner budget).Settles [⟨p, none⟩] m r ↔ Executes budget p m r := by
  constructor
  · intro h
    simpa [remaining] using executes_of_settles h
  · intro h
    apply settles_of_executes h
    cases r with
    | ok _ m₁ => exact Visitor.settles_cons.mpr (Visitor.settles_nil.mpr rfl)
    | error e m₁ => rfl

theorem executes_unique {r' : Outcome} (h : Executes budget p m r) (h' : Executes budget p m r') :
    r = r' :=
  Visitor.settles_unique (settles_iff_executes.mpr h) (settles_iff_executes.mpr h')

end Brainfuck.Machine
