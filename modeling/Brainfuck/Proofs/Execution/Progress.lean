import Brainfuck.Proofs.Execution.Structured

/-! How far a run has come: each round but the last counts one step, and streams are only extended. -/
namespace Brainfuck

section Keeps

variable {ε σ α β : Type} {R : σ → σ → Prop} {s s' : σ} {n : Nat} {frames : List Frame}

/-- The state that a result leaves, also where it is an error. -/
def leaves : EStateM.Result ε σ α → σ
  | .ok _ s => s
  | .error _ s => s

/-- The error of a result that is one. -/
def failure : EStateM.Result ε σ α → Option ε
  | .ok _ _ => none
  | .error e _ => some e

/-- Whatever a computation does, it leaves a state that is related to the one before. -/
def Keeps (R : σ → σ → Prop) (x : EStateM ε σ α) : Prop := ∀ s, R s (leaves (x s))

theorem keeps_bind {x : EStateM ε σ α} {f : α → EStateM ε σ β}
    (htrans : ∀ a b c, R a b → R b c → R a c) (hx : Keeps R x) (hf : ∀ a, Keeps R (f a)) :
    Keeps R (x >>= f) := by
  intro s
  change R s (leaves (EStateM.bind x f s))
  have hfirst := hx s
  unfold EStateM.bind
  cases hs : x s with
  | ok a s₁ =>
    rw [hs] at hfirst
    exact htrans _ _ _ hfirst (hf a s₁)
  | error e s₁ =>
    rw [hs] at hfirst
    exact hfirst

/-- What every round keeps, a walk keeps. -/
theorem keeps_rounds {v : Visitor ε σ} (hrefl : ∀ a, R a a)
    (htrans : ∀ a b c, R a b → R b c → R a c)
    (hround : ∀ inner outer, Keeps R (v.round inner outer)) (n : Nat) (frames : List Frame) :
    Keeps R (v.rounds n frames) := by
  induction n generalizing frames with
  | zero =>
    intro s
    exact hrefl s
  | succ n ih =>
    intro s
    cases frames with
    | nil => exact hrefl s
    | cons inner outer =>
      have hfirst := hround inner outer s
      rw [Visitor.rounds]
      cases hs : v.round inner outer s with
      | ok frames s₁ =>
        rw [hs] at hfirst
        exact htrans _ _ _ hfirst (ih frames s₁)
      | error e s₁ =>
        rw [hs] at hfirst
        exact hfirst

/-- The state after some rounds is related to the state after more of them. -/
theorem keeps_rounds_later {v : Visitor ε σ} (hrefl : ∀ a, R a a)
    (hv : ∀ n frames, Keeps R (v.rounds n frames)) (m n : Nat) (hmn : m ≤ n) :
    R (leaves (v.rounds m frames s)) (leaves (v.rounds n frames s)) := by
  obtain ⟨k, rfl⟩ := Nat.exists_eq_add_of_le hmn
  rw [Visitor.rounds_add]
  cases v.rounds m frames s with
  | ok frames s₁ => exact hv k frames s₁
  | error e s₁ => exact hrefl s₁

end Keeps

/-- What was written and called before is the start of what is now. -/
structure Streams.Precedes (s s' : Streams) : Prop where
  written : s.written.toList <+: s'.written.toList
  calls : s.calls.toList <+: s'.calls.toList

namespace Streams

variable {s s' s'' : Streams}

theorem precedes_refl (s : Streams) : s.Precedes s :=
  ⟨List.prefix_rfl, List.prefix_rfl⟩

theorem precedes_trans (h : s.Precedes s') (h' : s'.Precedes s'') : s.Precedes s'' :=
  ⟨h.written.trans h'.written, h.calls.trans h'.calls⟩

theorem write_precedes (b : UInt8) : Keeps Precedes (write b) := by
  intro s
  unfold write
  dsimp only
  split
  · exact ⟨List.prefix_rfl, by simp [leaves]⟩
  · exact ⟨by simp [leaves], by simp [leaves]⟩

theorem flush_precedes : Keeps Precedes flush := by
  intro s
  unfold flush
  dsimp only
  split
  · split
    · exact ⟨List.prefix_rfl, by simp [leaves]⟩
    · exact ⟨List.prefix_rfl, by simp [leaves]⟩
  · exact precedes_refl s

theorem read_precedes : Keeps Precedes read := by
  intro s
  unfold read
  dsimp only
  split
  · exact ⟨List.prefix_rfl, by simp [leaves]⟩
  · exact ⟨List.prefix_rfl, by simp [leaves]⟩
  · exact ⟨List.prefix_rfl, by simp [leaves]⟩

end Streams

namespace Machine

variable {α : Type} {b : Option Int} {m m' m'' : Machine} {inner : Frame} {outer frames : List Frame}

/-- A machine after it has done something that counts no step. -/
structure Acts (m m' : Machine) : Prop where
  steps : m'.steps = m.steps
  streams : m.streams.Precedes m'.streams

theorem acts_refl (m : Machine) : Acts m m := ⟨rfl, Streams.precedes_refl _⟩

theorem acts_trans (m m' m'' : Machine) (h : Acts m m') (h' : Acts m' m'') : Acts m m'' :=
  ⟨h'.steps.trans h.steps, Streams.precedes_trans h.streams h'.streams⟩

theorem acts_pure (a : α) : Keeps Acts (pure a : EStateM RunError Machine α) := acts_refl

theorem acts_throw (e : RunError) : Keeps Acts (throw e : EStateM RunError Machine α) := acts_refl

theorem onTape_acts (x : EStateM TapeError Tape α) : Keeps Acts (onTape x) := by
  intro m
  rw [onTape_apply]
  cases x m.tape <;> exact ⟨rfl, Streams.precedes_refl _⟩

theorem onStreams_acts {wrap : Fault → RunError} {x : EStateM Fault Streams α}
    (hx : Keeps Streams.Precedes x) : Keeps Acts (onStreams wrap x) := by
  intro m
  have hm := hx m.streams
  rw [onStreams_apply]
  cases hs : x m.streams <;> rw [hs] at hm <;> exact ⟨rfl, hm⟩

theorem act_acts (a : Action) : Keeps Acts (act a) := by
  cases a with
  | apply op n => exact onTape_acts _
  | output =>
    apply keeps_bind acts_trans (onTape_acts _)
    intro b
    exact onStreams_acts (Streams.write_precedes b)
  | input =>
    apply keeps_bind acts_trans (onStreams_acts Streams.flush_precedes)
    intro _
    apply keeps_bind acts_trans (onStreams_acts Streams.read_precedes)
    intro b
    cases b with
    | none => exact acts_throw _
    | some b => exact onTape_acts _
  | unknown => exact acts_throw _

theorem test_acts : Keeps Acts test :=
  keeps_bind acts_trans (onTape_acts _) fun _ => acts_pure _

/-- The streams of a machine are those of an earlier one, extended. -/
def Extends (m m' : Machine) : Prop := m.streams.Precedes m'.streams

theorem extends_refl (m : Machine) : Extends m m := Streams.precedes_refl _

theorem extends_trans (m m' m'' : Machine) (h : Extends m m') (h' : Extends m' m'') :
    Extends m m'' :=
  Streams.precedes_trans h h'

theorem extends_of_streams_eq (h : m.streams = m'.streams) : Extends m m' := by
  rw [Extends, h]
  exact Streams.precedes_refl _

/-- Machines that have counted as many steps both count the next one, or it is one too many for both. -/
theorem countStep_both (b : Option Int) (h : m.steps = m'.steps) :
    countStep b m = .ok () { m with steps := m.steps + 1 } ∧
        countStep b m' = .ok () { m' with steps := m.steps + 1 } ∨
      countStep b m = .error .stepLimit { m with steps := m.steps + 1 } ∧
        countStep b m' = .error .stepLimit { m' with steps := m.steps + 1 } := by
  obtain ⟨tape, streams, steps⟩ := m
  obtain ⟨tape', streams', steps'⟩ := m'
  obtain rfl : steps = steps' := h
  cases b with
  | none => exact Or.inl ⟨rfl, rfl⟩
  | some k =>
    simp only [countStep]
    split
    · exact Or.inr ⟨rfl, rfl⟩
    · exact Or.inl ⟨rfl, rfl⟩

/-- A step that is counted changes nothing but the count, also where it is one too many. -/
theorem countStep_cases (b : Option Int) (m : Machine) :
    countStep b m = .ok () { m with steps := m.steps + 1 } ∨
      countStep b m = .error .stepLimit { m with steps := m.steps + 1 } := by
  rcases countStep_both b (show m.steps = m.steps from rfl) with ⟨hgoes, -⟩ | ⟨hstops, -⟩
  · exact Or.inl hgoes
  · exact Or.inr hstops

/-- The same streams as before. -/
def SameStreams (m m' : Machine) : Prop := m.streams = m'.streams

theorem sameStreams_trans (m m' m'' : Machine) (h : SameStreams m m') (h' : SameStreams m' m'') :
    SameStreams m m'' :=
  Eq.trans h h'

theorem countStep_streams (b : Option Int) : Keeps SameStreams (countStep b) := by
  intro m
  rcases countStep_cases b m with hgoes | hstops
  · rw [hgoes]
    rfl
  · rw [hstops]
    rfl

theorem onTape_streams (x : EStateM TapeError Tape α) : Keeps SameStreams (onTape x) := by
  intro m
  rw [onTape_apply]
  cases x m.tape <;> rfl

/-- A tape operation leaves the streams alone, whether or not it is still within the budget. -/
theorem perform_apply_streams (b : Option Int) (op : TapeOp) (n : Count) :
    Keeps SameStreams (perform b (.apply op n)) :=
  keeps_bind sameStreams_trans (countStep_streams b) fun _ => onTape_streams _

theorem countStep_extends (b : Option Int) : Keeps Extends (countStep b) :=
  fun m => extends_of_streams_eq (countStep_streams b m)

theorem perform_extends (b : Option Int) (a : Action) : Keeps Extends (perform b a) :=
  keeps_bind extends_trans (countStep_extends b) fun _ m => (act_acts a m).streams

theorem check_extends (b : Option Int) : Keeps Extends (check b) :=
  keeps_bind extends_trans (countStep_extends b) fun _ m => (test_acts m).streams

/-- A round ends a pass that belongs to no loop, or comes to what one instruction or one test comes to. -/
theorem round_cases (b : Option Int) (inner : Frame) (outer : List Frame) (m : Machine) :
    (runner b).round inner outer m = .ok outer m ∨
      (∃ a, leaves ((runner b).round inner outer m) = leaves (perform b a m) ∧
        failure ((runner b).round inner outer m) = failure (perform b a m)) ∨
      leaves ((runner b).round inner outer m) = leaves (check b m) ∧
        failure ((runner b).round inner outer m) = failure (check b m) := by
  obtain ⟨_ | ⟨a | body, rest⟩, loop⟩ := inner
  · cases loop with
    | none => exact Or.inl rfl
    | some body =>
      refine Or.inr (Or.inr ?_)
      rw [round_again]
      rcases check b m with ⟨_ | _, m₁⟩ | ⟨e, m₁⟩ <;> exact ⟨rfl, rfl⟩
  · refine Or.inr (Or.inl ⟨a, ?_⟩)
    rw [round_act]
    cases perform b a m <;> exact ⟨rfl, rfl⟩
  · refine Or.inr (Or.inr ?_)
    rw [round_loop]
    rcases check b m with ⟨_ | _, m₁⟩ | ⟨e, m₁⟩ <;> exact ⟨rfl, rfl⟩

/-- What instructions and tests keep, a round keeps. -/
theorem keeps_round {R : Machine → Machine → Prop} (hrefl : ∀ m, R m m)
    (hperform : ∀ a, Keeps R (perform b a)) (hcheck : Keeps R (check b)) (inner : Frame)
    (outer : List Frame) : Keeps R ((runner b).round inner outer) := by
  intro m
  rcases round_cases b inner outer m with hclose | ⟨a, hleaves, -⟩ | ⟨hleaves, -⟩
  · rw [hclose]
    exact hrefl m
  · rw [hleaves]
    exact hperform a m
  · rw [hleaves]
    exact hcheck m

/-- Whatever number of rounds a walk goes, it has only extended its streams. -/
theorem rounds_extends (n : Nat) (frames : List Frame) : Keeps Extends ((runner b).rounds n frames) :=
  keeps_rounds extends_refl extends_trans
    (keeps_round extends_refl (perform_extends b) (check_extends b)) n frames

/-- Whatever a program comes to, it has only extended its streams. -/
theorem executes_extends {p : Program} {x : Outcome} (h : Executes b p m x) :
    Extends m (leaves x) := by
  induction h with
  | done => exact extends_refl _
  | @act a p m m₁ x now _ ih =>
    have hfirst := perform_extends b a m
    rw [now] at hfirst
    exact extends_trans _ _ _ hfirst ih
  | @actFails a p m m₁ e now =>
    have hfirst := perform_extends b a m
    rw [now] at hfirst
    exact hfirst
  | @skip body p m m₁ x test _ ih =>
    have hfirst := check_extends b m
    rw [test] at hfirst
    exact extends_trans _ _ _ hfirst ih
  | @pass body p m m₁ m₂ x test _ _ ihOnce ihAgain =>
    have hfirst := check_extends b m
    rw [test] at hfirst
    exact extends_trans _ _ _ hfirst (extends_trans _ _ _ ihOnce ihAgain)
  | @passFails body p m m₁ m₂ e test _ ih =>
    have hfirst := check_extends b m
    rw [test] at hfirst
    exact extends_trans _ _ _ hfirst ih
  | @checkFails body p m m₁ e test =>
    have hfirst := check_extends b m
    rw [test] at hfirst
    exact hfirst

/-- The visitor that runs a program and counts no steps. -/
def uncounted : Visitor RunError Machine := ⟨act, fun _ => test, fun _ => test⟩

theorem uncounted_acts (inner : Frame) (outer : List Frame) :
    Keeps Acts (uncounted.round inner outer) := by
  obtain ⟨_ | ⟨_ | body, rest⟩, _ | whole⟩ := inner
  · exact acts_pure _
  · apply keeps_bind acts_trans test_acts
    intro b
    cases b <;> exact acts_pure _
  · exact keeps_bind acts_trans (act_acts _) fun _ => acts_pure _
  · exact keeps_bind acts_trans (act_acts _) fun _ => acts_pure _
  · apply keeps_bind acts_trans test_acts
    intro b
    cases b <;> exact acts_pure _
  · apply keeps_bind acts_trans test_acts
    intro b
    cases b <;> exact acts_pure _

/-- A round that does not end the program counts a step, and then goes on in the same way whatever the
budget. -/
theorem round_counted (b : Option Int) (h : inner ≠ ⟨[], none⟩) :
    (runner b).round inner outer = (do countStep b; uncounted.round inner outer) := by
  obtain ⟨_ | ⟨_ | body, rest⟩, _ | whole⟩ := inner
  · exact (h rfl).elim
  all_goals simp only [Visitor.round, runner, uncounted, bind_assoc]

/-- A machine that is the same as before, or that has counted steps since. -/
def NoLater (m m' : Machine) : Prop :=
  m = m' ∨ m.steps < m'.steps ∧ m.streams.Precedes m'.streams

theorem noLater_refl (m : Machine) : NoLater m m := Or.inl rfl

theorem noLater_trans (m m' m'' : Machine) (h : NoLater m m') (h' : NoLater m' m'') :
    NoLater m m'' := by
  rcases h with rfl | ⟨hlt, hs⟩
  · exact h'
  · rcases h' with rfl | ⟨hlt', hs'⟩
    · exact Or.inr ⟨hlt, hs⟩
    · exact Or.inr ⟨by omega, Streams.precedes_trans hs hs'⟩

theorem precedes_of_noLater (h : NoLater m m') : m.streams.Precedes m'.streams := by
  rcases h with rfl | ⟨-, hs⟩
  · exact Streams.precedes_refl _
  · exact hs

theorem steps_of_noLater (h : NoLater m m') : m.steps ≤ m'.steps := by
  rcases h with rfl | ⟨hlt, -⟩
  · exact Nat.le_refl _
  · exact Nat.le_of_lt hlt

/-- A state is known by its count of steps. -/
theorem eq_of_noLater (h : NoLater m m') (hs : m.steps = m'.steps) : m = m' := by
  rcases h with rfl | ⟨hlt, -⟩
  · rfl
  · omega

/-- Without a budget, a round that is not at the end of the program counts exactly one step. -/
theorem round_steps (outer : List Frame) (h : inner ≠ ⟨[], none⟩) (m : Machine) :
    (leaves ((runner none).round inner outer m)).steps = m.steps + 1 ∧
      m.streams.Precedes (leaves ((runner none).round inner outer m)).streams := by
  have hacts := uncounted_acts inner outer { m with steps := m.steps + 1 }
  rw [round_counted none h]
  exact ⟨hacts.steps, hacts.streams⟩

theorem round_noLater (inner : Frame) (outer : List Frame) :
    Keeps NoLater ((runner none).round inner outer) := by
  intro m
  by_cases h : inner = ⟨[], none⟩
  · subst h
    exact noLater_refl m
  · obtain ⟨hsteps, hstreams⟩ := round_steps outer h m
    exact Or.inr ⟨by omega, hstreams⟩

theorem rounds_noLater (n : Nat) (frames : List Frame) :
    Keeps NoLater ((runner none).rounds n frames) :=
  keeps_rounds noLater_refl noLater_trans round_noLater n frames

/-- The open passes that belong to no loop. -/
def grounds (frames : List Frame) : Nat := frames.countP fun f => f.loop.isNone

/-- A round that counts a step leaves as many passes that belong to no loop. -/
theorem grounds_round (h : inner ≠ ⟨[], none⟩)
    (hr : (runner b).round inner outer m = .ok frames m') :
    grounds frames = grounds (inner :: outer) := by
  cases Visitor.turns_of_round hr with
  | close => exact (h rfl).elim
  | act _ => simp [grounds, List.countP_cons]
  | skip _ => simp [grounds, List.countP_cons]
  | enter _ => simp [grounds, List.countP_cons]
  | leave _ => simp [grounds]
  | again _ => simp [grounds]

/-- Rounds either count a step or end a pass that belongs to no loop. -/
theorem steps_add_grounds {n : Nat} (hne : frames ≠ [])
    (h : (runner none).rounds n (inner :: outer) m = .ok frames m') :
    m'.steps + grounds (inner :: outer) = m.steps + n + grounds frames := by
  induction n generalizing inner outer m with
  | zero =>
    cases h
    rfl
  | succ n ih =>
    by_cases hend : inner = ⟨[], none⟩
    · subst hend
      have hrest : (runner none).rounds n outer m = .ok frames m' := h
      cases outer with
      | nil =>
        rw [Visitor.rounds_nil] at hrest
        cases hrest
        exact (hne rfl).elim
      | cons inner outer =>
        have hgrounds : grounds (⟨[], none⟩ :: inner :: outer) = grounds (inner :: outer) + 1 := by
          simp [grounds]
        have := ih hrest
        omega
    · rw [Visitor.rounds] at h
      obtain ⟨hsteps, -⟩ := round_steps outer hend m
      cases hr : (runner none).round inner outer m with
      | error e m₁ =>
        rw [hr] at h
        cases h
      | ok frames₁ m₁ =>
        have hgrounds := grounds_round hend hr
        rw [hr] at h hsteps
        have hstep : m₁.steps = m.steps + 1 := hsteps
        cases frames₁ with
        | nil =>
          have hrest : (runner none).rounds n [] m₁ = .ok frames m' := h
          rw [Visitor.rounds_nil] at hrest
          cases hrest
          exact (hne rfl).elim
        | cons inner outer =>
          have := ih h
          omega

/-- Under all passes of loops there is one that belongs to none. -/
def Grounded (frames : List Frame) : Prop := ∀ f ∈ frames.getLast?, f.loop = none

theorem grounded_cons (f : Frame) (h : outer ≠ []) : Grounded (f :: outer) ↔ Grounded outer := by
  obtain ⟨inner, outer, rfl⟩ := List.exists_cons_of_ne_nil h
  rw [Grounded, Grounded, List.getLast?_cons_cons]

theorem grounded_round (h : Grounded (inner :: outer))
    (hr : (runner b).round inner outer m = .ok frames m') : Grounded frames := by
  -- a pass keeps the loop that it belongs to, and the pass of a loop has another one under it
  have houter : Grounded outer := by
    by_cases hnil : outer = []
    · subst hnil
      rintro f ⟨⟩
    · exact (grounded_cons inner hnil).mp h
  have hkeep (f : Frame) (hf : f.loop = inner.loop) : Grounded (f :: outer) := by
    by_cases hnil : outer = []
    · subst hnil
      rintro _ ⟨⟩
      exact hf.trans (h inner rfl)
    · exact (grounded_cons f hnil).mpr houter
  cases Visitor.turns_of_round hr with
  | close => exact houter
  | act _ => exact hkeep _ rfl
  | skip _ => exact hkeep _ rfl
  | enter _ => exact (grounded_cons _ (List.cons_ne_nil _ _)).mpr (hkeep _ rfl)
  | leave _ => exact houter
  | again _ => exact hkeep _ rfl

theorem grounded_rounds {n : Nat} {frames' : List Frame} (h : Grounded frames)
    (hr : (runner b).rounds n frames m = .ok frames' m') : Grounded frames' := by
  have hround (inner : Frame) (outer : List Frame) (m : Machine) (h : Grounded (inner :: outer)) :
      Visitor.Satisfies (fun frames _ => Grounded frames) (fun _ _ => True)
        ((runner b).round inner outer m) := by
    cases hone : (runner b).round inner outer m with
    | ok frames₁ m₁ => exact grounded_round h hone
    | error e m₁ => trivial
  have hall := Visitor.satisfies_rounds (P := fun frames _ => Grounded frames) (s := m) hround n h
  rw [hr] at hall
  exact hall

theorem grounds_pos (h : Grounded frames) (hne : frames ≠ []) : 0 < grounds frames := by
  have hlast : (frames.getLast hne).loop = none := h _ (List.getLast?_eq_some_getLast hne)
  exact List.countP_pos_iff.mpr ⟨_, List.getLast_mem hne, by rw [hlast]; rfl⟩

/-- Each round but the last counts a step, so a walk has no more rounds to go than it may count steps. -/
theorem nil_of_rounds {p : Program} {k : Nat}
    (hr : (runner none).rounds (k + 1) [⟨p, none⟩] m = .ok frames m') (hk : m'.steps ≤ k) :
    frames = [] := by
  by_cases hne : frames = []
  · exact hne
  · have hground : Grounded [⟨p, none⟩] := by
      rintro _ ⟨⟩
      rfl
    have hpos := grounds_pos (grounded_rounds hground hr) hne
    have hsteps := steps_add_grounds hne hr
    have hone : grounds [⟨p, none⟩] = 1 := rfl
    omega

end Machine

end Brainfuck
