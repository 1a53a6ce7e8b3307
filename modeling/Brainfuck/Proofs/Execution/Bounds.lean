import Brainfuck.Proofs.Execution.Progress
import Brainfuck.Proofs.Tape.Bounds
import Mathlib.Data.Int.LeastGreatest
import Mathlib.Order.Bounds.Basic

/-! Where a run leaves the cursor, and how long its tape gets. -/
namespace Brainfuck

namespace Tape

theorem read_room : Keeps (fun t u : Tape => u.room = t.room) read := by
  intro t
  unfold read
  split <;> rfl

theorem update_room (f : UInt8 → UInt8) : Keeps (fun t u : Tape => u.room = t.room) (update f) := by
  intro t
  unfold update
  split <;> rfl

theorem moveRight_room (n : Int) : Keeps (fun t u : Tape => u.room = t.room) (moveRight n) := by
  intro t
  unfold moveRight
  dsimp only
  repeat' split
  all_goals rfl

theorem moveLeft_room (n : Int) : Keeps (fun t u : Tape => u.room = t.room) (moveLeft n) := by
  intro t
  unfold moveLeft
  split <;> rfl

/-- No operation changes how much room there is. -/
theorem apply_room (op : TapeOp) (n : Int) :
    Keeps (fun t u : Tape => u.room = t.room) (apply op n) := by
  cases op with
  | moveRight => exact moveRight_room n
  | moveLeft => exact moveLeft_room n
  | increment =>
    simp only [apply, increment]
    exact update_room _
  | decrement =>
    simp only [apply, decrement]
    exact update_room _

end Tape

namespace Machine

variable {α β : Type} {m m' : Machine} {b : Option Int} {e : RunError} {inner : Frame}
  {outer frames : List Frame} {n : Nat}

/-- The tape is as before, and no failure is for want of room. -/
def Quiet (m : Machine) : EStateM.Result RunError Machine α → Prop
  | .ok _ m' => m'.tape = m.tape
  | .error e m' => ¬ e.IsShortage ∧ m'.tape = m.tape

/-- What a machine with its cursor on a cell may come to: only where there is no room for a cell does the
cursor go where there is none. -/
def Bounded (m : Machine) : EStateM.Result RunError Machine α → Prop
  | .ok _ m' => m.tape.Advances m'.tape
  | .error e m' => e.IsShortage ∧ m.tape.Overruns m'.tape ∨ ¬ e.IsShortage ∧ m'.tape = m.tape

theorem bounded_of_quiet {r : EStateM.Result RunError Machine α} (h : m.tape.InBounds)
    (hr : Quiet m r) : Bounded m r := by
  cases r with
  | ok a m' =>
    have heq : m'.tape = m.tape := hr
    rw [Bounded, heq]
    exact Tape.advances_refl h
  | error e m' => exact Or.inr hr

theorem quiet_bind {x : EStateM RunError Machine α} {f : α → EStateM RunError Machine β}
    (hx : ∀ m, Quiet m (x m)) (hf : ∀ a m, Quiet m (f a m)) (m : Machine) :
    Quiet m ((x >>= f) m) := by
  have hfirst := hx m
  change Quiet m (EStateM.bind x f m)
  unfold EStateM.bind
  cases hm : x m with
  | error e m₁ =>
    rw [hm] at hfirst
    exact hfirst
  | ok a m₁ =>
    rw [hm] at hfirst
    have htape : m₁.tape = m.tape := hfirst
    have hrest := hf a m₁
    dsimp only
    cases hm' : f a m₁ with
    | ok c m₂ =>
      rw [hm'] at hrest
      exact Eq.trans hrest htape
    | error e m₂ =>
      rw [hm'] at hrest
      exact ⟨hrest.1, hrest.2.trans htape⟩

/-- What does not touch the tape does not matter to what follows. -/
theorem bounded_bind {x : EStateM RunError Machine α} {f : α → EStateM RunError Machine β}
    (hx : ∀ m, Quiet m (x m)) (hf : ∀ a m, m.tape.InBounds → Bounded m (f a m))
    (h : m.tape.InBounds) : Bounded m ((x >>= f) m) := by
  have hfirst := hx m
  change Bounded m (EStateM.bind x f m)
  unfold EStateM.bind
  cases hm : x m with
  | error e m₁ =>
    rw [hm] at hfirst
    exact Or.inr hfirst
  | ok a m₁ =>
    rw [hm] at hfirst
    have htape : m₁.tape = m.tape := hfirst
    have hrest := hf a m₁ (htape ▸ h)
    dsimp only
    cases hm' : f a m₁ with
    | ok c m₂ =>
      rw [hm', Bounded, htape] at hrest
      exact hrest
    | error e m₂ =>
      rw [hm', Bounded, htape] at hrest
      exact hrest

theorem countStep_quiet (b : Option Int) (m : Machine) : Quiet m (countStep b m) := by
  rcases countStep_cases b m with hgoes | hstops
  · rw [hgoes]
    rfl
  · rw [hstops]
    exact ⟨id, rfl⟩

theorem read_quiet (m : Machine) : Quiet m (onTape Tape.read m) := by
  rw [onTape_apply]
  cases hp : m.tape.place with
  | ok j =>
    rw [Tape.read_of_place hp]
    rfl
  | error e =>
    rw [Tape.read_of_no_place hp]
    exact ⟨Tape.not_isShortage_of_place hp, rfl⟩

theorem onStreams_quiet {wrap : Fault → RunError} (hw : ∀ f, ¬ (wrap f).IsShortage)
    (x : EStateM Fault Streams α) (m : Machine) : Quiet m (onStreams wrap x m) := by
  rw [onStreams_apply]
  cases x m.streams with
  | ok a s => rfl
  | error f s =>
    refine ⟨?_, rfl⟩
    unfold RunError.ofFault
    split
    · exact hw f
    · exact id

theorem onTape_bounded {x : EStateM TapeError Tape α} (hx : m.tape.Bounded (x m.tape)) :
    Bounded m (onTape x m) := by
  rw [onTape_apply]
  cases ht : x m.tape with
  | ok a t =>
    rw [ht] at hx
    exact hx
  | error e t =>
    rw [ht] at hx
    exact hx

theorem act_bounded (a : Action) (h : m.tape.InBounds) : Bounded m (act a m) := by
  cases a with
  | apply op n => exact onTape_bounded (Tape.apply_bounded h op n)
  | output =>
    apply bounded_of_quiet h
    exact quiet_bind read_quiet (fun _ => onStreams_quiet (fun _ => id) _) m
  | input =>
    apply bounded_bind (onStreams_quiet (fun _ => id) _) _ h
    intro _ m h
    apply bounded_bind (onStreams_quiet (fun _ => id) _) _ h
    intro b m h
    cases b with
    | none => exact Or.inr ⟨id, rfl⟩
    | some v => exact onTape_bounded (Tape.update_bounded h _)
  | unknown => exact Or.inr ⟨id, rfl⟩

theorem perform_bounded (b : Option Int) (a : Action) (h : m.tape.InBounds) :
    Bounded m (perform b a m) :=
  bounded_bind (countStep_quiet b) (fun _ _ => act_bounded a) h

theorem check_quiet (b : Option Int) (m : Machine) : Quiet m (check b m) := by
  apply quiet_bind (countStep_quiet b)
  intro _
  exact quiet_bind read_quiet fun _ _ => rfl

theorem round_bounded (inner : Frame) (outer : List Frame) (h : m.tape.InBounds) :
    Bounded m ((runner b).round inner outer m) := by
  have hcheck := bounded_of_quiet h (check_quiet b m)
  obtain ⟨_ | ⟨_ | body, rest⟩, loop⟩ := inner
  · cases loop with
    | none => exact Tape.advances_refl h
    | some body =>
      rw [round_again]
      rcases hc : check b m with ⟨_ | _, m₁⟩ | ⟨e, m₁⟩ <;> rw [hc] at hcheck <;> exact hcheck
  · next a =>
    have hperform := perform_bounded b a h
    rw [round_act]
    cases hp : perform b a m <;> rw [hp] at hperform <;> exact hperform
  · rw [round_loop]
    rcases hc : check b m with ⟨_ | _, m₁⟩ | ⟨e, m₁⟩ <;> rw [hc] at hcheck <;> exact hcheck

/-- The cursor is on a cell, unless there was no room for it. -/
def Rests : EStateM.Result RunError Machine (List Frame) → Prop :=
  Visitor.Satisfies (fun _ m => m.tape.InBounds) fun e m =>
    e.IsShortage ∧ m.tape.length ≤ m.tape.cursor ∨ ¬ e.IsShortage ∧ m.tape.InBounds

theorem round_rests (inner : Frame) (outer : List Frame) (m : Machine) (h : m.tape.InBounds) :
    Rests ((runner b).round inner outer m) := by
  have hround := round_bounded (b := b) inner outer h
  cases hr : (runner b).round inner outer m with
  | ok frames m' =>
    rw [hr] at hround
    exact hround.inBounds
  | error e m' =>
    rw [hr] at hround
    rcases hround with ⟨he, hover⟩ | ⟨he, heq⟩
    · exact Or.inl ⟨he, hover.cursor⟩
    · exact Or.inr ⟨he, heq ▸ h⟩

theorem rounds_rests (h : m.tape.InBounds) (n : Nat) (frames : List Frame) :
    Rests ((runner b).rounds n frames m) :=
  Visitor.satisfies_rounds round_rests n h

theorem length_of_bounded {r : EStateM.Result RunError Machine α} (hr : Bounded m r) :
    m.tape.length ≤ (leaves r).tape.length ∧
      ((leaves r).tape.length = m.tape.length ∨
        (leaves r).tape.InBounds ∧ (leaves r).tape.cursor + 1 = (leaves r).tape.length) := by
  cases r with
  | ok a m' =>
    rcases hr.length with heq | ⟨hlt, hend⟩
    · exact ⟨Nat.le_of_eq heq.symm, Or.inl heq⟩
    · exact ⟨Nat.le_of_lt hlt, Or.inr ⟨hr.inBounds, hend⟩⟩
  | error e m' =>
    rcases hr with ⟨-, hover⟩ | ⟨-, heq⟩
    · exact ⟨Nat.le_of_eq hover.length.symm, Or.inl hover.length⟩
    · have hlength : m'.tape.length = m.tape.length := congrArg Tape.length heq
      exact ⟨Nat.le_of_eq hlength.symm, Or.inl hlength⟩

/-- A tape never gets shorter, and it gets no longer than to a cell that the cursor has been on. -/
theorem length_rounds (h : m.tape.InBounds) (n : Nat) (frames : List Frame) :
    m.tape.length ≤ (leaves ((runner b).rounds n frames m)).tape.length ∧
      ((leaves ((runner b).rounds n frames m)).tape.length = m.tape.length ∨
        ∃ j, (leaves ((runner b).rounds j frames m)).tape.InBounds ∧
          (leaves ((runner b).rounds j frames m)).tape.cursor + 1 =
            (leaves ((runner b).rounds n frames m)).tape.length) := by
  induction n generalizing frames m with
  | zero => exact ⟨Nat.le_refl _, Or.inl rfl⟩
  | succ n ih =>
    cases frames with
    | nil => exact ⟨Nat.le_refl _, Or.inl rfl⟩
    | cons inner outer =>
      have hround := round_bounded (b := b) inner outer h
      obtain ⟨hle, hfirst⟩ := length_of_bounded hround
      cases hr : (runner b).round inner outer m with
      | error e m₁ =>
        have hone (k : Nat) : (runner b).rounds (k + 1) (inner :: outer) m = .error e m₁ := by
          rw [Visitor.rounds, hr]
        rw [hr] at hle hfirst
        rw [hone]
        refine ⟨hle, hfirst.imp id fun hend => ⟨1, ?_⟩⟩
        rw [hone]
        exact hend
      | ok frames₁ m₁ =>
        have hnext (k : Nat) :
            (runner b).rounds (k + 1) (inner :: outer) m = (runner b).rounds k frames₁ m₁ := by
          rw [Visitor.rounds, hr]
        rw [hr] at hround hle hfirst
        obtain ⟨hle', hrest⟩ := ih hround.inBounds frames₁
        rw [hnext]
        refine ⟨Nat.le_trans hle hle', ?_⟩
        rcases hrest with heq | ⟨j, hj⟩
        · rcases hfirst with heq₁ | hend
          · exact Or.inl (heq.trans heq₁)
          · -- grown in this round, and as long ever since
            refine Or.inr ⟨1, ?_⟩
            rw [hnext, heq]
            exact hend
        · refine Or.inr ⟨j + 1, ?_⟩
          rw [hnext]
          exact hj

/-- The same room for cells. -/
def SameRoom (m m' : Machine) : Prop := m'.tape.room = m.tape.room

theorem sameRoom_trans (m m' m'' : Machine) (h : SameRoom m m') (h' : SameRoom m' m'') :
    SameRoom m m'' :=
  Eq.trans h' h

theorem onTape_room {x : EStateM TapeError Tape α} (hx : Keeps (fun t u => u.room = t.room) x) :
    Keeps SameRoom (onTape x) := by
  intro m
  have hroom := hx m.tape
  rw [onTape_apply]
  cases ht : x m.tape <;> rw [ht] at hroom <;> exact hroom

theorem onStreams_room (wrap : Fault → RunError) (x : EStateM Fault Streams α) :
    Keeps SameRoom (onStreams wrap x) := by
  intro m
  rw [onStreams_apply]
  cases x m.streams <;> rfl

theorem countStep_room (b : Option Int) : Keeps SameRoom (countStep b) := by
  intro m
  rcases countStep_cases b m with hgoes | hstops
  · rw [hgoes]
    rfl
  · rw [hstops]
    rfl

theorem act_room (a : Action) : Keeps SameRoom (act a) := by
  cases a with
  | apply op n => exact onTape_room (Tape.apply_room op n.val)
  | output => exact keeps_bind sameRoom_trans (onTape_room Tape.read_room) fun _ => onStreams_room _ _
  | input =>
    apply keeps_bind sameRoom_trans (onStreams_room _ _)
    intro _
    apply keeps_bind sameRoom_trans (onStreams_room _ _)
    intro v
    cases v with
    | none => exact fun _ => rfl
    | some v => exact onTape_room (Tape.update_room _)
  | unknown => exact fun _ => rfl

theorem rounds_room (n : Nat) (frames : List Frame) : Keeps SameRoom ((runner b).rounds n frames) := by
  have hrefl (m : Machine) : SameRoom m m := rfl
  have hcheck : Keeps SameRoom (check b) := by
    apply keeps_bind sameRoom_trans (countStep_room b)
    intro _
    exact keeps_bind sameRoom_trans (onTape_room Tape.read_room) fun _ _ => rfl
  have hperform (a : Action) : Keeps SameRoom (perform b a) :=
    keeps_bind sameRoom_trans (countStep_room b) fun _ => act_room a
  exact keeps_rounds hrefl sameRoom_trans (keeps_round hrefl hperform hcheck) n frames

theorem length_le_of_le (h : m.tape.InBounds) {j n : Nat} (hjn : j ≤ n) :
    (leaves ((runner b).rounds j frames m)).tape.length ≤
      (leaves ((runner b).rounds n frames m)).tape.length := by
  obtain ⟨k, rfl⟩ := Nat.exists_eq_add_of_le hjn
  have hrests := rounds_rests (b := b) h j frames
  rw [Visitor.rounds_add]
  cases hr : (runner b).rounds j frames m with
  | error e m₁ => exact Nat.le_refl _
  | ok frames₁ m₁ =>
    rw [hr] at hrests
    exact (length_rounds hrests k frames₁).1

end Machine

namespace Interpreter

open Machine

variable {i : Interpreter} {p : Program} {s : Streams} {t : Tape} {r : Run} {n : Nat}

/-- The places that the cursor comes to in a run. A place that there is no room for is not reached. -/
def reached (i : Interpreter) (p : Program) (s : Streams) : Set Int :=
  {c | ∃ n, ¬ (i.run n p s).ending.IsShortage ∧ (i.run n p s).interpreter.tape.cursor = c}

theorem tape_run (h : Tape.create i.room i.memorySize = .ok t) (n : Nat) :
    (i.run n p s).interpreter.tape =
      (leaves ((runner i.budget).rounds n [⟨p, none⟩] ⟨t, s, 0⟩)).tape := by
  rw [run_of_create_ok h, Visitor.walk]
  cases (runner i.budget).rounds n [⟨p, none⟩] ⟨t, s, 0⟩ <;> rfl

/-- A run leaves the cursor on a cell, unless it has failed for want of room. -/
theorem tape_run_cases (h : Tape.create i.room i.memorySize = .ok t) (n : Nat) :
    (i.run n p s).ending.IsShortage ∧
        (i.run n p s).interpreter.tape.length ≤ (i.run n p s).interpreter.tape.cursor ∨
      ¬ (i.run n p s).ending.IsShortage ∧ (i.run n p s).interpreter.tape.InBounds := by
  have ht : t.InBounds := (Tape.create_ok h).1
  have hrests := rounds_rests (m := ⟨t, s, 0⟩) (b := i.budget) ht n [⟨p, none⟩]
  rw [run_of_create_ok h, Visitor.walk]
  cases hr : (runner i.budget).rounds n [⟨p, none⟩] ⟨t, s, 0⟩ with
  | error e m =>
    rw [hr] at hrests
    exact hrests
  | ok frames m =>
    rw [hr] at hrests
    refine Or.inr ⟨?_, hrests⟩
    dsimp only
    split <;> exact id

theorem inBounds_run_iff (h : Tape.create i.room i.memorySize = .ok t) (n : Nat) :
    (i.run n p s).interpreter.tape.InBounds ↔ ¬ (i.run n p s).ending.IsShortage := by
  rcases tape_run_cases (p := p) (s := s) h n with ⟨hshort, hle⟩ | ⟨hfits, hin⟩
  · refine ⟨fun hin => ?_, fun hfits => (hfits hshort).elim⟩
    have hlt := hin.lt_length
    omega
  · exact ⟨fun _ => hfits, fun _ => hin⟩

theorem room_run (h : Tape.create i.room i.memorySize = .ok t) (n : Nat) :
    (i.run n p s).interpreter.tape.room = i.room := by
  have hroom := rounds_room (b := i.budget) n [⟨p, none⟩] ⟨t, s, 0⟩
  rw [tape_run h]
  exact Eq.trans hroom (Tape.create_ok h).2.1

theorem run_add (h : (i.run n p s).ending ≠ .unfinished) (k : Nat) :
    i.run (n + k) p s = i.run n p s := by
  cases hc : Tape.create i.room i.memorySize with
  | error e => rw [run_of_create_error hc, run_of_create_error hc]
  | ok t =>
    rw [run_of_create_ok hc] at h
    rw [run_of_create_ok hc, run_of_create_ok hc, Visitor.walk, Visitor.walk, Visitor.rounds_add]
    rw [Visitor.walk] at h
    cases hr : (runner i.budget).rounds n [⟨p, none⟩] ⟨t, s, 0⟩ with
    | error e m => rfl
    | ok frames m =>
      rw [hr] at h
      cases frames with
      | nil => simp only [Visitor.rounds_nil]
      | cons inner outer => exact (h rfl).elim

/-- In the end a tape reaches from its first cell to the last that the cursor has been on, or it is still as
long as it was made. -/
theorem length_of_ends (hc : Tape.create i.room i.memorySize = .ok t) (h : i.Ends p s r) :
    ∃ c, IsGreatest (i.reached p s) c ∧
      (r.interpreter.tape.length : Int) = max i.memorySize (c + 1) := by
  obtain ⟨n, rfl, hne⟩ := h
  obtain ⟨ht, -, hsize, hstart, -⟩ := Tape.create_ok hc
  have hlength : ∀ j,
      (i.run j p s).interpreter.tape.length ≤ (i.run n p s).interpreter.tape.length := by
    intro j
    rcases Nat.le_total j n with hjn | hnj
    · rw [tape_run hc, tape_run hc]
      exact length_le_of_le ht hjn
    · obtain ⟨k, rfl⟩ := Nat.exists_eq_add_of_le hnj
      rw [run_add hne]
  have hbound : ∀ c ∈ i.reached p s, c + 1 ≤ (i.run n p s).interpreter.tape.length := by
    rintro c ⟨j, hj, rfl⟩
    have hlt := ((inBounds_run_iff hc j).mpr hj).lt_length
    have hle := hlength j
    omega
  have hsome : ∃ c, c ∈ i.reached p s := by
    refine ⟨_, 0, ?_, rfl⟩
    rw [run_of_create_ok hc]
    exact id
  obtain ⟨c, hc', hgreatest⟩ := Int.exists_greatest_of_bdd
    ⟨_, fun c hreached => Int.le_sub_one_of_lt (hbound c hreached)⟩ hsome
  refine ⟨c, ⟨hc', hgreatest⟩, ?_⟩
  have hlast := hbound c hc'
  obtain ⟨hle, hcases⟩ := length_rounds (m := ⟨t, s, 0⟩) (b := i.budget) ht n [⟨p, none⟩]
  rw [← tape_run hc] at hle hcases
  dsimp only at hle hcases
  rcases hcases with heq | ⟨j, hin, hend⟩
  · omega
  · rw [← tape_run hc] at hin hend
    have hcursor := hgreatest _ ⟨j, (inBounds_run_iff hc j).mp hin, rfl⟩
    omega

/-- A run that did not fail for want of room has its cursor on a tape no shorter than asked for. -/
theorem tape_of_ends (hc : Tape.create i.room i.memorySize = .ok t) (h : i.Ends p s r)
    (hroom : ¬ r.ending.IsShortage) :
    r.interpreter.tape.InBounds ∧ i.memorySize ≤ r.interpreter.tape.length := by
  obtain ⟨c, -, hlength⟩ := length_of_ends hc h
  obtain ⟨n, rfl, -⟩ := h
  exact ⟨(inBounds_run_iff hc n).mpr hroom, by omega⟩

end Interpreter

end Brainfuck
