import Brainfuck.Interpreter
import Brainfuck.Proofs.Execution.Structured

/-! How runs of an interpreter end, whatever number of rounds they take. -/
namespace Brainfuck

/-- Moving left of the first cell. -/
def TapeError.IsUnderflow : TapeError → Prop
  | .negativeAddress _ _ => True
  | _ => False

/-- There is no room for the cells that the tape needs. -/
def TapeError.IsShortage : TapeError → Prop
  | .tooLarge => True
  | .blockTooLarge => True
  | .outOfMemory => True
  | _ => False

def RunError.IsUnderflow : RunError → Prop
  | .tape e => e.IsUnderflow
  | _ => False

def RunError.IsShortage : RunError → Prop
  | .size .tooLarge => True
  | .size .outOfMemory => True
  | .tape e => e.IsShortage
  | _ => False

/-- Memory has given out, for a fresh tape or for further cells. -/
def RunError.IsOutOfMemory : RunError → Prop
  | .size .outOfMemory => True
  | .tape .outOfMemory => True
  | _ => False

def Ending.IsUnderflow : Ending → Prop
  | .failed e => e.IsUnderflow
  | _ => False

def Ending.IsShortage : Ending → Prop
  | .failed e => e.IsShortage
  | _ => False

def Ending.IsOutOfMemory : Ending → Prop
  | .failed e => e.IsOutOfMemory
  | _ => False

namespace Interpreter

open Machine

/-- An interpreter without a budget whose tape starts with one cell. -/
def single (room : Nat) (h : 0 < room) : Interpreter :=
  ⟨room, 1, none, ⟨room, 1, 0, .zero, Nat.zero_le _, Nat.one_pos, h⟩⟩

/-- The run has ended after some number of rounds. -/
def Ends (i : Interpreter) (p : Program) (s : Streams) (r : Run) : Prop :=
  ∃ n, i.run n p s = r ∧ r.ending ≠ .unfinished

/-- The run has ended, and memory has not given out. -/
def Completes (i : Interpreter) (p : Program) (s : Streams) (r : Run) : Prop :=
  i.Ends p s r ∧ ¬ r.ending.IsOutOfMemory

/-- The run with this outcome; the interpreter keeps the tape. -/
def after (i : Interpreter) : Outcome → Run
  | .ok _ m => ⟨{ i with tape := m.tape }, m.streams, m.steps, .finished⟩
  | .error e m => ⟨{ i with tape := m.tape }, m.streams, m.steps, .failed e⟩

/-- The run that the structured meaning of a program gives: on a fresh tape if there can be one. -/
inductive Means (i : Interpreter) (p : Program) (s : Streams) : Run → Prop
  | noTape {e} (none : Tape.create i.room i.memorySize = .error e) :
    Means i p s ⟨i, s, 0, .failed (.size e)⟩
  | executes {t x} (fresh : Tape.create i.room i.memorySize = .ok t)
    (body : Executes i.budget p ⟨t, s, 0⟩ x) : Means i p s (i.after x)

/-- An interpreter as it is made: the room and settings are those asked for, and the tape is fresh. -/
structure Fresh (room : Nat) (size : Int) (budget : Option Int) (i : Interpreter) : Prop where
  room : i.room = room
  size : i.memorySize = size
  budget : i.budget = budget
  tape : Tape.create i.room i.memorySize = .ok i.tape

variable {i : Interpreter} {p : Program} {s : Streams} {t : Tape} {e : SizeError} {r r' : Run}

theorem create_ok {room : Nat} {size : Int} {budget : Option Int}
    (h : create room size budget = .ok i) : i.Fresh room size budget := by
  unfold create at h
  cases hc : Tape.create room size with
  | error e =>
    rw [hc] at h
    cases h
  | ok t =>
    rw [hc] at h
    cases h
    exact ⟨rfl, rfl, rfl, hc⟩

theorem run_of_create_error (h : Tape.create i.room i.memorySize = .error e) (n : Nat) :
    i.run n p s = ⟨i, s, 0, .failed (.size e)⟩ := by
  simp [run, reset, h]

theorem run_of_create_ok (h : Tape.create i.room i.memorySize = .ok t) (n : Nat) :
    i.run n p s =
      match (runner i.budget).walk n p ⟨t, s, 0⟩ with
      | .ok frames m =>
        ⟨{ i with tape := m.tape }, m.streams, m.steps,
          if frames.isEmpty then .finished else .unfinished⟩
      | .error e m => ⟨{ i with tape := m.tape }, m.streams, m.steps, .failed e⟩ := by
  simp only [run, reset, h]
  cases (runner i.budget).walk n p ⟨t, s, 0⟩ <;> rfl

theorem ends_of_create_error (h : Tape.create i.room i.memorySize = .error e) :
    i.Ends p s r ↔ r = ⟨i, s, 0, .failed (.size e)⟩ := by
  simp only [Ends, run_of_create_error h]
  constructor
  · rintro ⟨n, rfl, -⟩
    rfl
  · rintro rfl
    exact ⟨0, rfl, by simp⟩

/-- On a fresh tape a run ends exactly with the outcomes of the structured meaning. -/
theorem ends_of_create_ok (h : Tape.create i.room i.memorySize = .ok t) :
    i.Ends p s r ↔ ∃ x, Executes i.budget p ⟨t, s, 0⟩ x ∧ r = i.after x := by
  simp only [← settles_iff_executes, Ends, run_of_create_ok h]
  constructor
  · rintro ⟨n, hn, hr⟩
    cases hw : (runner i.budget).walk n p ⟨t, s, 0⟩ with
    | ok frames m =>
      simp only [hw] at hn
      subst hn
      cases frames with
      | nil => exact ⟨.ok () m, ⟨n, hw⟩, rfl⟩
      | cons inner outer => simp at hr
    | error e m =>
      simp only [hw] at hn
      exact ⟨.error e m, ⟨n, hw⟩, hn.symm⟩
  · rintro ⟨x, ⟨n, hn⟩, rfl⟩
    refine ⟨n, ?_⟩
    cases x with
    | ok _ m =>
      have hw : (runner i.budget).walk n p ⟨t, s, 0⟩ = .ok [] m := hn
      simp [hw, after]
    | error e m =>
      have hw : (runner i.budget).walk n p ⟨t, s, 0⟩ = .error e m := hn
      simp [hw, after]

theorem ends_unique (h : i.Ends p s r) (h' : i.Ends p s r') : r = r' := by
  cases hc : Tape.create i.room i.memorySize with
  | error e =>
    rw [ends_of_create_error hc] at h h'
    rw [h, h']
  | ok t =>
    rw [ends_of_create_ok hc] at h h'
    obtain ⟨x, hx, rfl⟩ := h
    obtain ⟨y, hy, rfl⟩ := h'
    rw [executes_unique hx hy]

theorem completes_run {n : Nat} {x : Ending} (h : (i.run n p s).ending = x) (hended : x ≠ .unfinished)
    (hmemory : ¬ x.IsOutOfMemory) : i.Completes p s (i.run n p s) := by
  subst h
  exact ⟨⟨n, rfl, hended⟩, hmemory⟩

/-- The run with a stack of open passes ends, with the same ending, tape, streams and count of steps,
exactly where the structured meaning does. -/
theorem run_ends_iff_means :
    (∃ n, i.run n p s = r ∧ r.ending ≠ .unfinished) ↔ i.Means p s r := by
  change i.Ends p s r ↔ _
  cases hc : Tape.create i.room i.memorySize with
  | error e =>
    rw [ends_of_create_error hc]
    constructor
    · rintro rfl
      exact .noTape hc
    · intro h
      cases h with
      | noTape none => simp_all
      | executes fresh => simp_all
  | ok t =>
    rw [ends_of_create_ok hc]
    constructor
    · rintro ⟨x, hx, rfl⟩
      exact .executes hc hx
    · intro h
      cases h with
      | noTape none => simp_all
      | executes fresh body =>
        rw [hc] at fresh
        cases fresh
        exact ⟨_, body, rfl⟩

end Interpreter

end Brainfuck
