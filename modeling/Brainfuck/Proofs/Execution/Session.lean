import Brainfuck.Proofs.Execution.Bounds

/-! Sessions on one interpreter: runs that end, resets and new settings, in any order and number. -/
namespace Brainfuck.Interpreter

/-- What happened in one step of a session. A run or a reset is refused if there can be no tape of the size
that is set. -/
inductive Event
  | ran (program : Program) (streams : Streams) (ending : Ending)
  | reset
  | refused (error : SizeError)
  | resized (size : Int)
  | limited (budget : Option Int)

/-- An interpreter after these events, the last of which stands first. -/
inductive Session : List Event → Interpreter → Prop
  | start {room size budget i} (made : create room size budget = .ok i) : Session [] i
  | ran {log i p s t r} (before : Session log i) (fresh : Tape.create i.room i.memorySize = .ok t)
    (run : i.Ends p s r) : Session (.ran p s r.ending :: log) r.interpreter
  | refusedRun {log i p s e r} (before : Session log i)
    (none : Tape.create i.room i.memorySize = .error e) (run : i.Ends p s r) :
    Session (.refused e :: log) r.interpreter
  | reset {log i i'} (before : Session log i) (now : Interpreter.reset i = .ok () i') :
    Session (.reset :: log) i'
  | refusedReset {log i e i'} (before : Session log i)
    (now : Interpreter.reset i = .error e i') : Session (.refused e :: log) i'
  | resized {log i} (before : Session log i) (size : Int) :
    Session (.resized size :: log) { i with memorySize := size }
  | limited {log i} (before : Session log i) (budget : Option Int) :
    Session (.limited budget :: log) { i with budget }

/-- Since a run that failed for want of room there has been no fresh tape. -/
def Stranded : List Event → Prop
  | [] => False
  | .ran _ _ ending :: _ => ending.IsShortage
  | .reset :: _ => False
  | .refused _ :: log => Stranded log
  | .resized _ :: log => Stranded log
  | .limited _ :: log => Stranded log

variable {room : Nat} {size : Int} {budget : Option Int} {i i' : Interpreter} {log : List Event}

theorem inBounds_of_create (h : create room size budget = .ok i) : i.tape.InBounds :=
  (Tape.create_ok (create_ok h).tape).1

theorem inBounds_of_reset (h : Interpreter.reset i = .ok () i') : i'.tape.InBounds := by
  unfold Interpreter.reset at h
  cases hc : Tape.create i.room i.memorySize with
  | error e =>
    rw [hc] at h
    cases h
  | ok t =>
    rw [hc] at h
    cases h
    exact (Tape.create_ok hc).1

theorem tape_of_reset_error {e : SizeError} (h : Interpreter.reset i = .error e i') : i' = i := by
  unfold Interpreter.reset at h
  cases hc : Tape.create i.room i.memorySize with
  | error e =>
    rw [hc] at h
    cases h
    rfl
  | ok t =>
    rw [hc] at h
    cases h

theorem session_cases (h : Session log i) :
    Stranded log ∧ i.tape.length ≤ i.tape.cursor ∨ ¬ Stranded log ∧ i.tape.InBounds := by
  induction h with
  | start made => exact Or.inr ⟨id, inBounds_of_create made⟩
  | ran _ fresh run _ =>
    obtain ⟨n, rfl, -⟩ := run
    exact tape_run_cases fresh n
  | refusedRun _ none run ih =>
    rw [ends_of_create_error none] at run
    subst run
    exact ih
  | reset _ now _ => exact Or.inr ⟨id, inBounds_of_reset now⟩
  | refusedReset _ now ih =>
    rw [tape_of_reset_error now]
    exact ih
  | resized _ _ ih => exact ih
  | limited _ _ ih => exact ih

/-- After every step of a session the tape has a cell and the cursor is not left of the first. The cursor is
on a cell, except as long as the tape is one that a move to the right had no room on. -/
theorem cursor_of_session (h : Session log i) :
    1 ≤ i.tape.length ∧ (∀ j, (i.tape.cell j).toNat ≤ 255) ∧ 0 ≤ i.tape.cursor ∧
      (i.tape.cursor < i.tape.length ↔ ¬ Stranded log) := by
  have hpos := i.tape.length_pos
  refine ⟨hpos, fun j => Nat.le_of_lt_succ (i.tape.cell j).toNat_lt, ?_⟩
  rcases session_cases h with ⟨hstranded, hle⟩ | ⟨hfits, hin⟩
  · exact ⟨by omega, fun hlt => by omega, fun hne => (hne hstranded).elim⟩
  · exact ⟨hin.nonneg, fun _ => hfits, fun _ => hin.lt_length⟩

/-- A move further than any index. -/
def farRight : Program := [.act (.apply .moveRight ⟨0x8000_0000_0000_0000, by decide⟩)]

/-- The interpreter that has tried that move on a tape of one cell. -/
def overrun : Interpreter :=
  ((single Tape.usualRoom (by decide)).run 2 farRight (.ofBytes [])).interpreter

theorem session_overrun :
    Session [.ran farRight (.ofBytes []) (.failed (.tape .tooLarge))] overrun := by
  let i : Interpreter := single Tape.usualRoom (by decide)
  have hmade : create Tape.usualRoom 1 none = .ok i := rfl
  have hrun : i.Ends farRight (.ofBytes []) (i.run 2 farRight (.ofBytes [])) :=
    ⟨2, rfl, by decide +kernel⟩
  have hending : (i.run 2 farRight (.ofBytes [])).ending = .failed (.tape .tooLarge) := by
    decide +kernel
  have hsession := Session.ran (.start hmade) rfl hrun
  rwa [hending] at hsession

/-- A reset brings back the cursor that the move has left off the tape. -/
theorem cursor_of_session_reset :
    ∃ log i log' i', Session log i ∧ Stranded log ∧ ¬ i.tape.cursor < i.tape.length ∧
      Session (.reset :: .resized 2 :: log') i' ∧ Stranded log' ∧
      i'.tape.cursor < i'.tape.length := by
  have hreset := Session.reset (.resized session_overrun 2) rfl
  obtain ⟨-, -, -, hoff⟩ := cursor_of_session session_overrun
  obtain ⟨-, -, -, hon⟩ := cursor_of_session hreset
  exact ⟨_, _, _, _, session_overrun, trivial, fun hlt => hoff.mp hlt trivial, hreset, trivial,
    hon.mpr id⟩

/-- After that move there is one cell, and the cursor is not on it. -/
theorem cursor_leaves_tape :
    Session [.ran farRight (.ofBytes []) (.failed (.tape .tooLarge))] overrun ∧
      overrun.tape.length = 1 ∧ overrun.tape.cursor = 0x8000_0000_0000_0000 :=
  ⟨session_overrun, by decide +kernel, by decide +kernel⟩

end Brainfuck.Interpreter
