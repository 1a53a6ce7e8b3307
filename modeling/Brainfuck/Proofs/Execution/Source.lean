import Brainfuck.Proofs.Execution.Outcome

/-! What running a source text gives, whatever number of rounds it takes. -/
namespace Brainfuck

/-- What a source text that has been run gives: the bytes written, or the error. -/
def Run.bytes (r : Run) : Except SourceError (List UInt8) :=
  match r.ending with
  | .finished => .ok r.streams.written.toList
  | .failed e => .error (.run e)
  | .unfinished => .error .unfinished

/-- Within a budget a source text gives this result after some number of rounds. -/
def SourceEndsWithin (budget : Option Int) (room : Nat) (source : String) (input : List UInt8)
    (size : Int) (optimized : Bool) (x : Except SourceError (List UInt8)) : Prop :=
  ∃ n, runSource n room source input size budget optimized = x ∧ x ≠ .error .unfinished

/-- Memory has given out before there was a result. -/
def RanOutOfMemory (x : Except SourceError (List UInt8)) : Prop :=
  ∃ e : RunError, x = .error (.run e) ∧ e.IsOutOfMemory

/-- A source text that is run without a budget gives this result, and memory has not given out. -/
def SourceCompletes (room : Nat) (source : String) (input : List UInt8) (size : Int)
    (optimized : Bool) (x : Except SourceError (List UInt8)) : Prop :=
  SourceEndsWithin none room source input size optimized x ∧ ¬ RanOutOfMemory x

theorem Run.bytes_eq_unfinished {r : Run} :
    r.bytes = .error .unfinished ↔ r.ending = .unfinished := by
  unfold bytes
  cases r.ending <;> simp

theorem Run.bytes_eq_ok {r : Run} {d : List UInt8} :
    r.bytes = .ok d ↔ r.ending = .finished ∧ r.streams.written.toList = d := by
  unfold bytes
  cases r.ending <;> simp

theorem Run.bytes_eq_failed {r : Run} {e : RunError} :
    r.bytes = .error (.run e) ↔ r.ending = .failed e := by
  unfold bytes
  cases r.ending <;> simp

theorem Run.ranOutOfMemory_bytes {r : Run} : RanOutOfMemory r.bytes ↔ r.ending.IsOutOfMemory := by
  constructor
  · rintro ⟨e, he, hout⟩
    rw [bytes_eq_failed.mp he]
    exact hout
  · intro hout
    cases he : r.ending with
    | failed e =>
      rw [he] at hout
      exact ⟨e, bytes_eq_failed.mpr he, hout⟩
    | finished | unfinished =>
      rw [he] at hout
      exact hout.elim

namespace Interpreter

variable {n room : Nat} {source : String} {input : List UInt8} {size : Int} {budget : Option Int}
  {optimized : Bool} {i : Interpreter} {p : Program} {x : Except SourceError (List UInt8)}

theorem runSource_of_parse_error {e : ParseError} (h : Program.parse source = .error e) :
    runSource n room source input size budget optimized = .error (.parse e) := by
  simp only [runSource, h]
  rfl

theorem runSource_of_create_error {e : SizeError} (h : Program.parse source = .ok p)
    (hc : create room size budget = .error e) :
    runSource n room source input size budget optimized = .error (.run (.size e)) := by
  simp only [runSource, h, hc]
  rfl

theorem runSource_of_create_ok (h : Program.parse source = .ok p)
    (hc : create room size budget = .ok i) :
    runSource n room source input size budget optimized =
      (i.run n (if optimized then p.optimize else p) (.ofBytes input)).bytes := by
  simp only [runSource, h, hc]
  rfl

theorem sourceEndsWithin_of_parse_error {e : ParseError} (h : Program.parse source = .error e) :
    SourceEndsWithin budget room source input size optimized x ↔ x = .error (.parse e) := by
  simp only [SourceEndsWithin, runSource_of_parse_error h]
  constructor
  · rintro ⟨-, rfl, -⟩
    rfl
  · rintro rfl
    exact ⟨0, rfl, by simp⟩

theorem sourceEndsWithin_of_create_error {e : SizeError} (h : Program.parse source = .ok p)
    (hc : create room size budget = .error e) :
    SourceEndsWithin budget room source input size optimized x ↔ x = .error (.run (.size e)) := by
  simp only [SourceEndsWithin, runSource_of_create_error h hc]
  constructor
  · rintro ⟨-, rfl, -⟩
    rfl
  · rintro rfl
    exact ⟨0, rfl, by simp⟩

/-- A text that can be run gives what a run of its program gives. -/
theorem sourceEndsWithin_of_create_ok (h : Program.parse source = .ok p)
    (hc : create room size budget = .ok i) :
    SourceEndsWithin budget room source input size optimized x ↔
      ∃ r, i.Ends (if optimized then p.optimize else p) (.ofBytes input) r ∧ r.bytes = x := by
  simp only [SourceEndsWithin, runSource_of_create_ok h hc]
  constructor
  · rintro ⟨n, rfl, hx⟩
    exact ⟨_, ⟨n, rfl, fun hr => hx (Run.bytes_eq_unfinished.mpr hr)⟩, rfl⟩
  · rintro ⟨r, ⟨n, rfl, hr⟩, rfl⟩
    exact ⟨n, rfl, fun hx => hr (Run.bytes_eq_unfinished.mp hx)⟩

/-- A text that gives a result, other than for its brackets or for want of a tape, is run by an
interpreter. -/
theorem exists_run_of_source (h : SourceEndsWithin budget room source input size optimized x)
    (hparse : ∀ e, x ≠ .error (.parse e)) (hsize : ∀ e, x ≠ .error (.run (.size e))) :
    ∃ p i r, Program.parse source = .ok p ∧ create room size budget = .ok i ∧
      i.Ends (if optimized then p.optimize else p) (.ofBytes input) r ∧ r.bytes = x := by
  cases hp : Program.parse source with
  | error e =>
    rw [sourceEndsWithin_of_parse_error hp] at h
    exact (hparse e h).elim
  | ok p =>
    cases hc : create room size budget with
    | error e =>
      rw [sourceEndsWithin_of_create_error hp hc] at h
      exact (hsize e h).elim
    | ok i =>
      obtain ⟨r, hends, hbytes⟩ := (sourceEndsWithin_of_create_ok hp hc).mp h
      exact ⟨p, i, r, rfl, rfl, hends, hbytes⟩

end Interpreter

end Brainfuck
