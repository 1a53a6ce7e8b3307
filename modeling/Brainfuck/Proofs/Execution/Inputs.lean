import Mathlib.Data.Nat.Count
import Brainfuck.Proofs.Execution.Exchange

/-! How often a run asks for input: once for each input instruction that it comes to. -/
namespace Brainfuck

namespace Machine

/-- The output stays what it was, and input is asked for this many times. -/
structure Asks (k : Nat) (m m' : Machine) : Prop where
  output : m'.streams.output = m.streams.output
  reads : m'.streams.reads = m.streams.reads + k

variable {α : Type} {j k : Nat} {b : Option Int} {m m' m'' : Machine}

theorem asks_trans (h : Asks j m m') (h' : Asks k m' m'') : Asks (j + k) m m'' :=
  ⟨h'.output.trans h.output, by rw [h'.reads, h.reads, Nat.add_assoc]⟩

theorem asks_of_streams (h : SameStreams m m') : Asks 0 m m' := by
  have hstreams : m.streams = m'.streams := h
  exact ⟨by rw [hstreams], by rw [hstreams, Nat.add_zero]⟩

theorem asks_none_trans (m m' m'' : Machine) (h : Asks 0 m m') (h' : Asks 0 m' m'') :
    Asks 0 m m'' :=
  asks_trans h h'

theorem onTape_asks (x : EStateM TapeError Tape α) : Keeps (Asks 0) (onTape x) :=
  fun m => asks_of_streams (onTape_streams x m)

theorem countStep_asks (b : Option Int) : Keeps (Asks 0) (countStep b) :=
  fun m => asks_of_streams (countStep_streams b m)

theorem onStreams_asks {wrap : Fault → RunError} {x : EStateM Fault Streams α}
    (hx : ∀ s, (leaves (x s)).output = s.output ∧ (leaves (x s)).reads = s.reads + k) :
    Keeps (Asks k) (onStreams wrap x) := by
  intro m
  have hm := hx m.streams
  rw [onStreams_apply]
  cases hs : x m.streams <;> rw [hs] at hm <;> exact ⟨hm.1, hm.2⟩

theorem write_asks (v : UInt8) : Keeps (Asks 0) (onStreams .cannotWrite (Streams.write v)) := by
  apply onStreams_asks
  intro s
  unfold Streams.write
  dsimp only
  split <;> exact ⟨rfl, by simp [leaves, Streams.reads]⟩

theorem flush_asks : Keeps (Asks 0) (onStreams .cannotFlush Streams.flush) := by
  apply onStreams_asks
  intro s
  unfold Streams.flush
  dsimp only
  split
  · split <;> exact ⟨rfl, by simp [leaves, Streams.reads]⟩
  · exact ⟨rfl, rfl⟩

/-- A read asks once, whatever it meets. -/
theorem read_asks : Keeps (Asks 1) (onStreams .cannotRead Streams.read) := by
  apply onStreams_asks
  intro s
  unfold Streams.read
  dsimp only
  split <;> exact ⟨rfl, by simp [leaves, Streams.reads]⟩

theorem take_asks : Keeps (Asks 1) take := by
  intro m
  have hread := read_asks m
  cases hr : onStreams .cannotRead Streams.read m with
  | ok v m₁ =>
    rw [hr] at hread
    rw [take, bind_of_ok hr]
    cases v with
    | none => exact hread
    | some v => exact asks_trans hread (onTape_asks _ m₁)
  | error e m₁ =>
    rw [hr] at hread
    rw [take, bind_of_error hr]
    exact hread

/-- An output that never fails does not keep an instruction from asking. -/
theorem input_asks (h : m.streams.output = .faultless) : Asks 1 m (leaves (input m)) := by
  have hinput : input = onStreams .cannotFlush Streams.flush >>= fun _ => take := rfl
  have hasks := flush_asks m
  obtain ⟨m₁, hm₁⟩ : ∃ m₁, onStreams .cannotFlush Streams.flush m = .ok () m₁ := by
    rw [onStreams_apply, Streams.flush, h]
    exact ⟨_, rfl⟩
  rw [hm₁] at hasks
  rw [hinput, bind_of_ok hm₁]
  exact asks_trans hasks (take_asks m₁)

theorem act_asks {a : Action} (ha : a ≠ .input) : Keeps (Asks 0) (act a) := by
  cases a with
  | apply op n => exact onTape_asks _
  | output => exact keeps_bind asks_none_trans (onTape_asks _) write_asks
  | input => exact (ha rfl).elim
  | unknown => exact fun m => asks_of_streams rfl

theorem perform_asks {a : Action} (ha : a ≠ .input) : Keeps (Asks 0) (perform b a) :=
  keeps_bind asks_none_trans (countStep_asks b) fun _ => act_asks ha

theorem check_asks : Keeps (Asks 0) (check b) := by
  apply keeps_bind asks_none_trans (countStep_asks b)
  intro _
  exact keeps_bind asks_none_trans (onTape_asks _) fun _ m => asks_of_streams rfl

/-- The next instruction is to read a byte. -/
def AtInput (inner : Frame) : Prop := ∃ rest loop, inner = ⟨.act .input :: rest, loop⟩

/-- A round without a budget asks for input once if it comes to an input instruction, and else never. -/
theorem round_asks (h : m.streams.output = .faultless) (inner : Frame) (outer : List Frame) :
    AtInput inner ∧ Asks 1 m (leaves ((runner none).round inner outer m)) ∨
      ¬ AtInput inner ∧ Asks 0 m (leaves ((runner none).round inner outer m)) := by
  have hcheck := check_asks (b := none) m
  obtain ⟨_ | ⟨a | body, rest⟩, loop⟩ := inner
  · refine Or.inr ⟨by rintro ⟨_, _, ⟨⟩⟩, ?_⟩
    cases loop with
    | none => exact asks_of_streams rfl
    | some body =>
      rw [round_again]
      rcases hc : check none m with ⟨_ | _, m₁⟩ | ⟨e, m₁⟩ <;> rw [hc] at hcheck <;> exact hcheck
  · rw [round_act]
    by_cases ha : a = .input
    · subst ha
      have hcounted : Asks 0 m { m with steps := m.steps + 1 } := asks_of_streams rfl
      have hperform : Asks 1 m (leaves (perform none .input m)) :=
        asks_trans hcounted (input_asks h)
      refine Or.inl ⟨⟨rest, loop, rfl⟩, ?_⟩
      cases hp : perform none .input m <;> rw [hp] at hperform <;> exact hperform
    · have hperform := perform_asks (b := none) ha m
      refine Or.inr ⟨by rintro ⟨_, _, ⟨⟩⟩; exact ha rfl, ?_⟩
      cases hp : perform none a m <;> rw [hp] at hperform <;> exact hperform
  · refine Or.inr ⟨by rintro ⟨_, _, ⟨⟩⟩, ?_⟩
    rw [round_loop]
    rcases hc : check none m with ⟨_ | _, m₁⟩ | ⟨e, m₁⟩ <;> rw [hc] at hcheck <;> exact hcheck

end Machine

namespace Interpreter

open Machine

variable {i : Interpreter} {p : Program} {s : Streams} {t : Tape} {n : Nat} {inner : Frame}
  {outer : List Frame}

theorem ending_of_next {a : Action} (h : i.Next p s n a) : (i.run n p s).ending = .unfinished := by
  obtain ⟨t, rest, loop, outer, hc, hwalk⟩ := h
  rw [run_of_create_ok hc, hwalk]
  rfl

theorem next_input_iff (hc : Tape.create i.room i.memorySize = .ok t)
    (hwalk : (runner i.budget).walk n p ⟨t, s, 0⟩ = .ok (inner :: outer) (i.run n p s).machine) :
    i.Next p s n .input ↔ AtInput inner := by
  constructor
  · rintro ⟨t', rest, loop, outer', hc', hwalk'⟩
    rw [hc] at hc'
    cases hc'
    rw [hwalk] at hwalk'
    cases hwalk'
    exact ⟨rest, loop, rfl⟩
  · rintro ⟨rest, loop, rfl⟩
    exact ⟨t, rest, loop, outer, hc, hwalk⟩

/-- What the next round asks for, as long as the output never fails. -/
theorem asks_run (hb : i.budget = none) (p : Program)
    (h : (i.run n p s).streams.output = .faultless) :
    i.Next p s n .input ∧ Asks 1 (i.run n p s).machine (i.run (n + 1) p s).machine ∨
      ¬ i.Next p s n .input ∧ Asks 0 (i.run n p s).machine (i.run (n + 1) p s).machine := by
  cases hc : Tape.create i.room i.memorySize with
  | error e =>
    refine Or.inr ⟨?_, ?_⟩
    · rintro ⟨t, -, -, -, hc', -⟩
      rw [hc] at hc'
      cases hc'
    · rw [run_of_create_error hc, run_of_create_error hc]
      exact asks_of_streams rfl
  | ok t =>
    rcases run_succ hc p s n with ⟨hended, hsame⟩ | ⟨-, inner, outer, hwalk, hleaves, -⟩
    · refine Or.inr ⟨fun hnext => hended (ending_of_next hnext), ?_⟩
      rw [hsame]
      exact asks_of_streams rfl
    · rw [next_input_iff hc hwalk, hleaves, hb]
      exact round_asks h inner outer

open Classical in
/-- Without a budget a run has asked for input as often as it has come to an input instruction. -/
theorem reads_run (hb : i.budget = none) (p : Program) (hs : s.output = .faultless) (n : Nat) :
    (i.run n p s).streams.output = .faultless ∧
      (i.run n p s).streams.reads = s.reads + Nat.count (fun j => i.Next p s j .input) n := by
  induction n with
  | zero =>
    rw [streams_run_zero, Nat.count_zero]
    exact ⟨hs, rfl⟩
  | succ n ih =>
    obtain ⟨houtput, hreads⟩ := ih
    rw [Nat.count_succ]
    rcases asks_run hb p houtput with ⟨hnext, hasks⟩ | ⟨hnext, hasks⟩
    · rw [if_pos hnext, ← Nat.add_assoc, ← hreads]
      exact ⟨hasks.output.trans houtput, hasks.reads⟩
    · rw [if_neg hnext, ← Nat.add_assoc, ← hreads]
      exact ⟨hasks.output.trans houtput, hasks.reads⟩

end Interpreter

end Brainfuck
