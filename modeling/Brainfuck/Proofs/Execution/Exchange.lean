import Brainfuck.Proofs.Execution.Bounds
import Brainfuck.Proofs.Execution.Budget
import Brainfuck.Proofs.Execution.Script

/-! What one round of a run has to do with the streams. -/
namespace Brainfuck

/-- It is the streams that made the run fail. -/
def RunError.OfStreams : RunError → Prop
  | .endOfInput => True
  | .cannotRead _ => True
  | .cannotWrite _ => True
  | .cannotFlush _ => True
  | .raised _ => True
  | _ => False

namespace Streams

/-- The streams as a call finds them: as they were, or, if it is a read, after a flush where there can be
one. -/
inductive Comes (s t : Streams) : StreamCall → Streams → Prop
  | write : Comes s t .write t
  | flush (able : s.output.canFlush = true) : Comes s t .flush t
  | read (unable : s.output.canFlush = false) : Comes s t .read t
  | flushed (able : s.output.canFlush = true) (answer : s.answer t.calls.toList .flush = .done) :
    Comes s t .read (t.called .flush)

variable {s t u : Streams} {c d : StreamCall} {earlier : List StreamCall} {e : RunError}

theorem follows_of_comes (h : Comes s t c u) (ht : Follows s t) : Follows s u := by
  cases h with
  | write | flush | read => exact ht
  | flushed => exact follows_called ht .flush

theorem answer_write (s : Streams) (earlier : List StreamCall) :
    s.answer earlier .write = .done ∨ ∃ f, s.answer earlier .write = .fault f := by
  rw [answer]
  cases s.output.writeFault (earlier.count .write) with
  | none => exact Or.inl rfl
  | some f => exact Or.inr ⟨f, rfl⟩

theorem answer_flush (s : Streams) (earlier : List StreamCall) :
    s.answer earlier .flush = .done ∨ ∃ f, s.answer earlier .flush = .fault f := by
  rw [answer]
  cases s.output.flushFault (earlier.count .flush) with
  | none => exact Or.inl rfl
  | some f => exact Or.inr ⟨f, rfl⟩

theorem answer_read (s : Streams) (earlier : List StreamCall) :
    (∃ v, s.answer earlier .read = .byte v) ∨ s.answer earlier .read = .ended ∨
      ∃ f, s.answer earlier .read = .fault f := by
  rw [answer]
  generalize s.supplies[earlier.count .read]? = supply
  rcases supply with _ | ⟨_ | ⟨v, data⟩⟩ | f
  · exact Or.inr (Or.inl rfl)
  · exact Or.inr (Or.inl rfl)
  · exact Or.inl ⟨v, rfl⟩
  · exact Or.inr (Or.inr ⟨f, rfl⟩)

end Streams

namespace Machine

/-- What a round does: it leaves the streams alone, or writes the byte under the cursor, or reads a byte
and stores it there, or fails at a call and leaves the tape alone. -/
inductive Turn (s : Streams) (m m' : Machine) : Option RunError → Prop
  | quiet {e} (streams : m'.streams = m.streams) (other : ∀ x ∈ e, ¬ x.OfStreams) : Turn s m m' e
  | wrote {v} (answer : s.answer m.streams.calls.toList .write = .done)
    (shown : Tape.read m.tape = .ok v m.tape) (tape : m'.tape = m.tape)
    (streams : m'.streams = (m.streams.called .write).keep v) : Turn s m m' none
  | got {u v j} (comes : Streams.Comes s m.streams .read u)
    (answer : s.answer u.calls.toList .read = .byte v) (place : m.tape.place = .ok j)
    (stored : m.tape.Writes j v m'.tape) (streams : m'.streams = u.called .read) : Turn s m m' none
  | fails {c u e} (comes : Streams.Comes s m.streams c u)
    (error : (s.answer u.calls.toList c).error c = some e) (tape : m'.tape = m.tape)
    (streams : m'.streams = u.called c) : Turn s m m' (some e)

variable {α β : Type} {s : Streams} {m m' : Machine} {b : Option Int} {e : Option RunError} {j : Nat}

/-- The streams go on as the script says. -/
theorem follows_turn (h : Turn s m m' e) (hs : Streams.Follows s m.streams) :
    Streams.Follows s m'.streams := by
  cases h with
  | quiet streams => exact streams ▸ hs
  | wrote _ _ _ streams =>
    rw [streams]
    exact Streams.follows_keep (Streams.follows_called hs .write) _
  | got comes _ _ _ streams =>
    rw [streams]
    exact Streams.follows_called (Streams.follows_of_comes comes hs) .read
  | fails comes _ _ streams =>
    rw [streams]
    exact Streams.follows_called (Streams.follows_of_comes comes hs) _

theorem bind_of_ok {x : EStateM RunError Machine α} {f : α → EStateM RunError Machine β} {a : α}
    (h : x m = .ok a m') : (x >>= f) m = f a m' := by
  change EStateM.bind x f m = _
  rw [EStateM.bind, h]

theorem bind_of_error {x : EStateM RunError Machine α} {f : α → EStateM RunError Machine β}
    {e : RunError} (h : x m = .error e m') : (x >>= f) m = .error e m' := by
  change EStateM.bind x f m = _
  rw [EStateM.bind, h]

theorem onTape_turn (s : Streams) (x : EStateM TapeError Tape α) (m : Machine) :
    Turn s m (leaves (onTape x m)) (failure (onTape x m)) := by
  rw [onTape_apply]
  cases x m.tape with
  | ok a t => exact .quiet rfl (by rintro _ ⟨⟩)
  | error e t => exact .quiet rfl (by rintro _ ⟨⟩; exact id)

theorem output_turn (hs : Streams.Follows s m.streams) (hplace : m.tape.place = .ok j) :
    Turn s m (leaves (output m)) (failure (output m)) := by
  have hread := Tape.read_of_place hplace
  have hshown : onTape Tape.read m = .ok (m.tape.cell j) m := by rw [onTape_apply, hread]
  have hwrite := Streams.write_eq hs (m.tape.cell j)
  rw [output, bind_of_ok hshown, onStreams_apply, hwrite]
  rcases Streams.answer_write s m.streams.calls.toList with hdone | ⟨f, hf⟩
  · rw [hdone]
    exact .wrote hdone hread rfl rfl
  · rw [hf]
    exact .fails .write (by rw [hf]; rfl) rfl rfl

/-- Reading a byte into the cell under the cursor, once the output is flushed. -/
def take : EStateM RunError Machine Unit := do
  match ← onStreams .cannotRead Streams.read with
  | none => throw .endOfInput
  | some v => onTape (Tape.write v.toNat)

theorem take_turn {m₁ : Machine} (hs : Streams.Follows s m₁.streams)
    (hplace : m₁.tape.place = .ok j) (htape : m₁.tape = m.tape)
    (hcomes : Streams.Comes s m.streams .read m₁.streams) :
    Turn s m (leaves (take m₁)) (failure (take m₁)) := by
  have hread := Streams.read_eq hs
  rcases Streams.answer_read s m₁.streams.calls.toList with ⟨v, hv⟩ | hended | ⟨f, hf⟩
  · rw [hv] at hread
    have hbyte : onStreams .cannotRead Streams.read m₁ =
        .ok (some v) { m₁ with streams := m₁.streams.called .read } := by
      rw [onStreams_apply, hread]
      rfl
    obtain ⟨t, ht, hw⟩ := Tape.write_of_place hplace v
    have htake : take m₁ = .ok () { m₁ with tape := t, streams := m₁.streams.called .read } := by
      rw [take, bind_of_ok hbyte]
      dsimp only
      rw [onTape_apply, ht]
    rw [htake]
    exact .got hcomes hv (htape ▸ hplace) (htape ▸ hw) rfl
  · rw [hended] at hread
    have hnone : onStreams .cannotRead Streams.read m₁ =
        .ok none { m₁ with streams := m₁.streams.called .read } := by
      rw [onStreams_apply, hread]
      rfl
    rw [take, bind_of_ok hnone]
    exact .fails hcomes (by rw [hended]; rfl) htape rfl
  · rw [hf] at hread
    have hfails : onStreams .cannotRead Streams.read m₁ =
        .error (.ofFault .cannotRead f) { m₁ with streams := m₁.streams.called .read } := by
      rw [onStreams_apply, hread]
      rfl
    rw [take, bind_of_error hfails]
    exact .fails hcomes (by rw [hf]; rfl) htape rfl

theorem input_turn (hs : Streams.Follows s m.streams) (hplace : m.tape.place = .ok j) :
    Turn s m (leaves (input m)) (failure (input m)) := by
  have hinput : input = onStreams .cannotFlush Streams.flush >>= fun _ => take := rfl
  rw [hinput]
  cases hable : s.output.canFlush with
  | false =>
    have hflush : onStreams .cannotFlush Streams.flush m = .ok () m := by
      rw [onStreams_apply, Streams.flush_unable hs hable]
    rw [bind_of_ok hflush]
    exact take_turn hs hplace rfl (.read hable)
  | true =>
    have hflush := Streams.flush_eq hs hable
    rcases Streams.answer_flush s m.streams.calls.toList with hdone | ⟨f, hf⟩
    · rw [hdone] at hflush
      have hgoes : onStreams .cannotFlush Streams.flush m =
          .ok () { m with streams := m.streams.called .flush } := by
        rw [onStreams_apply, hflush]
        rfl
      rw [bind_of_ok hgoes]
      exact take_turn (Streams.follows_called hs .flush) hplace rfl (.flushed hable hdone)
    · rw [hf] at hflush
      have hfails : onStreams .cannotFlush Streams.flush m =
          .error (.ofFault .cannotFlush f) { m with streams := m.streams.called .flush } := by
        rw [onStreams_apply, hflush]
        rfl
      rw [bind_of_error hfails]
      exact .fails (.flush hable) (by rw [hf]; rfl) rfl rfl

theorem act_turn (hs : Streams.Follows s m.streams) (hplace : m.tape.place = .ok j) (a : Action) :
    Turn s m (leaves (act a m)) (failure (act a m)) := by
  cases a with
  | apply op n => exact onTape_turn s _ m
  | output => exact output_turn hs hplace
  | input => exact input_turn hs hplace
  | unknown => exact .quiet rfl (by rintro _ ⟨⟩; exact id)

/-- The count of steps has no part in it. -/
theorem turn_of_counted {k : Nat} (h : Turn s { m with steps := k } m' e) : Turn s m m' e := by
  cases h with
  | quiet streams other => exact .quiet streams other
  | wrote answer shown tape streams => exact .wrote answer shown tape streams
  | got comes answer place stored streams => exact .got comes answer place stored streams
  | fails comes error tape streams => exact .fails comes error tape streams

theorem perform_turn (hs : Streams.Follows s m.streams) (hplace : m.tape.place = .ok j) (a : Action) :
    Turn s m (leaves (perform b a m)) (failure (perform b a m)) := by
  rcases countStep_cases b m with hgoes | hstops
  · have hact := act_turn (m := { m with steps := m.steps + 1 }) hs hplace a
    rw [perform, bind_of_ok hgoes]
    exact turn_of_counted hact
  · rw [perform, bind_of_error hstops]
    exact .quiet rfl (by rintro _ ⟨⟩; exact id)

theorem test_turn (s : Streams) (m : Machine) : Turn s m (leaves (test m)) (failure (test m)) := by
  have hread := onTape_turn s Tape.read m
  cases h : onTape Tape.read m with
  | ok v m₁ =>
    rw [h] at hread
    rw [test, bind_of_ok h]
    exact hread
  | error e m₁ =>
    rw [h] at hread
    rw [test, bind_of_error h]
    exact hread

theorem check_turn (s : Streams) (m : Machine) :
    Turn s m (leaves (check b m)) (failure (check b m)) := by
  rcases countStep_cases b m with hgoes | hstops
  · rw [check, bind_of_ok hgoes]
    exact turn_of_counted (test_turn s _)
  · rw [check, bind_of_error hstops]
    exact .quiet rfl (by rintro _ ⟨⟩; exact id)

theorem round_turn (hs : Streams.Follows s m.streams) (hplace : m.tape.place = .ok j) (inner : Frame)
    (outer : List Frame) :
    Turn s m (leaves ((runner b).round inner outer m)) (failure ((runner b).round inner outer m)) := by
  rcases round_cases b inner outer m with hclose | ⟨a, hleaves, hfailure⟩ | ⟨hleaves, hfailure⟩
  · rw [hclose]
    exact .quiet rfl (by rintro _ ⟨⟩)
  · rw [hleaves, hfailure]
    exact perform_turn hs hplace a
  · rw [hleaves, hfailure]
    exact check_turn s m

/-- Only writing and reading come to the streams. -/
theorem error_of_perform {a : Action} {x : RunError} (h : failure (perform b a m) = some x)
    (hx : x.OfStreams) : a = .output ∨ a = .input := by
  rcases countStep_cases b m with hgoes | hstops
  · rw [perform, bind_of_ok hgoes] at h
    cases a with
    | apply op n =>
      rw [act, onTape_apply] at h
      cases ht : Tape.apply op n.val m.tape with
      | ok u t =>
        rw [ht] at h
        cases h
      | error e t =>
        rw [ht] at h
        cases h
        exact hx.elim
    | output => exact Or.inl rfl
    | input => exact Or.inr rfl
    | unknown =>
      cases h
      exact hx.elim
  · rw [perform, bind_of_error hstops] at h
    cases h
    exact hx.elim

theorem error_of_check {x : RunError} (h : failure (check b m) = some x) : ¬ x.OfStreams := by
  rcases countStep_cases b m with hgoes | hstops
  · rw [check, bind_of_ok hgoes] at h
    cases hread : onTape Tape.read { m with steps := m.steps + 1 } with
    | ok v m₁ =>
      rw [test, bind_of_ok hread] at h
      cases h
    | error e m₁ =>
      rw [test, bind_of_error hread] at h
      cases h
      rw [onTape_apply] at hread
      cases ht : Tape.read m.tape with
      | ok v t =>
        rw [ht] at hread
        cases hread
      | error e t =>
        rw [ht] at hread
        cases hread
        exact id
  · rw [check, bind_of_error hstops] at h
    cases h
    exact id

/-- A round that fails at the streams is one of an instruction that writes or reads. -/
theorem error_of_round {inner : Frame} {outer : List Frame} {x : RunError}
    (h : failure ((runner b).round inner outer m) = some x) (hx : x.OfStreams) :
    ∃ a rest loop, inner = ⟨.act a :: rest, loop⟩ ∧ (a = .output ∨ a = .input) := by
  obtain ⟨_ | ⟨a | body, rest⟩, loop⟩ := inner
  · cases loop with
    | none => cases h
    | some body =>
      rw [round_again] at h
      refine (error_of_check (b := b) (m := m) ?_ hx).elim
      rcases hc : check b m with ⟨_ | _, m₁⟩ | ⟨e, m₁⟩ <;> rw [hc] at h <;> exact h
  · refine ⟨a, rest, loop, rfl, error_of_perform (b := b) (m := m) ?_ hx⟩
    rw [round_act] at h
    cases hp : perform b a m <;> rw [hp] at h <;> exact h
  · rw [round_loop] at h
    refine (error_of_check (b := b) (m := m) ?_ hx).elim
    rcases hc : check b m with ⟨_ | _, m₁⟩ | ⟨e, m₁⟩ <;> rw [hc] at h <;> exact h

end Machine

namespace Interpreter

open Machine

variable {i : Interpreter} {p : Program} {s : Streams} {t : Tape} {n : Nat}

/-- One more round of a run: none if it has ended, else one of its walk. -/
theorem run_succ (hc : Tape.create i.room i.memorySize = .ok t) (p : Program) (s : Streams) (n : Nat) :
    (i.run n p s).ending ≠ .unfinished ∧ i.run (n + 1) p s = i.run n p s ∨
      (i.run n p s).ending = .unfinished ∧ ∃ inner outer,
        (runner i.budget).walk n p ⟨t, s, 0⟩ = .ok (inner :: outer) (i.run n p s).machine ∧
        (i.run (n + 1) p s).machine =
          leaves ((runner i.budget).round inner outer (i.run n p s).machine) ∧
        ∀ e, (i.run (n + 1) p s).ending = .failed e ↔
          failure ((runner i.budget).round inner outer (i.run n p s).machine) = some e := by
  by_cases hended : (i.run n p s).ending = .unfinished
  · refine Or.inr ⟨hended, ?_⟩
    rw [run_of_create_ok hc, Visitor.walk] at hended
    cases hw : (runner i.budget).rounds n [⟨p, none⟩] ⟨t, s, 0⟩ with
    | error e m =>
      rw [hw] at hended
      cases hended
    | ok frames m =>
      rw [hw] at hended
      cases frames with
      | nil => cases hended
      | cons inner outer =>
        have hnow : (i.run n p s).machine = m := by rw [machine_run hc, hw]; rfl
        have hone : (runner i.budget).rounds (n + 1) [⟨p, none⟩] ⟨t, s, 0⟩ =
            (runner i.budget).round inner outer m := by
          rw [Visitor.rounds_add, hw]
          dsimp only
          rw [Visitor.rounds]
          cases (runner i.budget).round inner outer m <;> rfl
        refine ⟨inner, outer, ?_, ?_, fun e => ?_⟩
        · rw [hnow, Visitor.walk, hw]
        · rw [machine_run hc, hnow, hone]
        · rw [hnow, run_of_create_ok hc, Visitor.walk, hone]
          cases (runner i.budget).round inner outer m with
          | ok frames m' =>
            constructor
            · dsimp only
              split <;> rintro ⟨⟩
            · rintro ⟨⟩
          | error e' m' =>
            constructor
            · rintro ⟨⟩
              rfl
            · rintro ⟨⟩
              rfl
  · exact Or.inl ⟨hended, run_add hended 1⟩

/-- After these rounds the run comes to this instruction. -/
def Next (i : Interpreter) (p : Program) (s : Streams) (n : Nat) (a : Action) : Prop :=
  ∃ t rest loop outer, Tape.create i.room i.memorySize = .ok t ∧
    (runner i.budget).walk n p ⟨t, s, 0⟩ =
      .ok (⟨.act a :: rest, loop⟩ :: outer) (i.run n p s).machine

theorem next_of_failed {x : RunError} (hgoing : (i.run n p s).ending = .unfinished)
    (hx : (i.run (n + 1) p s).ending = .failed x) (hof : x.OfStreams) :
    ∃ a, i.Next p s n a ∧ (a = .output ∨ a = .input) := by
  cases hc : Tape.create i.room i.memorySize with
  | error e =>
    rw [run_of_create_error hc] at hgoing
    cases hgoing
  | ok t =>
    rcases run_succ hc p s n with ⟨hended, -⟩ | ⟨-, inner, outer, hwalk, -, hfails⟩
    · exact (hended hgoing).elim
    · obtain ⟨a, rest, loop, rfl, ha⟩ := error_of_round ((hfails x).mp hx) hof
      exact ⟨a, ⟨t, rest, loop, outer, hc, hwalk⟩, ha⟩

/-- As long as a run goes on, the cursor is on a cell that has an index. -/
theorem place_run (hc : Tape.create i.room i.memorySize = .ok t) (hroom : i.room ≤ maxIndex)
    (h : (i.run n p s).ending = .unfinished) :
    (i.run n p s).interpreter.tape.place =
      .ok (i.run n p s).interpreter.tape.cursor.toNat := by
  have hfits : ¬ (i.run n p s).ending.IsShortage := by
    rw [h]
    exact id
  have hlength := (i.run n p s).interpreter.tape.length_le
  have hsame := room_run (p := p) (s := s) hc n
  exact Tape.place_of_inBounds ((inBounds_run_iff hc n).mpr hfits) (by omega)

/-- From one round to the next a run has ended, or it takes a turn and fails as the turn does. -/
inductive Proceeds (s : Streams) (r r' : Run) : Prop
  | ended (same : r' = r)
  | turn {e} (going : r.ending = .unfinished)
    (place : r.interpreter.tape.place = .ok r.interpreter.tape.cursor.toNat)
    (turn : Turn s r.machine r'.machine e) (fails : ∀ x, r'.ending = .failed x ↔ e = some x)

theorem proceeds_of_follows (hroom : i.room ≤ maxIndex)
    (hn : Streams.Follows s (i.run n p s).streams) :
    Proceeds s (i.run n p s) (i.run (n + 1) p s) := by
  cases hc : Tape.create i.room i.memorySize with
  | error e => exact .ended (by rw [run_of_create_error hc, run_of_create_error hc])
  | ok t =>
    rcases run_succ hc p s n with ⟨-, hsame⟩ | ⟨hgoing, inner, outer, -, hleaves, hfails⟩
    · exact .ended hsame
    · have hplace := place_run hc hroom hgoing
      have hround := round_turn (b := i.budget) (m := (i.run n p s).machine) hn hplace inner outer
      rw [← hleaves] at hround
      exact .turn hgoing hplace hround hfails

theorem streams_run_zero (i : Interpreter) (p : Program) (s : Streams) : (i.run 0 p s).streams = s := by
  cases hc : Tape.create i.room i.memorySize with
  | error e => rw [run_of_create_error hc]
  | ok t => rw [run_of_create_ok hc]; rfl

/-- After any number of rounds the streams are where their script has them by the calls made. -/
theorem follows_run (hs : s.Unused) (hroom : i.room ≤ maxIndex) (p : Program) (n : Nat) :
    Streams.Follows s (i.run n p s).streams := by
  induction n with
  | zero =>
    rw [streams_run_zero]
    exact Streams.follows_of_unused hs
  | succ n ih =>
    cases proceeds_of_follows hroom ih with
    | ended same => rwa [same]
    | turn _ _ turn _ => exact follows_turn turn ih

theorem run_proceeds (hs : s.Unused) (hroom : i.room ≤ maxIndex) (p : Program) (n : Nat) :
    Proceeds s (i.run n p s) (i.run (n + 1) p s) :=
  proceeds_of_follows hroom (follows_run hs hroom p n)

end Interpreter

end Brainfuck
