import Brainfuck.Proofs.Execution.Conversation

/-! What the bytes that a run writes and reads have to do with its tape, and how its calls end it. -/
namespace Brainfuck

open scoped Computability

namespace Streams

variable {s t u : Streams} {c d : StreamCall} {earlier : List StreamCall} {a : Answer} {f : Fault}

theorem calls_of_comes (h : Comes s t c u) : t.calls.toList <+: u.calls.toList := by
  cases h with
  | write | flush | read => exact List.prefix_rfl
  | flushed =>
    rw [calls_called]
    exact List.prefix_append _ _

theorem written_of_comes (h : Comes s t c u) : u.written = t.written := by
  cases h with
  | write | flush | read => rfl
  | flushed => exact written_called t .flush

/-- But for the flush before a read, the only new call is the one that the instruction comes to. -/
theorem new_of_comes (h : Comes s t c u) (hd : d ≠ .flush)
    (hnew : earlier ++ [d] <+: u.calls.toList ++ [c]) (hold : ¬ earlier ++ [d] <+: t.calls.toList) :
    earlier = u.calls.toList ∧ d = c := by
  rcases prefix_of_snoc_prefix hnew with hbefore | hlast
  · cases h with
    | write | flush | read => exact (hold hbefore).elim
    | flushed =>
      rw [calls_called] at hbefore
      rcases prefix_of_snoc_prefix hbefore with hbefore | ⟨-, hflush⟩
      · exact (hold hbefore).elim
      · exact (hd hflush).elim
  · exact hlast

theorem error_of_system (c : StreamCall) (hf : f.isSystem = true) :
    (Answer.fault f).error c = some (c.wrap f) :=
  congrArg some (if_pos hf)

theorem error_of_value (c : StreamCall) (hf : f.isSystem = false) :
    (Answer.fault f).error c = some (.raised f) :=
  congrArg some (if_neg (by simp [hf]))

theorem wrap_eq_wrap {g : Fault} : c.wrap f = d.wrap g ↔ c = d ∧ f = g := by
  cases c <;> cases d <;> simp [StreamCall.wrap]

theorem wrap_ne_raised {g : Fault} : c.wrap f ≠ .raised g := by
  cases c <;> simp [StreamCall.wrap]

theorem wrap_ne_endOfInput : c.wrap f ≠ .endOfInput := by
  cases c <;> simp [StreamCall.wrap]

theorem error_eq_wrap : a.error c = some (d.wrap f) ↔ c = d ∧ a = .fault f ∧ f.isSystem = true := by
  cases a with
  | done | byte => simp [Answer.error]
  | ended => simpa [Answer.error] using wrap_ne_endOfInput.symm
  | fault g =>
    cases hg : g.isSystem with
    | false =>
      rw [error_of_value c hg]
      refine ⟨fun h => (wrap_ne_raised (Option.some_inj.mp h).symm).elim, ?_⟩
      rintro ⟨-, ⟨⟩, hf⟩
      rw [hg] at hf
      cases hf
    | true =>
      rw [error_of_system c hg, Option.some_inj, wrap_eq_wrap]
      constructor
      · rintro ⟨rfl, rfl⟩
        exact ⟨rfl, rfl, hg⟩
      · rintro ⟨rfl, ⟨⟩, -⟩
        exact ⟨rfl, rfl⟩

theorem error_eq_raised : a.error c = some (.raised f) ↔ a = .fault f ∧ f.isSystem = false := by
  cases a with
  | done | byte | ended => simp [Answer.error]
  | fault g =>
    cases hg : g.isSystem with
    | false =>
      rw [error_of_value c hg]
      constructor
      · rintro ⟨⟩
        exact ⟨rfl, hg⟩
      · rintro ⟨⟨⟩, -⟩
        rfl
    | true =>
      rw [error_of_system c hg]
      refine ⟨fun h => (wrap_ne_raised (Option.some_inj.mp h)).elim, ?_⟩
      rintro ⟨⟨⟩, hf⟩
      rw [hg] at hf
      cases hf

theorem error_eq_endOfInput : a.error c = some .endOfInput ↔ a = .ended := by
  cases a with
  | done | byte | ended => simp [Answer.error]
  | fault g =>
    cases hg : g.isSystem with
    | false => simp [error_of_value c hg]
    | true => simpa [error_of_system c hg] using wrap_ne_endOfInput

/-- Only reads come to the end of the stream. -/
theorem read_of_ended (h : s.answer earlier c = .ended) : c = .read := by
  cases c with
  | write => rcases answer_write s earlier with hdone | ⟨f, hf⟩ <;> simp_all
  | flush => rcases answer_flush s earlier with hdone | ⟨f, hf⟩ <;> simp_all
  | read => rfl

end Streams

namespace Machine

variable {s : Streams} {m m' : Machine} {e : Option RunError} {k : Nat} {earlier : List StreamCall}
  {v : UInt8}

/-- Nothing happens to the streams but that a byte is written. -/
def Puts (s : Streams) (m m' : Machine) : Prop :=
  m'.streams.calls.toList = m.streams.calls.toList ++ [.write] ∧
    s.answer m.streams.calls.toList .write = .done

instance (s : Streams) (m m' : Machine) : Decidable (Puts s m m') :=
  inferInstanceAs (Decidable (_ ∧ _))

theorem not_puts_of_comes {c : StreamCall} {u : Streams} (h : Streams.Comes s m.streams c u)
    (hcalls : m'.streams.calls.toList = u.calls.toList ++ [c])
    (hc : c = .write → s.answer u.calls.toList c ≠ .done) : ¬ Puts s m m' := by
  rintro ⟨hput, hdone⟩
  rw [hcalls] at hput
  obtain ⟨hbefore, hlast⟩ := List.append_inj' hput rfl
  obtain rfl := List.singleton_inj.mp hlast
  exact hc rfl (hbefore ▸ hdone)

/-- A byte that is kept is the one under the cursor. -/
theorem written_of_turn (h : Turn s m m' e) (hplace : m.tape.place = .ok k) :
    Puts s m m' ∧ m'.streams.written.toList = m.streams.written.toList ++ [m.tape.cell k] ∨
      ¬ Puts s m m' ∧ m'.streams.written = m.streams.written := by
  cases h with
  | quiet streams =>
    refine Or.inr ⟨?_, by rw [streams]⟩
    rintro ⟨hput, -⟩
    simp [streams] at hput
  | @wrote v answer shown tape streams =>
    rw [Tape.read_of_place hplace] at shown
    cases shown
    refine Or.inl ⟨⟨?_, answer⟩, ?_⟩
    · rw [streams, Streams.calls_keep, Streams.calls_called]
    · rw [streams, Streams.written_keep, Streams.written_called]
  | got comes answer place stored streams =>
    refine Or.inr ⟨?_, ?_⟩
    · exact not_puts_of_comes comes (by rw [streams, Streams.calls_called]) (by rintro ⟨⟩)
    · rw [streams, Streams.written_called, Streams.written_of_comes comes]
  | @fails c u x comes error tape streams =>
    refine Or.inr ⟨?_, ?_⟩
    · refine not_puts_of_comes comes (by rw [streams, Streams.calls_called]) fun _ hdone => ?_
      rw [hdone] at error
      cases error
    · rw [streams, Streams.written_called, Streams.written_of_comes comes]

/-- A write that is done is all that its turn says. -/
theorem puts_of_turn (h : Turn s m m' e) (hnew : earlier ++ [.write] <+: m'.streams.calls.toList)
    (hold : ¬ earlier ++ [.write] <+: m.streams.calls.toList)
    (hdone : s.answer earlier .write = .done) :
    m.streams.calls.toList = earlier ∧ Puts s m m' := by
  cases h with
  | quiet streams => exact (hold (streams ▸ hnew)).elim
  | wrote answer shown tape streams =>
    rw [streams, Streams.calls_keep, Streams.calls_called] at hnew
    obtain ⟨rfl, -⟩ := Streams.new_of_comes (s := s) .write (by decide) hnew hold
    exact ⟨rfl, by rw [streams, Streams.calls_keep, Streams.calls_called], answer⟩
  | got comes answer place stored streams =>
    rw [streams, Streams.calls_called] at hnew
    obtain ⟨-, ⟨⟩⟩ := Streams.new_of_comes comes (by decide) hnew hold
  | fails comes error tape streams =>
    rw [streams, Streams.calls_called] at hnew
    obtain ⟨rfl, rfl⟩ := Streams.new_of_comes comes (by decide) hnew hold
    rw [hdone] at error
    cases error

/-- A byte that is read is stored in the same turn. -/
theorem stored_of_turn (h : Turn s m m' e) (hplace : m.tape.place = .ok k)
    (hnew : earlier ++ [.read] <+: m'.streams.calls.toList)
    (hold : ¬ earlier ++ [.read] <+: m.streams.calls.toList)
    (hbyte : s.answer earlier .read = .byte v) :
    m.streams.calls.toList <+: earlier ∧ m'.streams.calls.toList = earlier ++ [.read] ∧
      m.tape.Writes k v m'.tape := by
  cases h with
  | quiet streams => exact (hold (streams ▸ hnew)).elim
  | wrote answer shown tape streams =>
    rw [streams, Streams.calls_keep, Streams.calls_called] at hnew
    obtain ⟨-, ⟨⟩⟩ := Streams.new_of_comes (s := s) .write (by decide) hnew hold
  | got comes answer place stored streams =>
    rw [streams, Streams.calls_called] at hnew
    obtain ⟨rfl, -⟩ := Streams.new_of_comes comes (by decide) hnew hold
    rw [hplace] at place
    rw [hbyte] at answer
    cases place
    cases answer
    exact ⟨Streams.calls_of_comes comes, by rw [streams, Streams.calls_called], stored⟩
  | fails comes error tape streams =>
    rw [streams, Streams.calls_called] at hnew
    obtain ⟨rfl, rfl⟩ := Streams.new_of_comes comes (by decide) hnew hold
    rw [hbyte] at error
    cases error

end Machine

namespace Interpreter

open Machine

variable {i : Interpreter} {p : Program} {s : Streams} {n : Nat} {c : StreamCall}
  {earlier : List StreamCall} {v : UInt8} {x : RunError}

/-- The next round of the run writes the byte under the cursor. -/
def Puts (i : Interpreter) (p : Program) (s : Streams) (n : Nat) : Prop :=
  Machine.Puts s (i.run n p s).machine (i.run (n + 1) p s).machine

instance (i : Interpreter) (p : Program) (s : Streams) (n : Nat) : Decidable (i.Puts p s n) :=
  inferInstanceAs (Decidable (Machine.Puts _ _ _))

/-- The bytes under the cursor where one is written, in order. -/
def shown (i : Interpreter) (p : Program) (s : Streams) (n : Nat) : List UInt8 :=
  ((List.range n).filter fun j => i.Puts p s j).map fun j =>
    (i.run j p s).interpreter.tape.cell (i.run j p s).interpreter.tape.cursor.toNat

theorem shown_of_puts (h : i.Puts p s n) :
    i.shown p s (n + 1) = i.shown p s n ++
      [(i.run n p s).interpreter.tape.cell (i.run n p s).interpreter.tape.cursor.toNat] := by
  simp [shown, List.range_succ, h]

theorem shown_of_not_puts (h : ¬ i.Puts p s n) : i.shown p s (n + 1) = i.shown p s n := by
  simp [shown, List.range_succ, h]

theorem written_run (hs : s.Unused) (hroom : i.room ≤ maxIndex) (p : Program) (n : Nat) :
    (i.run n p s).streams.written.toList = i.shown p s n := by
  induction n with
  | zero =>
    rw [streams_run_zero, hs.written]
    rfl
  | succ n ih =>
    cases run_proceeds hs hroom p n with
    | ended same =>
      have hnot : ¬ i.Puts p s n := by
        rintro ⟨hput, -⟩
        rw [same] at hput
        simp at hput
      rw [shown_of_not_puts hnot, same, ih]
    | turn going place turn fails =>
      rcases written_of_turn turn place with ⟨hput, hwritten⟩ | ⟨hnot, hwritten⟩
      · rw [shown_of_puts hput, ← ih]
        exact hwritten
      · rw [shown_of_not_puts hnot, ← ih]
        exact congrArg Array.toList hwritten

/-- Every call is made in some round. -/
theorem exists_round (hs : s.Unused) (h : earlier ++ [c] <+: (i.run n p s).streams.calls.toList) :
    ∃ j < n, earlier ++ [c] <+: (i.run (j + 1) p s).streams.calls.toList ∧
      ¬ earlier ++ [c] <+: (i.run j p s).streams.calls.toList := by
  induction n with
  | zero =>
    rw [streams_run_zero, hs.calls] at h
    simp at h
  | succ n ih =>
    by_cases hn : earlier ++ [c] <+: (i.run n p s).streams.calls.toList
    · obtain ⟨j, hj, hround⟩ := ih hn
      exact ⟨j, by omega, hround⟩
    · exact ⟨n, by omega, h, hn⟩

/-- Every write that is done is the only call of some round. -/
theorem puts_of_write (hs : s.Unused) (hroom : i.room ≤ maxIndex)
    (h : earlier ++ [.write] <+: (i.run n p s).streams.calls.toList)
    (hdone : s.answer earlier .write = .done) :
    ∃ j < n, (i.run j p s).streams.calls.toList = earlier ∧ i.Puts p s j := by
  obtain ⟨j, hj, hnew, hold⟩ := exists_round hs h
  cases run_proceeds hs hroom p j with
  | ended same =>
    rw [same] at hnew
    exact (hold hnew).elim
  | turn going place turn fails =>
    obtain ⟨hcalls, hput⟩ := puts_of_turn turn hnew hold hdone
    exact ⟨j, hj, hcalls, hput⟩

/-- Every byte that is read is stored under the cursor in the same round. -/
theorem stored_of_read (hs : s.Unused) (hroom : i.room ≤ maxIndex)
    (h : earlier ++ [.read] <+: (i.run n p s).streams.calls.toList)
    (hbyte : s.answer earlier .read = .byte v) :
    ∃ j < n, (i.run j p s).streams.calls.toList <+: earlier ∧
      (i.run (j + 1) p s).streams.calls.toList = earlier ++ [.read] ∧
      (i.run j p s).interpreter.tape.Writes (i.run j p s).interpreter.tape.cursor.toNat v
        (i.run (j + 1) p s).interpreter.tape := by
  obtain ⟨j, hj, hnew, hold⟩ := exists_round hs h
  cases run_proceeds hs hroom p j with
  | ended same =>
    rw [same] at hnew
    exact (hold hnew).elim
  | turn going place turn fails => exact ⟨j, hj, stored_of_turn turn place hnew hold hbyte⟩

/-- Only the last call can have failed. -/
theorem good_of_earlier (hs : s.Unused) (hroom : i.room ≤ maxIndex)
    (h : earlier ++ [c] <+: (i.run n p s).streams.calls.toList)
    (hne : earlier ++ [c] ≠ (i.run n p s).streams.calls.toList) :
    (s.answer earlier c).error c = none := by
  rcases run_fluent_or_fails hs hroom p n with ⟨hfluent, -⟩ | ⟨j, -, hfluent, -, -, d, u, x, -, hfails⟩
  · exact hfluent.good _ _ h
  · have hcalls : (i.run n p s).streams.calls.toList = u.calls.toList ++ [d] :=
      calls_of_fails hfails
    rw [hcalls] at h hne
    rcases prefix_of_snoc_prefix h with hbefore | ⟨rfl, rfl⟩
    · exact Streams.good_of_comes hfails.comes hfluent hbefore
    · exact (hne rfl).elim

/-- A run fails for its streams exactly if one of its calls has an answer that makes this error. -/
theorem failed_iff (hs : s.Unused) (hroom : i.room ≤ maxIndex) (hx : x.OfStreams) :
    (i.run n p s).ending = .failed x ↔
      ∃ earlier c, earlier ++ [c] <+: (i.run n p s).streams.calls.toList ∧
        (s.answer earlier c).error c = some x := by
  rcases run_fluent_or_fails hs hroom p n with
    ⟨hfluent, hother⟩ | ⟨j, -, hfluent, -, -, d, u, y, hending, hfails⟩
  · constructor
    · intro h
      exact (hother x h hx).elim
    · rintro ⟨earlier, c, hearlier, herror⟩
      rw [hfluent.good _ _ hearlier] at herror
      cases herror
  · have hcalls : (i.run n p s).streams.calls.toList = u.calls.toList ++ [d] :=
      calls_of_fails hfails
    rw [hending, hcalls]
    constructor
    · rintro ⟨⟩
      exact ⟨_, _, List.prefix_rfl, hfails.error⟩
    · rintro ⟨earlier, c, hearlier, herror⟩
      rcases prefix_of_snoc_prefix hearlier with hbefore | ⟨rfl, rfl⟩
      · rw [Streams.good_of_comes hfails.comes hfluent hbefore] at herror
        cases herror
      · rw [hfails.error] at herror
        cases herror
        rfl

/-- The calls are those of whole instructions, but for one flush that may have failed. -/
theorem run_phrases (hs : s.Unused) (hroom : i.room ≤ maxIndex) (p : Program) (n : Nat) :
    (i.run n p s).streams.calls.toList ∈ s.phrases∗ ∧
        (∀ earlier, (i.run n p s).streams.calls.toList ≠ earlier ++ [.flush]) ∨
      s.output.canFlush = true ∧ ∃ earlier ∈ s.phrases∗,
        (i.run n p s).streams.calls.toList = earlier ++ [.flush] ∧
        ∃ f, s.answer earlier .flush = .fault f := by
  rcases run_fluent_or_fails hs hroom p n with ⟨hfluent, -⟩ | ⟨j, -, hfluent, -, -, d, u, x, -, hfails⟩
  · exact Or.inl ⟨hfluent.phrases, hfluent.closed⟩
  · have hcalls : (i.run n p s).streams.calls.toList = u.calls.toList ++ [d] := calls_of_fails hfails
    have hcomes := hfails.comes
    rw [hcalls]
    by_cases hd : d = .flush
    · subst hd
      cases hcomes with
      | flush able =>
        refine Or.inr ⟨able, _, hfluent.phrases, rfl, ?_⟩
        have herror := hfails.error
        rcases Streams.answer_flush s (i.run j p s).streams.calls.toList with hdone | hfault
        · change (s.answer (i.run j p s).streams.calls.toList .flush).error .flush = some x at herror
          rw [hdone] at herror
          cases herror
        · exact hfault
    · refine Or.inl ⟨Streams.phrases_of_comes hcomes hfluent hd, fun earlier heq => ?_⟩
      obtain ⟨-, hlast⟩ := List.append_inj' heq rfl
      exact hd (List.singleton_inj.mp hlast)

theorem mem_of_flushing (hs : s.Unused) (hroom : i.room ≤ maxIndex) (p : Program) (n : Nat)
    (hable : s.output.canFlush = true) :
    (i.run n p s).streams.calls.toList ∈
      (({[.write]} + {[.flush, .read]})∗ * (1 + {[.flush]}) : Language StreamCall) := by
  have hunit : s.phrases = {[.write]} + {[.flush, .read]} := if_pos hable
  have hphrases := run_phrases hs hroom p n
  rw [hunit] at hphrases
  rcases hphrases with ⟨hmem, -⟩ | ⟨-, earlier, hmem, hcalls, -⟩
  · exact Language.mem_mul.mpr ⟨_, hmem, [], Or.inl rfl, List.append_nil _⟩
  · exact Language.mem_mul.mpr ⟨_, hmem, [.flush], Or.inr rfl, hcalls.symm⟩

theorem mem_of_unflushed (hs : s.Unused) (hroom : i.room ≤ maxIndex) (p : Program) (n : Nat)
    (hunable : s.output.canFlush = false) :
    (i.run n p s).streams.calls.toList ∈ (({[.write]} + {[.read]})∗ : Language StreamCall) := by
  have hunit : s.phrases = {[.write]} + {[.read]} := if_neg (by simp [hunable])
  have hphrases := run_phrases hs hroom p n
  rw [hunit] at hphrases
  rcases hphrases with ⟨hmem, -⟩ | ⟨hable, -⟩
  · exact hmem
  · rw [hunable] at hable
    cases hable

/-- A flush is the last call exactly where it raised a fault. -/
theorem loneFlush_iff (hs : s.Unused) (hroom : i.room ≤ maxIndex) (p : Program) (n : Nat) :
    (∃ earlier, (i.run n p s).streams.calls.toList = earlier ++ [.flush]) ↔
      ∃ f, s.Meets (i.run n p s).streams.calls.toList .flush (.fault f) := by
  constructor
  · rintro ⟨earlier, hcalls⟩
    rcases run_phrases hs hroom p n with ⟨-, hclosed⟩ | ⟨-, before, -, hlast, f, hf⟩
    · exact (hclosed earlier hcalls).elim
    · exact ⟨f, before, by rw [hlast], hf⟩
  · rintro ⟨f, earlier, hearlier, hf⟩
    by_cases hlast : earlier ++ [.flush] = (i.run n p s).streams.calls.toList
    · exact ⟨earlier, hlast.symm⟩
    · have hgood := good_of_earlier hs hroom hearlier hlast
      rw [hf] at hgood
      cases hgood

theorem wrapped_iff (hs : s.Unused) (hroom : i.room ≤ maxIndex) (p : Program) (n : Nat)
    (c : StreamCall) (f : Fault) :
    (i.run n p s).ending = .failed (c.wrap f) ↔
      f.isSystem = true ∧ s.Meets (i.run n p s).streams.calls.toList c (.fault f) := by
  rw [failed_iff hs hroom (by cases c <;> trivial)]
  simp only [Streams.error_eq_wrap]
  constructor
  · rintro ⟨earlier, c, hearlier, rfl, hf, hsystem⟩
    exact ⟨hsystem, earlier, hearlier, hf⟩
  · rintro ⟨hsystem, earlier, hearlier, hf⟩
    exact ⟨earlier, c, hearlier, rfl, hf, hsystem⟩

theorem endOfInput_iff (hs : s.Unused) (hroom : i.room ≤ maxIndex) (p : Program) (n : Nat) :
    (i.run n p s).ending = .failed .endOfInput ↔
      s.Meets (i.run n p s).streams.calls.toList .read .ended := by
  rw [failed_iff (x := .endOfInput) hs hroom trivial]
  simp only [Streams.error_eq_endOfInput]
  constructor
  · rintro ⟨earlier, c, hearlier, hended⟩
    obtain rfl := Streams.read_of_ended hended
    exact ⟨earlier, hearlier, hended⟩
  · rintro ⟨earlier, hearlier, hended⟩
    exact ⟨earlier, _, hearlier, hended⟩

/-- A fault that is not of the system passes through, whatever the call. -/
theorem raised_iff (hs : s.Unused) (hroom : i.room ≤ maxIndex) (p : Program) (n : Nat) (f : Fault) :
    (i.run n p s).ending = .failed (.raised f) ↔
      f.isSystem = false ∧ ∃ c, s.Meets (i.run n p s).streams.calls.toList c (.fault f) := by
  rw [failed_iff (x := .raised f) hs hroom trivial]
  simp only [Streams.error_eq_raised]
  constructor
  · rintro ⟨earlier, c, hearlier, hf, hvalue⟩
    exact ⟨hvalue, c, earlier, hearlier, hf⟩
  · rintro ⟨hvalue, c, earlier, hearlier, hf⟩
    exact ⟨earlier, c, hearlier, hf, hvalue⟩

theorem tape_of_failed (hs : s.Unused) (hroom : i.room ≤ maxIndex)
    (hx : (i.run n p s).ending = .failed x) (hof : x.OfStreams) :
    ∃ j < n, i.run (j + 1) p s = i.run n p s ∧
      (∃ a, i.Next p s j a ∧ (a = .output ∨ a = .input)) ∧
      (i.run n p s).interpreter.tape = (i.run j p s).interpreter.tape ∧
      ∃ earlier c, (i.run j p s).streams.calls.toList <+: earlier ∧
        (i.run n p s).streams.calls.toList = earlier ++ [c] ∧
        (s.answer earlier c).error c = some x := by
  rcases run_fluent_or_fails hs hroom p n with
    ⟨-, hother⟩ | ⟨j, hj, -, hgoing, hnext, c, u, y, hy, hfails⟩
  · exact (hother x hx hof).elim
  · rw [hy] at hx
    cases hx
    have hinstruction := next_of_failed hgoing (by rw [hnext, hy]) hof
    exact ⟨j, hj, hnext, hinstruction, hfails.tape, _, c, Streams.calls_of_comes hfails.comes,
      calls_of_fails hfails, hfails.error⟩

/-- What the calls of a run, its output, its cells and the way it fails have to do with each other. -/
structure Disciplined (i : Interpreter) (p : Program) (s : Streams) (n : Nat) : Prop where
  /-- Each read comes right after a flush, and only the last flush can be without a read. -/
  flushing : s.output.canFlush = true →
    (i.run n p s).streams.calls.toList ∈
      (({[.write]} + {[.flush, .read]})∗ * (1 + {[.flush]}) : Language StreamCall)
  unflushed : s.output.canFlush = false →
    (i.run n p s).streams.calls.toList ∈ (({[.write]} + {[.read]})∗ : Language StreamCall)
  /-- Only the last call can have failed. -/
  good : ∀ earlier c, earlier ++ [c] <+: (i.run n p s).streams.calls.toList →
    earlier ++ [c] ≠ (i.run n p s).streams.calls.toList → (s.answer earlier c).error c = none
  loneFlush : (∃ earlier, (i.run n p s).streams.calls.toList = earlier ++ [.flush]) ↔
    ∃ f, s.Meets (i.run n p s).streams.calls.toList .flush (.fault f)
  /-- The output is what was under the cursor in the rounds of the writes that were done. -/
  written : (i.run n p s).streams.written.toList =
    ((List.range n).filter fun j => i.Puts p s j).map fun j =>
      (i.run j p s).interpreter.tape.cell (i.run j p s).interpreter.tape.cursor.toNat
  puts : ∀ earlier, earlier ++ [.write] <+: (i.run n p s).streams.calls.toList →
    s.answer earlier .write = .done →
    ∃ j < n, (i.run j p s).streams.calls.toList = earlier ∧ i.Puts p s j
  /-- A read stores the first byte of the supply whose number it is, and changes no other cell. -/
  stored : ∀ earlier v data, earlier ++ [.read] <+: (i.run n p s).streams.calls.toList →
    s.supplies[earlier.count .read]? = some (.bytes (v :: data)) →
    ∃ j < n, (i.run j p s).streams.calls.toList <+: earlier ∧
      (i.run (j + 1) p s).streams.calls.toList = earlier ++ [.read] ∧
      (i.run j p s).interpreter.tape.Writes (i.run j p s).interpreter.tape.cursor.toNat v
        (i.run (j + 1) p s).interpreter.tape
  wrapped : ∀ c f, (i.run n p s).ending = .failed (c.wrap f) ↔
    f.isSystem = true ∧ s.Meets (i.run n p s).streams.calls.toList c (.fault f)
  endOfInput : (i.run n p s).ending = .failed .endOfInput ↔
    s.Meets (i.run n p s).streams.calls.toList .read .ended
  raised : ∀ f, (i.run n p s).ending = .failed (.raised f) ↔
    f.isSystem = false ∧ ∃ c, s.Meets (i.run n p s).streams.calls.toList c (.fault f)
  /-- The instruction whose call fails leaves the tape as it was. -/
  kept : ∀ x, (i.run n p s).ending = .failed x → x.OfStreams →
    ∃ j < n, i.run (j + 1) p s = i.run n p s ∧
      (∃ a, i.Next p s j a ∧ (a = .output ∨ a = .input)) ∧
      (i.run n p s).interpreter.tape = (i.run j p s).interpreter.tape ∧
      ∃ earlier c, (i.run j p s).streams.calls.toList <+: earlier ∧
        (i.run n p s).streams.calls.toList = earlier ++ [c] ∧
        (s.answer earlier c).error c = some x

/-- However many rounds a run has gone, and also where it has ended: its calls are writes, and flushes
before reads; it writes and reads the cell under the cursor; and it fails at a call exactly as the script
answers, with its tape as it was. -/
theorem run_disciplined (hroom : i.room ≤ maxIndex) (p : Program) (supplies : List Supply)
    (output : OutputScript) (n : Nat) : i.Disciplined p (.start supplies output) n where
  flushing := mem_of_flushing (Streams.unused_start supplies output) hroom p n
  unflushed := mem_of_unflushed (Streams.unused_start supplies output) hroom p n
  good _ _ := good_of_earlier (Streams.unused_start supplies output) hroom
  loneFlush := loneFlush_iff (Streams.unused_start supplies output) hroom p n
  written := written_run (Streams.unused_start supplies output) hroom p n
  puts _ := puts_of_write (Streams.unused_start supplies output) hroom
  stored _ _ _ hearlier hsupply :=
    stored_of_read (Streams.unused_start supplies output) hroom hearlier
      (by rw [Streams.answer, hsupply]; rfl)
  wrapped := wrapped_iff (Streams.unused_start supplies output) hroom p n
  endOfInput := endOfInput_iff (Streams.unused_start supplies output) hroom p n
  raised := raised_iff (Streams.unused_start supplies output) hroom p n
  kept _ := tape_of_failed (Streams.unused_start supplies output) hroom

/-- A loop that copies its input fails at its third flush, with two bytes written and the last one read
still in its cell. -/
theorem run_disciplined_failing :
    ∃ p s r f, Program.parse ",[.,]" = .ok p ∧
      s = .start [.bytes [2, 9], .bytes [1]] ⟨fun _ => none, fun k => if k = 2 then some f else none, true⟩ ∧
      (single Tape.usualRoom (by decide)).Disciplined p s 12 ∧
      (single Tape.usualRoom (by decide)).run 12 p s = r ∧
      r.ending = .failed (.cannotFlush f) ∧ s.Meets r.streams.calls.toList .flush (.fault f) ∧
      r.streams.calls.toList = [.flush, .read, .write, .flush, .read, .write, .flush] ∧
      r.streams.written.toList = [2, 1] ∧ r.interpreter.tape.cell 0 = 1 := by
  let p : Program := [.act .input, .loop [.act .output, .act .input]]
  let f : Fault := ⟨.system, some 5, "disk"⟩
  let output : OutputScript := ⟨fun _ => none, fun k => if k = 2 then some f else none, true⟩
  have h := run_disciplined (i := single Tape.usualRoom (by decide)) (by decide) p
    [.bytes [2, 9], .bytes [1]] output 12
  have hending : ((single Tape.usualRoom (by decide)).run 12 p
      (.start [.bytes [2, 9], .bytes [1]] output)).ending = .failed (StreamCall.flush.wrap f) := by
    decide +kernel
  exact ⟨p, _, _, f, by rfl, rfl, h, rfl, hending, ((h.wrapped .flush f).mp hending).2,
    by decide +kernel, by decide +kernel, by decide +kernel⟩

end Interpreter

end Brainfuck
