import Brainfuck.Proofs.Execution.Exchange
import Mathlib.Computability.Language

/-! The calls of a run: one write for each byte, and a flush before each read. -/
namespace Brainfuck

open scoped Computability

/-- What comes before the last call of a list, or is the whole of it. -/
theorem prefix_of_snoc_prefix {α : Type} {early l : List α} {c d : α} (h : early ++ [d] <+: l ++ [c]) :
    early ++ [d] <+: l ∨ early = l ∧ d = c := by
  rcases List.prefix_concat_iff.mp h with heq | hshort
  · exact Or.inr (List.append_inj' heq rfl |>.imp_right (by simp))
  · exact Or.inl hshort

namespace Streams

/-- One of these calls is of this kind and was answered so. -/
def Meets (s : Streams) (calls : List StreamCall) (c : StreamCall) (a : Answer) : Prop :=
  ∃ earlier, earlier ++ [c] <+: calls ∧ s.answer earlier c = a

/-- The calls of one instruction that does not fail. -/
def phrases (s : Streams) : Language StreamCall :=
  if s.output.canFlush then {[.write]} + {[.flush, .read]} else {[.write]} + {[.read]}

/-- No call has failed so far, and no flush is left without a read. -/
structure Fluent (s : Streams) (calls : List StreamCall) : Prop where
  phrases : calls ∈ s.phrases∗
  good : ∀ earlier c, earlier ++ [c] <+: calls → (s.answer earlier c).error c = none
  closed : ∀ earlier, calls ≠ earlier ++ [.flush]

variable {s t u : Streams} {c d : StreamCall} {calls earlier : List StreamCall}

theorem fluent_start (s : Streams) : s.Fluent [] where
  phrases := Language.nil_mem_kstar _
  good _ _ h := by simp at h
  closed _ h := by simp at h

theorem append_mem_phrases (h : calls ∈ s.phrases∗) {more : List StreamCall} (hm : more ∈ s.phrases) :
    calls ++ more ∈ s.phrases∗ := by
  have hle : s.phrases∗ * s.phrases ≤ s.phrases∗ := kstar_mul_le_kstar
  exact hle (Language.append_mem_mul h hm)

/-- The calls up to the one that an instruction comes to have not failed. -/
theorem good_of_comes (h : Comes s t c u) (ht : s.Fluent t.calls.toList)
    (hearlier : earlier ++ [d] <+: u.calls.toList) : (s.answer earlier d).error d = none := by
  cases h with
  | write | flush | read => exact ht.good _ _ hearlier
  | flushed able answer =>
    rw [calls_called] at hearlier
    rcases prefix_of_snoc_prefix hearlier with hbefore | ⟨rfl, rfl⟩
    · exact ht.good _ _ hbefore
    · rw [answer]
      rfl

/-- With a call that is not a flush an instruction has said all it has to say. -/
theorem phrases_of_comes (h : Comes s t c u) (ht : s.Fluent t.calls.toList) (hc : c ≠ .flush) :
    u.calls.toList ++ [c] ∈ s.phrases∗ := by
  cases h with
  | write =>
    apply append_mem_phrases ht.phrases
    unfold phrases
    split <;> exact Or.inl rfl
  | flush => exact (hc rfl).elim
  | read unable =>
    apply append_mem_phrases ht.phrases
    rw [phrases, unable]
    exact Or.inr rfl
  | flushed able =>
    rw [calls_called, List.append_assoc]
    apply append_mem_phrases ht.phrases
    rw [phrases, able]
    exact Or.inr rfl

theorem fluent_of_comes (h : Comes s t c u) (ht : s.Fluent t.calls.toList) (hc : c ≠ .flush)
    (hgood : (s.answer u.calls.toList c).error c = none) : s.Fluent (u.called c).calls.toList := by
  rw [calls_called]
  refine ⟨phrases_of_comes h ht hc, fun earlier d hd => ?_, fun earlier heq => ?_⟩
  · rcases prefix_of_snoc_prefix hd with hbefore | ⟨rfl, rfl⟩
    · exact good_of_comes h ht hbefore
    · exact hgood
  · obtain ⟨-, hlast⟩ := List.append_inj' heq rfl
    exact hc (List.singleton_inj.mp hlast)

end Streams

namespace Machine

variable {s : Streams} {m m' : Machine} {e : Option RunError}

/-- At this call the machine fails. -/
structure FailsAt (s : Streams) (m m' : Machine) (c : StreamCall) (u : Streams) (x : RunError) :
    Prop where
  comes : Streams.Comes s m.streams c u
  error : (s.answer u.calls.toList c).error c = some x
  tape : m'.tape = m.tape
  streams : m'.streams = u.called c

theorem calls_of_fails {c : StreamCall} {u : Streams} {x : RunError} (h : FailsAt s m m' c u x) :
    m'.streams.calls.toList = u.calls.toList ++ [c] := by
  rw [h.streams, Streams.calls_called]

/-- Calls that have not failed go on so, or the last one fails. -/
theorem fluent_of_turn (h : Turn s m m' e) (hm : s.Fluent m.streams.calls.toList) :
    s.Fluent m'.streams.calls.toList ∧ (∀ x ∈ e, ¬ x.OfStreams) ∨
      ∃ c u x, e = some x ∧ FailsAt s m m' c u x := by
  cases h with
  | quiet streams other => exact Or.inl ⟨by rwa [streams], other⟩
  | wrote answer shown tape streams =>
    refine Or.inl ⟨?_, by rintro _ ⟨⟩⟩
    rw [streams, Streams.calls_keep]
    exact Streams.fluent_of_comes .write hm (by decide) (by rw [answer]; rfl)
  | got comes answer place stored streams =>
    refine Or.inl ⟨?_, by rintro _ ⟨⟩⟩
    rw [streams]
    exact Streams.fluent_of_comes comes hm (by decide) (by rw [answer]; rfl)
  | fails comes error tape streams =>
    exact Or.inr ⟨_, _, _, rfl, comes, error, tape, streams⟩

end Machine

namespace Interpreter

open Machine

variable {i : Interpreter} {p : Program} {s : Streams} {t : Tape} {n : Nat}

/-- Either no call has failed, or one has, and the run ended there. -/
theorem run_fluent_or_fails (hs : s.Unused) (hroom : i.room ≤ maxIndex) (p : Program) (n : Nat) :
    s.Fluent (i.run n p s).streams.calls.toList ∧
        (∀ x, (i.run n p s).ending = .failed x → ¬ x.OfStreams) ∨
      ∃ j < n, s.Fluent (i.run j p s).streams.calls.toList ∧
        (i.run j p s).ending = .unfinished ∧ i.run (j + 1) p s = i.run n p s ∧
        ∃ c u x, (i.run n p s).ending = .failed x ∧
          FailsAt s (i.run j p s).machine (i.run n p s).machine c u x := by
  induction n with
  | zero =>
    refine Or.inl ⟨?_, fun x hx => ?_⟩
    · rw [streams_run_zero, hs.calls]
      exact Streams.fluent_start s
    · cases hc : Tape.create i.room i.memorySize with
      | error e =>
        rw [run_of_create_error hc] at hx
        cases hx
        exact id
      | ok t =>
        rw [run_of_create_ok hc] at hx
        cases hx
  | succ n ih =>
    cases run_proceeds hs hroom p n with
    | ended same =>
      rw [same]
      rcases ih with hfluent | ⟨j, hj, hfails⟩
      · exact Or.inl hfluent
      · exact Or.inr ⟨j, by omega, hfails⟩
    | turn going place turn fails =>
      rcases ih with ⟨hfluent, -⟩ | ⟨j, hj, -, -, -, c, u, x, hx, -⟩
      · rcases fluent_of_turn turn hfluent with ⟨hnext, hother⟩ | ⟨c, u, x, rfl, hfails⟩
        · exact Or.inl ⟨hnext, fun x hx => hother x ((fails x).mp hx)⟩
        · exact Or.inr ⟨n, by omega, hfluent, going, rfl, c, u, x, (fails x).mpr rfl, hfails⟩
      · rw [hx] at going
        cases going

end Interpreter

end Brainfuck
