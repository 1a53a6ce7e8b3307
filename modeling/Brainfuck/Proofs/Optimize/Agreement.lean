import Brainfuck.Proofs.Execution.Lockstep
import Brainfuck.Proofs.Tape.Merge

/-! Machines that agree on all but how their cells are stored and how many steps they have counted. -/
namespace Brainfuck

namespace Machine

variable {le : Nat → Nat → Prop} {m m' m'' : Machine} {e e' e'' : RunError} {α : Type}

/-- Machines on alike tapes and equal streams; `le` compares their steps. -/
structure Agree (le : Nat → Nat → Prop) (m m' : Machine) : Prop where
  tape : m.tape.Alike m'.tape
  streams : m.streams = m'.streams
  steps : le m.steps m'.steps

/-- Failures that leave equal streams and the same cells. A machine that ran out of memory may have a tape
of another length and cursor, and one that ran off its left end a tape with another cursor. -/
structure FailsLike (le : Nat → Nat → Prop) (e : RunError) (m : Machine) (e' : RunError)
    (m' : Machine) : Prop where
  error : e = e' ∨ e.IsUnderflow ∧ e'.IsUnderflow
  streams : m.streams = m'.streams
  steps : le m.steps m'.steps
  cell : ∀ j, m.tape.cell j = m'.tape.cell j
  length : e ≠ .tape .outOfMemory → m.tape.length = m'.tape.length
  cursor : e ≠ .tape .outOfMemory → ¬ e.IsUnderflow → m.tape.cursor = m'.tape.cursor

/-- A way to compare counts of steps: no more, or no fewer. -/
structure Comparison (le : Nat → Nat → Prop) : Prop where
  refl : ∀ a, le a a
  trans : ∀ a b c, le a b → le b c → le a c
  succ : ∀ a b, le a b → le (a + 1) (b + 1)

theorem comparison_le : Comparison (· ≤ ·) :=
  ⟨Nat.le_refl, fun _ _ _ => Nat.le_trans, fun _ _ => Nat.succ_le_succ⟩

theorem comparison_ge : Comparison (· ≥ ·) :=
  ⟨Nat.le_refl, fun _ _ _ hab hbc => Nat.le_trans hbc hab, fun _ _ => Nat.succ_le_succ⟩

theorem agree_trans (hc : Comparison le) (h : Agree le m m')
    (h' : Agree le m' m'') : Agree le m m'' :=
  ⟨⟨Tape.same_trans h.tape.1 h'.tape.1, h.tape.2⟩, h.streams.trans h'.streams,
    hc.trans _ _ _ h.steps h'.steps⟩

theorem failsLike_trans (hc : Comparison le) (h : FailsLike le e m e' m')
    (h' : FailsLike le e' m' e'' m'') : FailsLike le e m e'' m'' := by
  have herror : e = e' ∨ e.IsUnderflow ∧ e'.IsUnderflow := h.error
  have hmemory : e ≠ .tape .outOfMemory → e' ≠ .tape .outOfMemory := by
    rintro hne rfl
    rcases herror with rfl | ⟨-, hu⟩
    · exact hne rfl
    · exact hu
  have hunder : e'.IsUnderflow → e.IsUnderflow := by
    intro hu
    rcases herror with rfl | ⟨hu', -⟩
    · exact hu
    · exact hu'
  refine ⟨?_, h.streams.trans h'.streams, hc.trans _ _ _ h.steps h'.steps,
    fun j => (h.cell j).trans (h'.cell j), fun hne => (h.length hne).trans (h'.length (hmemory hne)),
    fun hne hnu => (h.cursor hne hnu).trans (h'.cursor (hmemory hne) fun hu => hnu (hunder hu))⟩
  rcases herror with rfl | ⟨hu, hu'⟩
  · exact h'.error
  · rcases h'.error with rfl | ⟨-, hu''⟩
    · exact Or.inr ⟨hu, hu'⟩
    · exact Or.inr ⟨hu, hu''⟩

theorem related_trans {x y z : EStateM.Result RunError Machine α} (hc : Comparison le)
    (h : Related (Agree le) (FailsLike le) x y) (h' : Related (Agree le) (FailsLike le) y z) :
    Related (Agree le) (FailsLike le) x z := by
  cases x with
  | ok a m₁ =>
    obtain ⟨m₂, rfl, h₁⟩ := related_ok_left h rfl
    obtain ⟨m₃, rfl, h₂⟩ := related_ok_left h' rfl
    exact ⟨rfl, agree_trans hc h₁ h₂⟩
  | error e m₁ =>
    obtain ⟨e', m₂, rfl, h₁⟩ := related_error_left h rfl
    obtain ⟨e'', m₃, rfl, h₂⟩ := related_error_left h' rfl
    exact failsLike_trans hc h₁ h₂

/-- Simulations compose. -/
theorem simulates_trans {p q s : Program} (hc : Comparison le)
    (h : Simulates none none (Agree le) (FailsLike le) p q)
    (h' : Simulates none none (Agree le) (FailsLike le) q s) :
    Simulates none none (Agree le) (FailsLike le) p s := by
  intro m m' r hm hx
  obtain ⟨r', hx', hr'⟩ := h m m r ⟨⟨Tape.same_refl _, hm.tape.2⟩, rfl, hc.refl _⟩ hx
  obtain ⟨r'', hx'', hr''⟩ := h' m m' r' hm hx'
  exact ⟨r'', hx'', related_trans hc hr' hr''⟩

theorem failsLike_of_same (ht : m.tape.Same m'.tape) (hs : m.streams = m'.streams)
    (hle : le m.steps m'.steps) : FailsLike le e m e m' :=
  ⟨Or.inl rfl, hs, hle, ht.cell, fun _ => ht.length, fun _ _ => ht.cursor⟩

theorem lifts_agree : Lifts Tape.Alike Tape.FailsLike (Agree le) (FailsLike le) where
  tape _ _ h := h.tape
  streams _ _ h := h.streams
  onTape _ _ _ _ h ht := ⟨ht, h.streams, h.steps⟩
  onStreams _ _ _ h := ⟨h.tape, rfl, h.steps⟩
  fails _ _ _ h := failsLike_of_same h.tape.1 h.streams h.steps
  failsOnTape := by
    intro e t e' t' m m' h he
    refine ⟨?_, h.streams, h.steps, he.cell, fun hne => he.length fun heq => hne (heq ▸ rfl),
      fun hne => he.cursor fun heq => hne (heq ▸ rfl)⟩
    rcases he.error with rfl | hu
    · exact Or.inl rfl
    · exact Or.inr hu

theorem lockstep_alike : TapeLockstep (fun _ => True) Tape.Alike Tape.FailsLike where
  read _ _ h := related_of_error (fun _ _ _ _ => Tape.failsLike_of_same) (Tape.read_related h)
  update f _ _ h :=
    related_of_error (fun _ _ _ _ => Tape.failsLike_of_same) (Tape.update_related h f)
  apply _ _ _ _ _ h :=
    related_of_error (fun _ _ _ _ => Tape.failsLike_of_same) (Tape.apply_related h)

theorem onTape_related {x x' : EStateM TapeError Tape α} (h : Agree le m m')
    (hx : Related Tape.Alike Tape.FailsLike (x m.tape) (x' m'.tape)) :
    Related (Agree le) (FailsLike le) (onTape x m) (onTape x' m') :=
  lifts_tape lifts_agree h hx

theorem act_related (a : Action) (h : Agree le m m') :
    Related (Agree le) (FailsLike le) (act a m) (act a m') :=
  lifts_act lifts_agree lockstep_alike a trivial h

theorem test_related (h : Agree le m m') :
    Related (Agree le) (FailsLike le) (test m) (test m') :=
  lifts_test lifts_agree lockstep_alike h

theorem countStep_related (hc : Comparison le) (h : Agree le m m') :
    Related (Agree le) (FailsLike le) (countStep none m) (countStep none m') :=
  ⟨rfl, h.tape, h.streams, hc.succ _ _ h.steps⟩

/-- Without a budget, machines that agree go on to do so. -/
theorem lockstep_agree (hc : Comparison le) :
    Lockstep none none (Agree le) (FailsLike le) where
  perform := by
    intro a m m' h
    exact related_bind (countStep_related hc h) fun _ _ _ => act_related a
  check := by
    intro m m' h
    exact related_bind (countStep_related hc h) fun _ _ _ => test_related

end Machine

end Brainfuck
