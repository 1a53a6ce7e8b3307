import Brainfuck.Program.Pass
import Brainfuck.Proofs.Execution.Related

/-! Runs in lockstep: machines that correspond because their tapes do, after every round. -/
namespace Brainfuck

/-- Every instruction that is not a loop, at any depth, is one of these. -/
def Program.Every (P : Action → Prop) (p : Program) : Prop := ∀ a, Visit.act a ∈ p.visits → P a

namespace Program

variable {P : Action → Prop} {p : Program} {body : List Instruction} {a : Action}

@[simp] theorem every_nil : Every P [] := by
  intro a ha
  exact (List.not_mem_nil ha).elim

@[simp] theorem every_act : Every P (.act a :: p) ↔ P a ∧ Every P p := by
  simp only [Every, visits, Instruction.visits, List.mem_append, List.mem_singleton,
    Visit.act.injEq, forall_eq_or_imp]

@[simp] theorem every_loop : Every P (.loop body :: p) ↔ Every P body ∧ Every P p := by
  simp [Every, visits, Instruction.visits, or_imp, forall_and]

end Program

/-- The same for what an open pass still has to do, and will do again. -/
structure Frame.Every (P : Action → Prop) (f : Frame) : Prop where
  rest : f.rest.Every P
  loop : ∀ body ∈ f.loop, Program.Every P body

namespace Machine

variable {α : Type} {P : Action → Prop} {b b' : Option Int} {m m' : Machine} {inner : Frame}
  {outer frames : List Frame} {T : Tape → Tape → Prop}
  {F : TapeError → Tape → TapeError → Tape → Prop} {R : Machine → Machine → Prop}
  {E : RunError → Machine → RunError → Machine → Prop}

/-- Equal instructions, of those allowed, keep machines in correspondence. -/
structure LockstepOn (P : Action → Prop) (b b' : Option Int) (R : Machine → Machine → Prop)
    (E : RunError → Machine → RunError → Machine → Prop) : Prop where
  perform : ∀ a m m', P a → R m m' → Related R E (perform b a m) (perform b' a m')
  check : ∀ m m', R m m' → Related R E (check b m) (check b' m')

theorem every_round (h : ∀ f ∈ inner :: outer, f.Every P)
    (hr : (runner b).round inner outer m = .ok frames m') : ∀ f ∈ frames, f.Every P := by
  obtain ⟨hinner, houter⟩ := List.forall_mem_cons.mp h
  cases Visitor.turns_of_round hr with
  | close => exact houter
  | act _ =>
    have hrest := (Program.every_act.mp hinner.rest).2
    exact List.forall_mem_cons.mpr ⟨⟨hrest, hinner.loop⟩, houter⟩
  | skip _ =>
    have hrest := (Program.every_loop.mp hinner.rest).2
    exact List.forall_mem_cons.mpr ⟨⟨hrest, hinner.loop⟩, houter⟩
  | enter _ =>
    obtain ⟨hbody, hrest⟩ := Program.every_loop.mp hinner.rest
    refine List.forall_mem_cons.mpr ⟨⟨hbody, ?_⟩, List.forall_mem_cons.mpr ⟨⟨hrest, ?_⟩, houter⟩⟩
    · rintro _ ⟨⟩
      exact hbody
    · exact hinner.loop
  | leave _ => exact houter
  | again _ => exact List.forall_mem_cons.mpr ⟨⟨hinner.loop _ rfl, hinner.loop⟩, houter⟩

theorem related_round (outer : List Frame) (h : LockstepOn P b b' R E) (hf : inner.Every P)
    (hm : R m m') :
    Related R E ((runner b).round inner outer m) ((runner b').round inner outer m') := by
  obtain ⟨_ | ⟨_ | body, rest⟩, loop⟩ := inner
  · cases loop with
    | none => exact ⟨rfl, hm⟩
    | some body =>
      apply related_bind (h.check m m' hm)
      intro c m m' hm
      cases c <;> exact ⟨rfl, hm⟩
  · next a =>
    have ha := (Program.every_act.mp hf.rest).1
    apply related_bind (h.perform a m m' ha hm)
    intro _ m m' hm
    exact ⟨rfl, hm⟩
  · apply related_bind (h.check m m' hm)
    intro c m m' hm
    cases c <;> exact ⟨rfl, hm⟩

/-- Walks in lockstep correspond after any number of rounds. -/
theorem related_rounds (h : LockstepOn P b b' R E) (n : Nat) (hf : ∀ f ∈ frames, f.Every P)
    (hm : R m m') :
    Related R E ((runner b).rounds n frames m) ((runner b').rounds n frames m') := by
  induction n generalizing frames m m' with
  | zero => exact ⟨rfl, hm⟩
  | succ n ih =>
    cases frames with
    | nil => exact ⟨rfl, hm⟩
    | cons inner outer =>
      have hround := related_round outer h (hf inner (by simp)) hm
      rw [Visitor.rounds, Visitor.rounds]
      cases hr : (runner b).round inner outer m with
      | error e m₁ =>
        obtain ⟨e', m₁', hr', he⟩ := related_error_left hround hr
        rw [hr']
        exact he
      | ok frames₁ m₁ =>
        obtain ⟨m₁', hr', hm₁⟩ := related_ok_left hround hr
        rw [hr']
        exact ih (every_round hf hr) hm₁

/-- Tapes stay in correspondence when the same is done to them, of the operations that are allowed. -/
structure TapeLockstep (P : Action → Prop) (T : Tape → Tape → Prop)
    (F : TapeError → Tape → TapeError → Tape → Prop) : Prop where
  read : ∀ t t', T t t' → Related T F (Tape.read t) (Tape.read t')
  update : ∀ f t t', T t t' → Related T F (Tape.update f t) (Tape.update f t')
  apply : ∀ op (n : Count) t t', P (.apply op n) → T t t' →
    Related T F (Tape.apply op n.val t) (Tape.apply op n.val t')

/-- A correspondence of machines that is one of tapes, beside equal streams. -/
structure Lifts (T : Tape → Tape → Prop) (F : TapeError → Tape → TapeError → Tape → Prop)
    (R : Machine → Machine → Prop) (E : RunError → Machine → RunError → Machine → Prop) :
    Prop where
  tape : ∀ m m', R m m' → T m.tape m'.tape
  streams : ∀ m m', R m m' → m.streams = m'.streams
  onTape : ∀ m m' t t', R m m' → T t t' → R { m with tape := t } { m' with tape := t' }
  onStreams : ∀ m m' s, R m m' → R { m with streams := s } { m' with streams := s }
  fails : ∀ e m m', R m m' → E e m e m'
  failsOnTape : ∀ e t e' t' m m', R m m' → F e t e' t' →
    E (.tape e) { m with tape := t } (.tape e') { m' with tape := t' }

theorem lifts_tape (h : Lifts T F R E) {x x' : EStateM TapeError Tape α} (hm : R m m')
    (hx : Related T F (x m.tape) (x' m'.tape)) : Related R E (onTape x m) (onTape x' m') := by
  rw [onTape_apply, onTape_apply]
  cases hr : x m.tape with
  | ok a t =>
    obtain ⟨t', hr', ht⟩ := related_ok_left hx hr
    rw [hr']
    exact ⟨rfl, h.onTape _ _ _ _ hm ht⟩
  | error e t =>
    obtain ⟨e', t', hr', he⟩ := related_error_left hx hr
    rw [hr']
    exact h.failsOnTape _ _ _ _ _ _ hm he

theorem lifts_streams (h : Lifts T F R E) {wrap : Fault → RunError} {x : EStateM Fault Streams α}
    (hm : R m m') : Related R E (onStreams wrap x m) (onStreams wrap x m') := by
  rw [onStreams_apply, onStreams_apply, ← h.streams _ _ hm]
  cases x m.streams with
  | ok a s => exact ⟨rfl, h.onStreams _ _ _ hm⟩
  | error f s => exact h.fails _ _ _ (h.onStreams _ _ _ hm)

theorem lifts_read (h : Lifts T F R E) (ht : TapeLockstep P T F) (hm : R m m') :
    Related R E (onTape Tape.read m) (onTape Tape.read m') :=
  lifts_tape h hm (ht.read _ _ (h.tape _ _ hm))

theorem lifts_act (h : Lifts T F R E) (ht : TapeLockstep P T F) (a : Action) (ha : P a)
    (hm : R m m') : Related R E (act a m) (act a m') := by
  cases a with
  | apply op n => exact lifts_tape h hm (ht.apply op n _ _ ha (h.tape _ _ hm))
  | output =>
    apply related_bind (lifts_read h ht hm)
    intro b m m' hm
    exact lifts_streams h hm
  | input =>
    apply related_bind (lifts_streams h hm)
    intro _ m m' hm
    apply related_bind (lifts_streams h hm)
    intro b m m' hm
    cases b with
    | none => exact h.fails _ _ _ hm
    | some v => exact lifts_tape h hm (ht.update _ _ _ (h.tape _ _ hm))
  | unknown => exact h.fails _ _ _ hm

theorem lifts_test (h : Lifts T F R E) (ht : TapeLockstep P T F) (hm : R m m') :
    Related R E (test m) (test m') := by
  apply related_bind (lifts_read h ht hm)
  intro b m m' hm
  exact ⟨rfl, hm⟩

/-- Tapes in lockstep keep their machines in lockstep. -/
theorem lockstepOn_of_lifts (h : Lifts T F R E) (ht : TapeLockstep P T F)
    (hcount : ∀ m m', R m m' → Related R E (countStep b m) (countStep b' m')) :
    LockstepOn P b b' R E where
  perform := by
    intro a m m' ha hm
    exact related_bind (hcount m m' hm) fun _ _ _ => lifts_act h ht a ha
  check := by
    intro m m' hm
    exact related_bind (hcount m m' hm) fun _ _ _ => lifts_test h ht

end Machine

end Brainfuck
