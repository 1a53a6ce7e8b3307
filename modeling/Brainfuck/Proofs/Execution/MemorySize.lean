import Brainfuck.Proofs.Execution.Bounds
import Brainfuck.Proofs.Execution.Lockstep
import Brainfuck.Proofs.Tape.Beside

/-! Runs on tapes of any two initial sizes: nothing but the length of the tape shows which it was. -/
namespace Brainfuck

/-- A move to the right goes no further than this. -/
def Action.Within (k : Nat) : Action → Prop
  | .apply .moveRight n => n.val ≤ k
  | _ => True

/-- Runs with the same ending, streams, steps, cursor and contents. -/
structure Run.Resembles (r r' : Run) : Prop where
  ending : r.ending = r'.ending
  streams : r.streams = r'.streams
  steps : r.steps = r'.steps
  cursor : r.interpreter.tape.cursor = r'.interpreter.tape.cursor
  contents : r.interpreter.tape.contents = r'.interpreter.tape.contents

/-- The same, but that of runs which fail for want of room one may have run out of memory where the other has
asked for more than a block. -/
structure Run.Beside (r r' : Run) : Prop where
  ending : r.ending = r'.ending ∨ r.ending.IsShortage ∧ r'.ending.IsShortage ∧
    (r.ending.IsOutOfMemory ∨ r'.ending.IsOutOfMemory)
  streams : r.streams = r'.streams
  steps : r.steps = r'.steps
  cursor : r.interpreter.tape.cursor = r'.interpreter.tape.cursor
  contents : r.interpreter.tape.contents = r'.interpreter.tape.contents

namespace Run

variable {r r' : Run}

theorem beside_symm (h : r.Beside r') : r'.Beside r := by
  refine ⟨?_, h.streams.symm, h.steps.symm, h.cursor.symm, h.contents.symm⟩
  rcases h.ending with heq | ⟨hr, hr', hout⟩
  · exact Or.inl heq.symm
  · exact Or.inr ⟨hr', hr, hout.symm⟩

theorem resembles_of_beside (h : r.Beside r') (hr : ¬ r.ending.IsOutOfMemory)
    (hr' : ¬ r'.ending.IsOutOfMemory) : r.Resembles r' := by
  refine ⟨?_, h.streams, h.steps, h.cursor, h.contents⟩
  rcases h.ending with heq | ⟨-, -, hout | hout⟩
  · exact heq
  · exact (hr hout).elim
  · exact (hr' hout).elim

theorem shortage_of_beside (h : r.Beside r') (hr : r.ending.IsShortage) : r'.ending.IsShortage := by
  rcases h.ending with heq | ⟨-, hr', -⟩
  · exact heq ▸ hr
  · exact hr'

theorem unfinished_of_beside (h : r.Beside r') (hr : r.ending = .unfinished) :
    r'.ending = .unfinished := by
  rcases h.ending with heq | ⟨hshort, -⟩
  · exact heq ▸ hr
  · rw [hr] at hshort
    exact hshort.elim

end Run

namespace Machine

variable {k : Nat} {m m' : Machine}

/-- Machines that differ in the length of their tapes only. -/
structure Beside (k : Nat) (m m' : Machine) : Prop where
  tape : m.tape.Beside k m'.tape
  streams : m.streams = m'.streams
  steps : m.steps = m'.steps

structure FailsBeside (e : RunError) (m : Machine) (e' : RunError) (m' : Machine) : Prop where
  error : e = e' ∨ e.IsShortage ∧ e'.IsShortage ∧ (e.IsOutOfMemory ∨ e'.IsOutOfMemory)
  cursor : m.tape.cursor = m'.tape.cursor
  cell : ∀ j, m.tape.cell j = m'.tape.cell j
  streams : m.streams = m'.streams
  steps : m.steps = m'.steps

theorem failsBeside_of_beside (e : RunError) (h : Beside k m m') : FailsBeside e m e m' :=
  ⟨Or.inl rfl, h.tape.cursor, h.tape.cell, h.streams, h.steps⟩

theorem lifts_beside : Lifts (Tape.Beside k) Tape.FailsBeside (Beside k) FailsBeside where
  tape _ _ h := h.tape
  streams _ _ h := h.streams
  onTape _ _ _ _ h ht := ⟨ht, h.streams, h.steps⟩
  onStreams _ _ _ h := ⟨h.tape, rfl, h.steps⟩
  fails e _ _ h := failsBeside_of_beside e h
  failsOnTape := by
    intro e t e' t' m m' h he
    refine ⟨?_, he.cursor, he.cell, h.streams, h.steps⟩
    rcases he.error with rfl | ⟨hshort, hshort', hout⟩
    · exact Or.inl rfl
    · refine Or.inr ⟨hshort, hshort', ?_⟩
      rcases hout with rfl | rfl
      · exact Or.inl trivial
      · exact Or.inr trivial

theorem lockstep_beside :
    TapeLockstep (Action.Within k) (Tape.Beside k) Tape.FailsBeside where
  read _ _ h := Tape.read_beside h
  update f _ _ h := Tape.update_beside h f
  apply op _ _ _ hn h := by
    refine Tape.apply_beside op ?_ h
    rintro rfl
    exact hn

theorem countStep_beside (b : Option Int) (h : Beside k m m') :
    Related (Beside k) FailsBeside (countStep b m) (countStep b m') := by
  have hnext : Beside k { m with steps := m.steps + 1 } { m' with steps := m.steps + 1 } :=
    ⟨h.tape, h.streams, rfl⟩
  rcases countStep_both b h.steps with ⟨hgoes, hgoes'⟩ | ⟨hstops, hstops'⟩
  · rw [hgoes, hgoes']
    exact ⟨rfl, hnext⟩
  · rw [hstops, hstops']
    exact failsBeside_of_beside _ hnext

/-- Under any budget the length of the tape has no part in what the machine does next. -/
theorem lockstepOn_beside (b : Option Int) :
    LockstepOn (Action.Within k) b b (Beside k) FailsBeside :=
  lockstepOn_of_lifts lifts_beside lockstep_beside fun _ _ => countStep_beside b

end Machine

namespace Interpreter

open Machine

/-- The interpreter with another initial size. -/
def sized (i : Interpreter) (size : Int) : Interpreter := { i with memorySize := size }

variable {i i' : Interpreter} {p : Program} {s : Streams} {t t' : Tape} {m m' : Int} {k : Nat}
  {r : Run}

theorem beside_of_create (hk : k ≤ maxIndex) (hblock : k ≤ maxBlock ∨ i.room ≤ maxBlock)
    (ht : Tape.create i.room m = .ok t) (ht' : Tape.create i.room m' = .ok t') : t.Beside k t' := by
  obtain ⟨hin, hroom, -, hcursor, hcells⟩ := Tape.create_ok ht
  obtain ⟨hin', hroom', -, hcursor', hcells'⟩ := Tape.create_ok ht'
  refine ⟨hk, hroom ▸ hblock, hroom.trans hroom'.symm, hcursor.trans hcursor'.symm, fun j => ?_,
    hin, hin'⟩
  rw [Tape.cell, Tape.cell, hcells, hcells']

/-- The invariant of two runs side by side, however many rounds they have gone. -/
theorem beside_run (hk : k ≤ maxIndex) (hblock : k ≤ maxBlock ∨ i.room ≤ maxBlock)
    (ht : Tape.create i.room m = .ok t) (ht' : Tape.create i.room m' = .ok t')
    (hp : p.Every (Action.Within k)) (n : Nat) :
    ((i.sized m).run n p s).Beside ((i.sized m').run n p s) := by
  have hframes : ∀ f ∈ [Frame.mk p none], f.Every (Action.Within k) := by
    intro f hf
    obtain rfl := List.mem_singleton.mp hf
    exact ⟨hp, by rintro _ ⟨⟩⟩
  have hstart : Machine.Beside k ⟨t, s, 0⟩ ⟨t', s, 0⟩ :=
    ⟨beside_of_create hk hblock ht ht', rfl, rfl⟩
  have hrounds := related_rounds (lockstepOn_beside i.budget) n hframes hstart
  rw [run_of_create_ok (i := i.sized m) ht, run_of_create_ok (i := i.sized m') ht', Visitor.walk,
    Visitor.walk]
  simp only [sized]
  cases hr : (runner i.budget).rounds n [⟨p, none⟩] ⟨t, s, 0⟩ with
  | ok frames m₁ =>
    obtain ⟨m₁', hr', h⟩ := related_ok_left hrounds hr
    rw [hr']
    exact ⟨Or.inl rfl, h.streams, h.steps, h.tape.cursor, Tape.contents_eq h.tape.cell⟩
  | error e m₁ =>
    obtain ⟨e', m₁', hr', h⟩ := related_error_left hrounds hr
    rw [hr']
    refine ⟨?_, h.streams, h.steps, h.cursor, Tape.contents_eq h.cell⟩
    rcases h.error with rfl | hshort
    · exact Or.inl rfl
    · exact Or.inr hshort

theorem ends_of_beside (h : ∀ n, (i.run n p s).Beside (i'.run n p s)) (hr : i.Ends p s r) :
    ∃ r', i'.Ends p s r' ∧ r.Beside r' := by
  obtain ⟨n, rfl, hne⟩ := hr
  refine ⟨_, ⟨n, rfl, fun heq => hne ?_⟩, h n⟩
  exact Run.unfinished_of_beside (Run.beside_symm (h n)) heq

theorem reached_of_beside (h : ∀ n, (i.run n p s).Beside (i'.run n p s)) :
    i.reached p s ⊆ i'.reached p s := by
  rintro c ⟨n, hn, hc⟩
  refine ⟨n, fun hshort => hn ?_, (h n).cursor.symm.trans hc⟩
  exact Run.shortage_of_beside (Run.beside_symm (h n)) hshort

/-- A run that memory does not give out on has a tape to start with. -/
theorem exists_create_of_completes (hm : 1 ≤ m) (hindex : m ≤ maxIndex)
    (h : (i.sized m).Completes p s r) : ∃ t, Tape.create i.room m = .ok t := by
  by_cases hroom : m ≤ i.room
  · exact Tape.exists_create hm hindex hroom
  · have hc : Tape.create (i.sized m).room (i.sized m).memorySize = .error .outOfMemory :=
      Tape.create_outOfMemory hm hindex (Int.not_le.mp hroom)
    obtain ⟨hr, hmemory⟩ := h
    rw [ends_of_create_error hc] at hr
    subst hr
    exact (hmemory trivial).elim

/-- Where a run with one size completes, a run with another ends. -/
theorem ends_of_completes (hm : 1 ≤ m) (hindex : m ≤ maxIndex) (hk : k ≤ maxIndex)
    (hblock : k ≤ maxBlock ∨ i.room ≤ maxBlock) (hp : p.Every (Action.Within k))
    (h : (i.sized m).Completes p s r) : ∃ r', (i.sized m').Ends p s r' := by
  obtain ⟨t, ht⟩ := exists_create_of_completes hm hindex h
  cases ht' : Tape.create i.room m' with
  | error e => exact ⟨_, (ends_of_create_error (i := i.sized m') ht').mpr rfl⟩
  | ok t' =>
    obtain ⟨r', hr', -⟩ := ends_of_beside (beside_run hk hblock ht ht' hp) h.1
    exact ⟨r', hr'⟩

/-- The initial size of the tape is not observed but through the length that the tape has in the end, by runs
that memory does not give out on. If the run with one of two sizes completes, the one with the other ends.
If both complete, they do so with equal endings, streams, cursors and contents, and each tape reaches to the
last cell that the cursor has been on, unless it was made longer. -/
theorem memory_size_unobserved (i : Interpreter) (p : Program) (s : Streams) (hm : 1 ≤ m)
    (hm' : 1 ≤ m') (hindex : max m m' ≤ maxIndex) (hk : k ≤ maxIndex)
    (hblock : k ≤ maxBlock ∨ i.room ≤ maxBlock) (hp : p.Every (Action.Within k)) :
    (∀ r, (i.sized m).Completes p s r → ∃ r', (i.sized m').Ends p s r') ∧
    (∀ r', (i.sized m').Completes p s r' → ∃ r, (i.sized m).Ends p s r) ∧
    ∀ r r', (i.sized m).Completes p s r → (i.sized m').Completes p s r' →
      r.Resembles r' ∧
      ∃ c, IsGreatest ((i.sized m).reached p s) c ∧ IsGreatest ((i.sized m').reached p s) c ∧
        r.interpreter.tape.length = max m (c + 1) ∧
        r'.interpreter.tape.length = max m' (c + 1) := by
  refine ⟨?_, ?_, ?_⟩
  · intro r
    exact ends_of_completes hm (by omega) hk hblock hp
  · intro r'
    exact ends_of_completes hm' (by omega) hk hblock hp
  · intro r r' hr hr'
    obtain ⟨t, ht⟩ := exists_create_of_completes hm (by omega) hr
    obtain ⟨t', ht'⟩ := exists_create_of_completes hm' (by omega) hr'
    have hruns := beside_run (s := s) hk hblock ht ht' hp
    have hruns' : ∀ n, ((i.sized m').run n p s).Beside ((i.sized m).run n p s) :=
      fun n => Run.beside_symm (hruns n)
    obtain ⟨q, hq, hbeside⟩ := ends_of_beside hruns hr.1
    obtain rfl := ends_unique hq hr'.1
    have hreached : (i.sized m).reached p s = (i.sized m').reached p s :=
      Set.Subset.antisymm (reached_of_beside hruns) (reached_of_beside hruns')
    obtain ⟨c, hc, hlength⟩ := length_of_ends (i := i.sized m) ht hr.1
    obtain ⟨c', hc', hlength'⟩ := length_of_ends (i := i.sized m') ht' hr'.1
    obtain rfl : c = c' := hc.unique (hreached ▸ hc')
    exact ⟨Run.resembles_of_beside hbeside hr.2 hr'.2, c, hc, hc', hlength, hlength'⟩

/-- Two cells or thirty to begin with: a loop that goes on to the right as long as there is input grows the
one tape twice and the other not at all. -/
theorem memory_size_unobserved_growing :
    ∃ p r r', Program.parse "+[>,.]" = .ok p ∧
      ((single Tape.usualRoom (by decide)).sized 2).Completes p (.ofBytes [3, 2, 0]) r ∧
      ((single Tape.usualRoom (by decide)).sized 30).Completes p (.ofBytes [3, 2, 0]) r' ∧
      r.Resembles r' ∧ r.ending = .finished ∧ r.streams.written.toList = [3, 2, 0] ∧
      r.interpreter.tape.length = 4 ∧ r'.interpreter.tape.length = 30 := by
  let p : Program := [.act (.apply .increment .one),
    .loop [.act (.apply .moveRight .one), .act .input, .act .output]]
  let i : Interpreter := single Tape.usualRoom (by decide)
  have hp : p.Every (Action.Within maxBlock) := by
    simp [p, Action.Within, Count.one, maxBlock, maxIndex]
  have hr : (i.sized 2).Completes p (.ofBytes [3, 2, 0]) _ :=
    completes_run (n := 20) (x := .finished) (by decide +kernel) (by decide) id
  have hr' : (i.sized 30).Completes p (.ofBytes [3, 2, 0]) _ :=
    completes_run (n := 20) (x := .finished) (by decide +kernel) (by decide) id
  obtain ⟨-, -, hboth⟩ := memory_size_unobserved i p (.ofBytes [3, 2, 0])
    (show (1 : Int) ≤ 2 by decide) (show (1 : Int) ≤ 30 by decide) (by decide) (by decide)
    (Or.inl (Nat.le_refl _)) hp
  exact ⟨p, _, _, by rfl, hr, hr', (hboth _ _ hr hr').1, by decide +kernel, by decide +kernel,
    by decide +kernel, by decide +kernel⟩

/-- Sizes that there is no room for are told apart, and so are sizes by a move for more than a block. A
cursor that has moved where there was no room is beyond the tape. -/
theorem memory_size_observed :
    (∃ p r r', Program.Every (Action.Within maxIndex) p ∧
      ((single Tape.usualRoom (by decide)).sized 1).Ends p (.ofBytes []) r ∧
      ((single Tape.usualRoom (by decide)).sized 100).Ends p (.ofBytes []) r' ∧
      r.ending = .failed (.tape .blockTooLarge) ∧ r'.ending = .failed (.tape .outOfMemory) ∧
      r.interpreter.tape.length = 1 ∧ r.interpreter.tape.cursor = 0x7FFF_FFFF_FFFF_FFEC) ∧
    ∃ r r', ((single Tape.usualRoom (by decide)).sized 1).Ends [] (.ofBytes []) r ∧
      ((single Tape.usualRoom (by decide)).sized maxIndex).Ends [] (.ofBytes []) r' ∧
      r.ending = .finished ∧ r'.ending = .failed (.size .outOfMemory) := by
  let far : Program := [.act (.apply .moveRight ⟨0x7FFF_FFFF_FFFF_FFEC, by decide⟩)]
  have hfar : far.Every (Action.Within maxIndex) := by
    simp [far, Action.Within, maxIndex]
  refine ⟨⟨far, _, _, hfar, ⟨2, rfl, ?_⟩, ⟨2, rfl, ?_⟩, ?_, ?_, ?_, ?_⟩,
    _, _, ⟨1, rfl, ?_⟩, ⟨1, rfl, ?_⟩, ?_, ?_⟩
  all_goals decide +kernel

end Interpreter

end Brainfuck
