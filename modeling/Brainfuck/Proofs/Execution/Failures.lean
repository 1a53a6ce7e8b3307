import Brainfuck.Proofs.Execution.Bounds
import Brainfuck.Proofs.Execution.Lockstep
import Brainfuck.Proofs.Program.Spelling

/-! What can end a run early: a failure of the program, or want of room. No cell is ever out of reach. -/
namespace Brainfuck

/-- A failure of the program, which is reported, or want of room, which is not. -/
def RunError.IsOrdinary (e : RunError) : Prop := e.isFailure = true ∨ e.IsShortage

theorem RunError.isFailure_of_isShortage {e : RunError} (h : e.IsShortage) :
    e.isFailure = false := by
  rcases e with (_ | _ | _) | (_ | _ | _ | _ | _ | _) | _ | _ | _ | _ | _ | _ | _
  all_goals first | rfl | cases h

namespace Tape

variable {t : Tape}

/-- The cell under the cursor has an index. -/
theorem place_of_room (h : t.InBounds) (hroom : t.room ≤ maxIndex) :
    t.place = .ok t.cursor.toNat := by
  have hlength := t.length_le
  exact place_of_inBounds h (by omega)

theorem update_of_room (h : t.InBounds) (hroom : t.room ≤ maxIndex) (f : UInt8 → UInt8) :
    ∃ u, update f t = .ok () u ∧ u.InBounds ∧ u.room = t.room := by
  obtain ⟨u, hu, hw⟩ := update_of_place (place_of_room h hroom) f
  exact ⟨u, hu, inBounds_of_writes h hw, hw.room⟩

/-- An operation fails only to the left of the first cell or for want of room. -/
theorem apply_of_room (h : t.InBounds) (hroom : t.room ≤ maxIndex) (op : TapeOp) (n : Count) :
    (∃ u, apply op n.val t = .ok () u ∧ u.InBounds ∧ u.room = t.room) ∨
      ∃ e u, apply op n.val t = .error e u ∧ (RunError.tape e).IsOrdinary := by
  cases op with
  | moveRight =>
    have hbounded := moveRight_bounded h n.val
    rcases moveRight_cases h n.val with ⟨e, hu, he, -⟩ | ⟨u, hu, hr, -⟩
    · exact Or.inr ⟨e, _, hu, Or.inr he⟩
    · rw [hu] at hbounded
      exact Or.inl ⟨u, hu, hbounded.inBounds, hr⟩
  | moveLeft =>
    by_cases hn : t.cursor < n.val
    · exact Or.inr ⟨_, t, if_pos hn, Or.inl rfl⟩
    · have hlt := h.lt_length
      exact Or.inl ⟨_, if_neg hn, ⟨by dsimp only; omega, by dsimp only; omega⟩, rfl⟩
  | increment =>
    simp only [apply, increment]
    exact Or.inl (update_of_room h hroom _)
  | decrement =>
    simp only [apply, decrement]
    exact Or.inl (update_of_room h hroom _)

end Tape

namespace Streams

variable {α : Type} {s : Streams}

/-- Only the system makes these streams fail. -/
structure Systemic (s : Streams) : Prop where
  supplies : ∀ f, .fault f ∈ s.supplies → f.isSystem = true
  writes : ∀ k f, s.output.writeFault k = some f → f.isSystem = true
  flushes : ∀ k f, s.output.flushFault k = some f → f.isSystem = true

def Orderly : EStateM.Result Fault Streams α → Prop
  | .ok _ s => s.Systemic
  | .error f _ => f.isSystem = true

theorem write_orderly (h : s.Systemic) (v : UInt8) : Orderly (write v s) := by
  unfold write
  dsimp only
  split
  next f hf => exact h.writes _ f hf
  next => exact ⟨h.supplies, h.writes, h.flushes⟩

theorem flush_orderly (h : s.Systemic) : Orderly (flush s) := by
  unfold flush
  dsimp only
  split
  · split
    next f hf => exact h.flushes _ f hf
    next => exact ⟨h.supplies, h.writes, h.flushes⟩
  · exact h

theorem read_orderly (h : s.Systemic) : Orderly (read s) := by
  have hrest : ∀ x ∈ s.supplies.tail, x ∈ s.supplies := fun _ => List.mem_of_mem_tail
  unfold read
  dsimp only
  split
  next => exact ⟨fun f hf => (List.not_mem_nil hf).elim, h.writes, h.flushes⟩
  next data rest hs =>
    rw [hs] at hrest
    exact ⟨fun f hf => h.supplies f (by rw [hs]; exact hrest _ hf), h.writes, h.flushes⟩
  next f rest hs => exact h.supplies f (by rw [hs]; exact List.mem_cons_self)

end Streams

namespace Machine

variable {α β : Type} {m : Machine} {b : Option Int} {a : Action} {frames : List Frame}

/-- The cursor is on a cell, every cell has an index, and only the system makes the streams fail. -/
structure Ready (m : Machine) : Prop where
  inBounds : m.tape.InBounds
  room : m.tape.room ≤ maxIndex
  streams : m.streams.Systemic

/-- What a machine that is ready comes to. -/
def Orderly : EStateM.Result RunError Machine α → Prop
  | .ok _ m => m.Ready
  | .error e _ => e.IsOrdinary

theorem orderly_bind {x : EStateM RunError Machine α} {f : α → EStateM RunError Machine β}
    (hx : Orderly (x m)) (hf : ∀ a m, m.Ready → Orderly (f a m)) : Orderly ((x >>= f) m) := by
  change Orderly (EStateM.bind x f m)
  unfold EStateM.bind
  cases hm : x m with
  | ok a m₁ =>
    rw [hm] at hx
    exact hf a m₁ hx
  | error e m₁ =>
    rw [hm] at hx
    exact hx

theorem countStep_orderly (b : Option Int) (h : m.Ready) : Orderly (countStep b m) := by
  rcases countStep_cases b m with hgoes | hstops
  · rw [hgoes]
    exact ⟨h.inBounds, h.room, h.streams⟩
  · rw [hstops]
    exact Or.inl rfl

theorem read_orderly (h : m.Ready) : Orderly (onTape Tape.read m) := by
  rw [onTape_apply, Tape.read_of_place (Tape.place_of_room h.inBounds h.room)]
  exact h

theorem update_orderly (h : m.Ready) (f : UInt8 → UInt8) : Orderly (onTape (Tape.update f) m) := by
  obtain ⟨u, hu, hin, hr⟩ := Tape.update_of_room h.inBounds h.room f
  rw [onTape_apply, hu]
  exact ⟨hin, Nat.le_trans (Nat.le_of_eq hr) h.room, h.streams⟩

theorem apply_orderly (h : m.Ready) (op : TapeOp) (n : Count) :
    Orderly (onTape (Tape.apply op n.val) m) := by
  rw [onTape_apply]
  rcases Tape.apply_of_room h.inBounds h.room op n with ⟨u, hu, hin, hr⟩ | ⟨e, u, hu, he⟩
  · rw [hu]
    exact ⟨hin, Nat.le_trans (Nat.le_of_eq hr) h.room, h.streams⟩
  · rw [hu]
    exact he

/-- Faults of the system are failures of the program. -/
theorem onStreams_orderly {wrap : Fault → RunError} {x : EStateM Fault Streams α}
    (hw : ∀ f, (wrap f).isFailure = true) (h : m.Ready) (hx : Streams.Orderly (x m.streams)) :
    Orderly (onStreams wrap x m) := by
  rw [onStreams_apply]
  cases hs : x m.streams with
  | ok c s =>
    rw [hs] at hx
    exact ⟨h.inBounds, h.room, hx⟩
  | error f s =>
    rw [hs] at hx
    have hf : RunError.ofFault wrap f = wrap f := if_pos hx
    exact Or.inl (by rw [hf]; exact hw f)

theorem act_orderly (h : m.Ready) (ha : a ≠ .unknown) : Orderly (act a m) := by
  cases a with
  | apply op n => exact apply_orderly h op n
  | output =>
    apply orderly_bind (read_orderly h)
    intro v m h
    exact onStreams_orderly (fun _ => rfl) h (Streams.write_orderly h.streams v)
  | input =>
    apply orderly_bind (onStreams_orderly (fun _ => rfl) h (Streams.flush_orderly h.streams))
    intro _ m h
    apply orderly_bind (onStreams_orderly (fun _ => rfl) h (Streams.read_orderly h.streams))
    intro v m h
    cases v with
    | none => exact Or.inl rfl
    | some v => exact update_orderly h _
  | unknown => exact (ha rfl).elim

theorem perform_orderly (h : m.Ready) (ha : a ≠ .unknown) : Orderly (perform b a m) :=
  orderly_bind (countStep_orderly b h) fun _ _ h => act_orderly h ha

theorem check_orderly (h : m.Ready) : Orderly (check b m) := by
  apply orderly_bind (countStep_orderly b h)
  intro _ m h
  exact orderly_bind (read_orderly h) fun _ _ h => h

/-- One round of a program of known instructions keeps the machine ready, or ends the run in order. -/
theorem round_orderly {inner : Frame} (outer : List Frame) (hf : inner.Every (· ≠ .unknown))
    (h : m.Ready) : Orderly ((runner b).round inner outer m) := by
  obtain ⟨_ | ⟨_ | body, rest⟩, loop⟩ := inner
  · cases loop with
    | none => exact h
    | some whole =>
      apply orderly_bind (check_orderly h)
      intro c m h
      cases c <;> exact h
  · exact orderly_bind (perform_orderly h (Program.every_act.mp hf.rest).1) fun _ _ h => h
  · apply orderly_bind (check_orderly h)
    intro c m h
    cases c <;> exact h

/-- So do any number of rounds. -/
theorem rounds_orderly (n : Nat) (hf : ∀ f ∈ frames, f.Every (· ≠ .unknown)) (h : m.Ready) :
    Orderly ((runner b).rounds n frames m) := by
  have hrounds := Visitor.satisfies_rounds (v := runner b) (s := m)
    (P := fun frames m => (∀ f ∈ frames, f.Every (· ≠ .unknown)) ∧ m.Ready)
    (Q := fun e _ => e.IsOrdinary) ?_ n ⟨hf, h⟩
  · cases hr : (runner b).rounds n frames m with
    | ok frames₁ m₁ =>
      rw [hr] at hrounds
      exact hrounds.2
    | error e m₁ =>
      rw [hr] at hrounds
      exact hrounds
  · rintro inner outer m ⟨hf, h⟩
    have hround : Orderly ((runner b).round inner outer m) :=
      round_orderly outer (hf inner List.mem_cons_self) h
    cases hr : (runner b).round inner outer m with
    | ok frames₁ m₁ =>
      rw [hr] at hround
      exact ⟨every_round hf hr, hround⟩
    | error e m₁ =>
      rw [hr] at hround
      exact hround

end Machine

theorem Streams.systemic_ofBytes (input : List UInt8) : (Streams.ofBytes input).Systemic where
  supplies f hf := by
    obtain ⟨b, -, hb⟩ := List.mem_map.mp hf
    cases hb
  writes _ _ h := by cases h
  flushes _ _ h := by cases h

namespace Interpreter

variable {i : Interpreter} {p : Program} {s : Streams} {t : Tape}

/-- A run of a program of known instructions has failed in order, or its streams still fail for the system
only. -/
theorem run_orderly (hc : Tape.create i.room i.memorySize = .ok t) (hroom : i.room ≤ maxIndex)
    (hp : p.isKnown = true) (hs : s.Systemic) (n : Nat) :
    (∃ e, (i.run n p s).ending = .failed e ∧ e.IsOrdinary) ∨
      (∀ e, (i.run n p s).ending ≠ .failed e) ∧ (i.run n p s).streams.Systemic := by
  obtain ⟨hin, hr, -⟩ := Tape.create_ok hc
  have hready : Machine.Ready ⟨t, s, 0⟩ := ⟨hin, Nat.le_trans (Nat.le_of_eq hr) hroom, hs⟩
  have hframe : ∀ f ∈ [Frame.mk p none], f.Every (· ≠ .unknown) := by
    intro f hf
    obtain rfl := List.mem_singleton.mp hf
    refine ⟨?_, fun body hbody => by cases hbody⟩
    rintro a ha rfl
    exact (Program.isKnown_iff p).mp hp _ ha rfl
  have hrounds := Machine.rounds_orderly (b := i.budget) n hframe hready
  rw [run_of_create_ok hc, Visitor.walk]
  cases hw : (Machine.runner i.budget).rounds n [⟨p, none⟩] ⟨t, s, 0⟩ with
  | ok frames m =>
    rw [hw] at hrounds
    refine Or.inr ⟨fun e => ?_, hrounds.streams⟩
    dsimp only
    split <;> simp
  | error e m =>
    rw [hw] at hrounds
    exact Or.inl ⟨e, rfl, hrounds⟩

end Interpreter

end Brainfuck
