import Brainfuck.Proofs.Emit.Correspondence

/-! Running a program and running its code, instruction by instruction. -/
namespace Brainfuck

/-- An instruction that can be generated: moves fit into 64 bits. -/
def Action.Portable : Action → Prop
  | .apply .moveRight n => n.val < 0x1_0000_0000_0000_0000
  | .apply .moveLeft n => n.val < 0x1_0000_0000_0000_0000
  | .unknown => False
  | _ => True

/-- Every instruction, at any depth, can be generated. -/
def Program.Portable (p : Program) : Prop := ∀ a, Visit.act a ∈ p.visits → a.Portable

namespace Emit

open Machine

variable {junk : Nat → Nat → UInt8} {m : Machine} {s : Native} {a : Action} {c : Call}
  {x : Machine.Outcome}

/-- The machine and the program stand at the same place. -/
structure Mirrors (m : Machine) (s : Native) : Prop where
  tape : Holds m.tape s
  streams : Carries m.streams s

/-- Both have stopped for one reason, at the same place, and all that was put out is flushed. -/
structure Stops (e : RunError) (m : Machine) (h : Halt) (s : Native) : Prop where
  mirrors : Mirrors m s
  pending : s.pending = []
  reason : e.IsUnderflow ∧ h = .exit "negative memory addresses are invalid" ∨
    e = .endOfInput ∧ h = .exit "cannot read stdin"

/-- The host ran short of room. -/
def RanShort : Machine.Outcome → Prop
  | .error e _ => e.IsShortage
  | .ok _ _ => False

theorem eq_error_of_ranShort (h : RanShort x) : ∃ e m, x = .error e m ∧ e.IsShortage := by
  cases x with
  | ok u m => exact h.elim
  | error e m => exact ⟨e, m, rfl, h⟩

theorem mirrors_quiet {t : Tape} {s' : Native} (h : Mirrors m s) (ht : Holds t s')
    (hq : s.Quiet s') : Mirrors { m with tape := t } s' :=
  ⟨ht, carries_of_quiet h.streams hq⟩

theorem mirrors_flushed (h : Mirrors m s) : Mirrors m s.flushed :=
  ⟨holds_congr h.tape rfl rfl rfl, carries_flushed h.streams⟩

/-- A program that fails has flushed what it put out. -/
theorem stops_fail {e : RunError} {message : String} (h : Mirrors m s)
    (hr : e.IsUnderflow ∧ Halt.exit message = .exit "negative memory addresses are invalid" ∨
      e = .endOfInput ∧ Halt.exit message = .exit "cannot read stdin") :
    Related Mirrors Stops (.error e m : EStateM.Result RunError Machine Unit)
      (Native.fail message s) :=
  ⟨mirrors_flushed h, rfl, hr⟩

theorem moveRight_related (junk : Nat → Nat → UInt8) (h : Mirrors m s) (n : Nat) :
    RanShort (onTape (Tape.moveRight n) m) ∨
      Related Mirrors Stops (onTape (Tape.moveRight n) m)
        (Native.moveRight junk (.ofNat n) s) := by
  rw [onTape_apply]
  obtain ⟨e, u, hu, he⟩ | ⟨u, s', hu, hs', hhold, hquiet⟩ := moveRight_holds junk h.tape n
  · rw [hu]
    exact Or.inl he
  · rw [hu, hs']
    exact Or.inr ⟨rfl, mirrors_quiet h hhold hquiet⟩

theorem moveLeft_related {n : Nat} (h : Mirrors m s) (hn : n < 0x1_0000_0000_0000_0000) :
    Related Mirrors Stops (onTape (Tape.moveLeft n) m) (Native.moveLeft (.ofNat n) s) := by
  rw [onTape_apply]
  obtain ⟨hu, hs'⟩ | ⟨u, s', hu, hs', hhold, hquiet⟩ := moveLeft_holds h.tape hn
  · rw [hu, hs']
    exact stops_fail h (Or.inl ⟨trivial, rfl⟩)
  · rw [hu, hs']
    exact ⟨rfl, mirrors_quiet h hhold hquiet⟩

theorem store_related {f : UInt8 → UInt8} {v : UInt8} (h : Mirrors m s)
    (hv : f (m.tape.cell m.tape.cursor.toNat) = v) :
    Related Mirrors Stops (onTape (Tape.update f) m) (Native.store s.index v s) := by
  rw [onTape_apply]
  obtain ⟨u, s', hu, hs', hhold, hquiet⟩ := update_store h.tape hv
  rw [hu, hs']
  exact ⟨rfl, mirrors_quiet h hhold hquiet⟩

theorem change_of_load {g : Int → Int → Int} {n v : UInt8}
    (h : Native.load s.index s = .ok v s) :
    Native.change g n s = Native.store s.index (.ofInt (g v.toNat n.toNat)) s := by
  change EStateM.bind (Native.load s.index)
    (fun v => Native.store s.index (.ofInt (g v.toNat n.toNat))) s = _
  rw [EStateM.bind, h]

theorem change_related {f : UInt8 → UInt8} {g : Int → Int → Int} {n : UInt8} (h : Mirrors m s)
    (hg : ∀ v : UInt8, UInt8.ofInt (g v.toNat n.toNat) = f v) :
    Related Mirrors Stops (onTape (Tape.update f) m) (Native.change g n s) := by
  rw [change_of_load (read_load h.tape).2]
  exact store_related h (hg _).symm

theorem output_related (h : Mirrors m s) :
    Related Mirrors Stops (Machine.output m) (Native.output s) := by
  obtain ⟨hread, hload⟩ := read_load h.tape
  generalize m.tape.cell m.tape.cursor.toNat = v at hread hload
  obtain ⟨st, hwrite, hst⟩ := write_carries h.streams v
  have hm : Machine.output m = onStreams .cannotWrite (Streams.write v) m := by
    change EStateM.bind (onTape Tape.read)
      (fun b => onStreams .cannotWrite (Streams.write b)) m = _
    rw [EStateM.bind, onTape_apply, hread]
  have hs : Native.output s = .ok () { s with pending := s.pending ++ [v] } := by
    change EStateM.bind (Native.load s.index) _ s = _
    rw [EStateM.bind, hload]
    rfl
  rw [hm, hs, onStreams_apply, hwrite]
  exact ⟨rfl, holds_congr h.tape rfl rfl rfl, hst⟩

theorem input_of_nil (h : s.unread = []) :
    Native.input s = Native.fail "cannot read stdin" s.flushed := by
  have hnone : Native.getchar s.flushed = .ok none s.flushed := by
    simp only [Native.getchar, Native.flushed, h]
  change EStateM.bind Native.getchar _ s.flushed = _
  rw [EStateM.bind, hnone]

theorem input_of_cons {v : UInt8} {rest : List UInt8} (h : s.unread = v :: rest) :
    Native.input s = Native.store s.index v { s.flushed with unread := rest } := by
  have hsome : Native.getchar s.flushed = .ok (some v) { s.flushed with unread := rest } := by
    simp only [Native.getchar, Native.flushed, h]
  change EStateM.bind Native.getchar _ s.flushed = _
  rw [EStateM.bind, hsome]
  rfl

/-- What the machine does with what it reads. -/
theorem input_of_read {st st' : Streams} {b : Option UInt8}
    (hflush : m.streams.flush = .ok () st) (hread : st.read = .ok b st') :
    Machine.input m = b.elim (throw .endOfInput) (fun v => onTape (Tape.write v.toNat))
      { m with streams := st' } := by
  change EStateM.bind (onStreams .cannotFlush Streams.flush) _ m = _
  rw [EStateM.bind, onStreams_apply, hflush]
  change EStateM.bind (onStreams .cannotRead Streams.read) _ { m with streams := st } = _
  rw [EStateM.bind, onStreams_apply]
  dsimp only
  rw [hread]
  cases b <;> rfl

theorem input_related (h : Mirrors m s) :
    Related Mirrors Stops (Machine.input m) (Native.input s) := by
  obtain ⟨st, hflush, hst⟩ := flush_carries h.streams
  cases hu : s.unread with
  | nil =>
    obtain ⟨st', hread, hst'⟩ := read_carries_end hst hu
    have hmirrors : Mirrors { m with streams := st' } s.flushed :=
      ⟨holds_congr h.tape rfl rfl rfl, hst'⟩
    rw [input_of_read hflush hread, input_of_nil hu]
    exact stops_fail hmirrors (Or.inr ⟨rfl, rfl⟩)
  | cons v rest =>
    obtain ⟨st', hread, hst'⟩ := read_carries hst hu
    have hmirrors : Mirrors { m with streams := st' } { s.flushed with unread := rest } :=
      ⟨holds_congr h.tape rfl rfl rfl, hst'⟩
    rw [input_of_read hflush hread, input_of_cons hu]
    exact store_related hmirrors (Tape.ofInt_toNat v)

/-- One instruction and its call, unless the host runs short. -/
theorem act_related (junk : Nat → Nat → UInt8) (h : Mirrors m s) (ha : a.Portable)
    (hc : a.call? = some c) :
    RanShort (Machine.act a m) ∨
      Related Mirrors Stops (Machine.act a m) (Native.perform junk c s) := by
  cases a with
  | apply op n =>
    cases hc
    cases op with
    | moveRight => exact moveRight_related junk h n.val
    | moveLeft => exact Or.inr (moveLeft_related h ha)
    | increment =>
      right
      change Related Mirrors Stops (onTape (Tape.update fun v => v + .ofInt n.val) m)
        (Native.change (· + ·) (.ofNat (n.val % 256)) s)
      exact change_related h fun v => ofInt_add_mod v n.val
    | decrement =>
      right
      change Related Mirrors Stops (onTape (Tape.update fun v => v - .ofInt n.val) m)
        (Native.change (· - ·) (.ofNat (n.val % 256)) s)
      exact change_related h fun v => ofInt_sub_mod v n.val
  | output =>
    cases hc
    exact Or.inr (output_related h)
  | input =>
    cases hc
    exact Or.inr (input_related h)
  | unknown => exact ha.elim

theorem test_related (h : Mirrors m s) :
    Related Mirrors Stops (Machine.test m) (Native.test s) := by
  obtain ⟨hread, hload⟩ := read_load h.tape
  have hm : Machine.test m = .ok (m.tape.cell m.tape.cursor.toNat != 0) m := by
    change EStateM.bind (onTape Tape.read) _ m = _
    rw [EStateM.bind, onTape_apply, hread]
    rfl
  have hs : Native.test s = .ok (m.tape.cell m.tape.cursor.toNat != 0) s := by
    change EStateM.bind (Native.load s.index) _ s = _
    rw [EStateM.bind, hload]
    rfl
  rw [hm, hs]
  exact ⟨rfl, h⟩

end Emit

end Brainfuck
