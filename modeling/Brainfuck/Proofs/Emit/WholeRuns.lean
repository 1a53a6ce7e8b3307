import Brainfuck.Proofs.Emit.Equivalence

/-! A run of the interpreter, and the run of the program that is generated and read back. -/
namespace Brainfuck.Emit

open Machine

/-- Bytes held in memory, and an output that never fails. -/
def reliable (input : List UInt8) (canFlush : Bool) : Streams :=
  .start (input.map fun b => .bytes [b]) ⟨fun _ => none, fun _ => none, canFlush⟩

def state : Outcome → Native
  | .ok _ s => s
  | .error _ s => s

/-- What stopped the program, if it did not return. -/
def halt? : Outcome → Option Halt
  | .ok _ _ => none
  | .error h _ => some h

/-- Both have put out the same bytes, left the same tape, and ended for the same reason. -/
structure Agrees (r : Run) (y : Outcome) : Prop where
  written : (state y).written = r.streams.written.toList
  index : ((state y).index.toNat : Int) = r.interpreter.tape.cursor
  length : (state y).length.toNat = r.interpreter.tape.length
  size : (state y).cells.size = r.interpreter.tape.length
  byte : ∀ j, j < r.interpreter.tape.length →
    (state y).cells.byte j = r.interpreter.tape.cell j
  returns : halt? y = none ↔ r.ending = .finished
  underflow : halt? y = some (.exit "negative memory addresses are invalid") ↔ r.ending.IsUnderflow
  endOfInput : halt? y = some (.exit "cannot read stdin") ↔ r.ending = .failed .endOfInput
  stops : halt? y = none ∨ halt? y = some (.exit "negative memory addresses are invalid") ∨
    halt? y = some (.exit "cannot read stdin")

variable {junk : Nat → Nat → UInt8} {i : Interpreter} {m : Machine} {s : Native} {t : Tape}
  {e : RunError} {h : Halt} {p : Program} {input : List UInt8} {canFlush : Bool} {r : Run}
  {y : Outcome}

theorem agrees_of_mirrors (hs : Mirrors m s) :
    Agrees (i.after (.ok () m)) (Native.finish s) := by
  have hfinish : Native.finish s = .ok () s.flushed := rfl
  rw [hfinish]
  have hflushed := mirrors_flushed hs
  refine ⟨?_, hflushed.tape.index, hflushed.tape.length, hflushed.tape.size, hflushed.tape.byte,
    ⟨fun _ => rfl, fun _ => rfl⟩, ⟨?_, fun hu => hu.elim⟩, ⟨?_, ?_⟩, Or.inl rfl⟩
  · have hwritten : m.streams.written.toList = s.flushed.written :=
      hflushed.streams.written.trans (List.append_nil _)
    exact hwritten.symm
  · intro hhalt
    cases hhalt
  · intro hhalt
    cases hhalt
  · intro hending
    cases hending

theorem agrees_of_stops (hs : Stops e m h s) : Agrees (i.after (.error e m)) (.error h s) := by
  obtain ⟨⟨htape, hstreams⟩, hpending, hreason⟩ := hs
  have hwritten : s.written = m.streams.written.toList := by
    rw [hstreams.written, hpending, List.append_nil]
  have hne : Halt.exit "negative memory addresses are invalid" ≠ .exit "cannot read stdin" := by
    decide
  rcases hreason with ⟨hu, rfl⟩ | ⟨rfl, rfl⟩
  · refine ⟨hwritten, htape.index, htape.length, htape.size, htape.byte, ⟨?_, ?_⟩,
      ⟨fun _ => hu, fun _ => rfl⟩, ⟨?_, ?_⟩, Or.inr (Or.inl rfl)⟩
    · intro hhalt
      cases hhalt
    · intro hending
      cases hending
    · intro hhalt
      exact absurd (Option.some.inj hhalt) hne
    · intro hending
      cases hending
      exact hu.elim
  · refine ⟨hwritten, htape.index, htape.length, htape.size, htape.byte, ⟨?_, ?_⟩,
      ⟨?_, fun hu => hu.elim⟩, ⟨fun _ => rfl, fun _ => rfl⟩, Or.inr (Or.inr rfl)⟩
    · intro hhalt
      cases hhalt
    · intro hending
      cases hending
    · intro hhalt
      exact absurd (Option.some.inj hhalt).symm hne

/-- The first statement makes the tape that the interpreter starts with. -/
theorem mirrors_allocate (junk : Nat → Nat → UInt8) (input : List UInt8) (canFlush : Bool)
    (hc : Tape.create i.room i.memorySize = .ok t) (hroom : i.room ≤ maxIndex) :
    ∃ s, Native.perform junk (.allocate i.memorySize.toNat) (.start input) = .ok () s ∧
      Mirrors ⟨t, reliable input canFlush, 0⟩ s := by
  obtain ⟨hin, htroom, hlength, hcursor, hcells⟩ := Tape.create_ok hc
  have hle := t.length_le
  have hmax : maxIndex = 0x7FFF_FFFF_FFFF_FFFF := rfl
  have hof : (UInt64.ofNat i.memorySize.toNat).toNat = i.memorySize.toNat :=
    toNat_ofNat (by omega)
  refine ⟨⟨⟨(UInt64.ofNat i.memorySize.toNat).toNat, fun _ => 0⟩, .ofNat i.memorySize.toNat, 0, input,
    [], []⟩, rfl, ⟨hin, htroom ▸ hroom, by dsimp only; omega, by dsimp only; omega, hcursor.symm, ?_⟩,
    rfl, rfl, fun _ => rfl, fun _ => rfl⟩
  intro j hj
  rw [Tape.cell, hcells, Cells.get_zero]

theorem isShortage_after {x : Machine.Outcome} (hx : RanShort x) : (i.after x).ending.IsShortage := by
  obtain ⟨e, m, rfl, he⟩ := eq_error_of_ranShort hx
  exact he

/-- The generated program ends where the interpreter does, unless the host runs short. -/
theorem ends_of_interpreter (junk : Nat → Nat → UInt8) (hb : i.budget = none)
    (hsize : 1 ≤ i.memorySize) (hroom : i.room ≤ maxIndex) (hp : p.Portable)
    (hr : i.Ends p (reliable input canFlush) r) (hfits : ¬ r.ending.IsShortage) :
    ∃ y, Ends junk (.call (.allocate i.memorySize.toNat) :: p.code) input y := by
  cases hc : Tape.create i.room i.memorySize with
  | error e =>
    rw [Interpreter.ends_of_create_error hc] at hr
    subst hr
    rcases Tape.create_error hc hsize with rfl | rfl
    · exact absurd trivial hfits
    · exact absurd trivial hfits
  | ok t =>
    rw [Interpreter.ends_of_create_ok hc, hb] at hr
    obtain ⟨x, hx, rfl⟩ := hr
    obtain ⟨s, hs, hmirrors⟩ := mirrors_allocate junk input canFlush hc hroom
    rcases runs_of_executes junk hx hp hmirrors with hshort | ⟨y, hy, -⟩
    · exact absurd (isShortage_after hshort) hfits
    · cases y with
      | ok u s' => exact ⟨_, .returns (.call hs hy)⟩
      | error h s' => exact ⟨_, .stops (.call hs hy)⟩

/-- Once the tape is allocated the two stand at the same place. -/
theorem executes_of_main (canFlush : Bool) (hc : Tape.create i.room i.memorySize = .ok t)
    (hroom : i.room ≤ maxIndex) (hp : p.Portable)
    (hy : Runs junk (.call (.allocate i.memorySize.toNat) :: p.code) (.start input) y) :
    ∃ x, Executes none p ⟨t, reliable input canFlush, 0⟩ x ∧
      (RanShort x ∨ Related Mirrors Stops x y) := by
  obtain ⟨s, hs, hmirrors⟩ := mirrors_allocate junk input canFlush hc hroom
  cases hy with
  | call now later =>
    rw [hs] at now
    cases now
    exact executes_of_runs later hp rfl hmirrors
  | callStops now =>
    rw [hs] at now
    cases now

/-- The interpreter ends where the generated program does, and the two runs agree, unless the host runs
short. -/
theorem interpreter_of_ends (canFlush : Bool) (hb : i.budget = none) (hsize : 1 ≤ i.memorySize)
    (hroom : i.room ≤ maxIndex) (hp : p.Portable)
    (hy : Ends junk (.call (.allocate i.memorySize.toNat) :: p.code) input y) :
    ∃ r, i.Ends p (reliable input canFlush) r ∧ (r.ending.IsShortage ∨ Agrees r y) := by
  cases hc : Tape.create i.room i.memorySize with
  | error e =>
    simp only [Interpreter.ends_of_create_error hc]
    refine ⟨_, rfl, Or.inl ?_⟩
    rcases Tape.create_error hc hsize with rfl | rfl
    · trivial
    · trivial
  | ok t =>
    simp only [Interpreter.ends_of_create_ok hc, hb]
    cases hy with
    | returns body =>
      obtain ⟨x, hx, hxy⟩ := executes_of_main canFlush hc hroom hp body
      refine ⟨_, ⟨x, hx, rfl⟩, ?_⟩
      rcases hxy with hshort | hrel
      · exact Or.inl (isShortage_after hshort)
      · obtain ⟨m, rfl, hm⟩ := related_ok_right hrel rfl
        exact Or.inr (agrees_of_mirrors hm)
    | stops body =>
      obtain ⟨x, hx, hxy⟩ := executes_of_main canFlush hc hroom hp body
      refine ⟨_, ⟨x, hx, rfl⟩, ?_⟩
      rcases hxy with hshort | hrel
      · exact Or.inl (isShortage_after hshort)
      · obtain ⟨e, m, rfl, hm⟩ := related_error_right hrel rfl
        exact Or.inr (agrees_of_stops hm)

/-- A program that can be generated is, and what is read back from its text does what the interpreter does,
unless the host runs short: both end or neither does, and where they end they agree. -/
theorem generated_agrees (junk : Nat → Nat → UInt8) (input : List UInt8) (canFlush : Bool)
    (hb : i.budget = none) (hsize : 1 ≤ i.memorySize) (hroom : i.room ≤ maxIndex)
    (hp : p.Portable)
    (hfits : ∀ r, i.Ends p (reliable input canFlush) r → ¬ r.ending.IsShortage) :
    ∃ text main, source i.memorySize p = .ok text ∧ Reading.main? text = some main ∧
      ((∃ r, i.Ends p (reliable input canFlush) r) ↔ ∃ y, Ends junk main input y) ∧
      ∀ r y, i.Ends p (reliable input canFlush) r → Ends junk main input y → Agrees r y := by
  have hknown : ∀ v ∈ p.visits, v ≠ .act .unknown := by
    rintro v hv rfl
    exact hp .unknown hv
  obtain ⟨text, htext, hmain⟩ := Reading.main?_source hsize hknown
  refine ⟨text, _, htext, hmain, ⟨?_, ?_⟩, ?_⟩
  · rintro ⟨r, hr⟩
    exact ends_of_interpreter junk hb hsize hroom hp hr (hfits r hr)
  · rintro ⟨y, hy⟩
    obtain ⟨r, hr, -⟩ := interpreter_of_ends canFlush hb hsize hroom hp hy
    exact ⟨r, hr⟩
  · intro r y hr hy
    obtain ⟨r', hr', hagrees⟩ := interpreter_of_ends canFlush hb hsize hroom hp hy
    obtain rfl := Interpreter.ends_unique hr hr'
    rcases hagrees with hshort | hagrees
    · exact absurd hshort (hfits r hr)
    · exact hagrees

/-- A program that moves its input, puts it out and runs off the left end: so does what is generated. -/
theorem generated_agrees_moving :
    ∃ p text main y, Program.parse ",[->+<]>.<<" = .ok p ∧ source 1 p = .ok text ∧
      Reading.main? text = some main ∧ Ends (fun _ _ => 255) main [3] y ∧
      (state y).written = [3] ∧
      halt? y = some (.exit "negative memory addresses are invalid") := by
  let p : Program := [.act .input,
    .loop [.act (.apply .decrement .one), .act (.apply .moveRight .one),
      .act (.apply .increment .one), .act (.apply .moveLeft .one)],
    .act (.apply .moveRight .one), .act .output, .act (.apply .moveLeft .one),
    .act (.apply .moveLeft .one)]
  let i : Interpreter := .single Tape.usualRoom (by decide)
  have hone : Count.one.val < 0x1_0000_0000_0000_0000 := by decide
  have hp : p.Portable := by
    intro a ha
    simp only [p, Program.visits, Instruction.visits, List.cons_append, List.nil_append,
      List.mem_cons, Visit.act.injEq, reduceCtorEq, List.not_mem_nil, or_false, false_or] at ha
    rcases ha with rfl | rfl | rfl | rfl | rfl | rfl | rfl | rfl | rfl
    · trivial
    · trivial
    · exact hone
    · trivial
    · exact hone
    · exact hone
    · trivial
    · exact hone
    · exact hone
  have hr : i.Ends p (reliable [3] true) (i.run 40 p (reliable [3] true)) :=
    ⟨40, rfl, by decide +kernel⟩
  have hending : (i.run 40 p (reliable [3] true)).ending =
      .failed (.tape (.negativeAddress 1 0)) := by
    decide +kernel
  have hfits : ∀ r, i.Ends p (reliable [3] true) r → ¬ r.ending.IsShortage := by
    intro r hr'
    rw [Interpreter.ends_unique hr' hr, hending]
    exact id
  obtain ⟨text, main, htext, hmain, hends, hagree⟩ :=
    generated_agrees (fun _ _ => 255) [3] true rfl (by decide) (by decide) hp hfits
  obtain ⟨y, hy⟩ := hends.mp ⟨_, hr⟩
  have hagrees := hagree _ y hr hy
  refine ⟨p, text, main, y, by rfl, htext, hmain, hy, ?_, hagrees.underflow.mpr ?_⟩
  · rw [hagrees.written]
    decide +kernel
  · rw [hending]
    trivial

/-- What is generated goes on where the interpreter cannot, although its tape needs no more cells than an
index can number: growth by too many cells at once is refused only by the interpreter. -/
theorem generated_outruns :
    ∃ p r text main, Program.Portable p ∧
      (Interpreter.single maxIndex (by decide)).Ends p (reliable [] true) r ∧
      r.ending = .failed (.tape .blockTooLarge) ∧ source 1 p = .ok text ∧
      Reading.main? text = some main ∧
      ∀ junk, ∃ y, Ends junk main [] y ∧ halt? y = none ∧ (state y).length.toNat ≤ maxIndex := by
  let p : Program := [.act (.apply .moveRight ⟨0x7FFF_FFFF_FFFF_FFEC, by decide⟩)]
  let i : Interpreter := .single maxIndex (by decide)
  have hp : p.Portable := by
    intro a ha
    have hact : a = .apply .moveRight ⟨0x7FFF_FFFF_FFFF_FFEC, by decide⟩ := by
      simpa [p, Program.visits, Instruction.visits] using ha
    subst hact
    change 0x7FFF_FFFF_FFFF_FFEC < 0x1_0000_0000_0000_0000
    decide
  have hknown : ∀ v ∈ p.visits, v ≠ .act .unknown := by
    rintro v hv rfl
    exact hp .unknown hv
  have hsize : (1 : Int) ≤ 1 := by decide
  obtain ⟨text, htext, hmain⟩ := Reading.main?_source hsize hknown
  have hr : i.Ends p (reliable [] true) (i.run 2 p (reliable [] true)) :=
    ⟨2, rfl, by decide +kernel⟩
  refine ⟨p, _, text, _, hp, hr, by decide +kernel, htext, hmain, ?_⟩
  intro junk
  have hc : Tape.create i.room i.memorySize = .ok i.tape := rfl
  obtain ⟨s, hs, hmirrors⟩ := mirrors_allocate junk [] true hc (by decide)
  have hindex : s.index.toNat = 0 := by
    have hzero := hmirrors.tape.index
    exact Int.ofNat.inj hzero
  have hge : i.tape.length ≤ s.index.toNat + 0x7FFF_FFFF_FFFF_FFEC := by
    rw [hindex]
    decide
  have hmost : s.index.toNat + 0x7FFF_FFFF_FFFF_FFEC < maxIndex := by
    rw [hindex]
    decide
  obtain ⟨s', hs', -, hlength', -⟩ := moveRight_grows junk hmirrors.tape hge hmost
  refine ⟨_, .returns (.call hs (.call hs' .done)), rfl, ?_⟩
  have hstate : (state (Native.finish s')).length = s'.length := rfl
  rw [hstate, hlength', hindex]
  decide

end Brainfuck.Emit
