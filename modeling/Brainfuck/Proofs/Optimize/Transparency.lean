import Brainfuck.Proofs.Execution.Source
import Brainfuck.Proofs.Optimize.Runs

/-! Runs of a program and of its merged form, as their callers see them. -/
namespace Brainfuck

/-- Runs that treat their streams alike, end alike and leave tapes with the same cells. The cursors are at the
same place too, unless the program moved left of the first cell. -/
structure Run.Agrees (r r' : Run) : Prop where
  streams : r.streams = r'.streams
  ending : r.ending = r'.ending ∨ r.ending.IsUnderflow ∧ r'.ending.IsUnderflow
  length : r.interpreter.tape.length = r'.interpreter.tape.length
  cell : ∀ j, r.interpreter.tape.cell j = r'.interpreter.tape.cell j
  cursor : ¬ r.ending.IsUnderflow → r.interpreter.tape.cursor = r'.interpreter.tape.cursor

/-- Both runs moved left of the first cell. -/
def BothUnderflow (x y : Except SourceError (List UInt8)) : Prop :=
  ∃ e e', x = .error (.run e) ∧ y = .error (.run e') ∧ e.IsUnderflow ∧ e'.IsUnderflow

namespace Interpreter

open Machine

variable {i : Interpreter} {p q : Program} {s : Streams} {t : Tape} {r r' : Run}

theorem agrees_of_related {le : Nat → Nat → Prop} {x y : Outcome}
    (h : Related (Agree le) (FailsLike le) x y) (hx : ¬ (i.after x).ending.IsOutOfMemory) :
    (i.after x).Agrees (i.after y) := by
  cases x with
  | ok _ m =>
    obtain ⟨m', rfl, hm⟩ := related_ok_left h rfl
    exact ⟨hm.streams, Or.inl rfl, hm.tape.1.length, hm.tape.1.cell, fun _ => hm.tape.1.cursor⟩
  | error e m =>
    obtain ⟨e', m', rfl, he⟩ := related_error_left h rfl
    have hmemory : e ≠ .tape .outOfMemory := by
      rintro rfl
      exact hx trivial
    refine ⟨he.streams, ?_, he.length hmemory, he.cell, he.cursor hmemory⟩
    rcases he.error with rfl | hu
    · exact Or.inl rfl
    · exact Or.inr hu

theorem agrees_refl (r : Run) : r.Agrees r :=
  ⟨rfl, Or.inl rfl, rfl, fun _ => rfl, fun _ => rfl⟩

/-- Of programs of which one improves the other, either ends where the other completes, and where both
complete they agree. -/
theorem completes_of_improves (hb : i.budget = none) (h : Improves p q) :
    (∀ r, i.Completes p s r → ∃ r', i.Ends q s r') ∧
    (∀ r', i.Completes q s r' → ∃ r, i.Ends p s r) ∧
    ∀ r r', i.Completes p s r → i.Completes q s r' → r.Agrees r' := by
  cases hc : Tape.create i.room i.memorySize with
  | error e =>
    simp only [Completes, ends_of_create_error hc]
    refine ⟨fun _ _ => ⟨_, rfl⟩, fun _ _ => ⟨_, rfl⟩, ?_⟩
    rintro r r' ⟨rfl, -⟩ ⟨rfl, -⟩
    exact agrees_refl _
  | ok t =>
    have ht : Tape.Alike t t := ⟨Tape.same_refl t, (Tape.create_ok hc).1⟩
    simp only [Completes, ends_of_create_ok hc, hb]
    refine ⟨?_, ?_, ?_⟩
    · rintro r ⟨⟨x, hx, rfl⟩, -⟩
      obtain ⟨y, hy, -⟩ := h.forth _ ⟨t, s, 0⟩ x ⟨ht, rfl, Nat.le_refl _⟩ hx
      exact ⟨_, y, hy, rfl⟩
    · rintro r ⟨⟨y, hy, rfl⟩, -⟩
      obtain ⟨x, hx, -⟩ := h.back _ ⟨t, s, 0⟩ y ⟨ht, rfl, Nat.le_refl _⟩ hy
      exact ⟨_, x, hx, rfl⟩
    · rintro r r' ⟨⟨x, hx, rfl⟩, hmemory⟩ ⟨⟨y, hy, rfl⟩, -⟩
      obtain ⟨y', hy', hxy⟩ := h.forth _ ⟨t, s, 0⟩ x ⟨ht, rfl, Nat.le_refl _⟩ hx
      rw [executes_unique hy hy']
      exact agrees_of_related hxy hmemory

theorem bytes_of_agrees (h : r.Agrees r') :
    r.bytes = r'.bytes ∨ BothUnderflow r.bytes r'.bytes := by
  unfold Run.bytes
  rcases h.ending with he | ⟨hu, hu'⟩
  · rw [he, h.streams]
    exact Or.inl rfl
  · cases hr : r.ending with
    | finished => simp [hr, Ending.IsUnderflow] at hu
    | unfinished => simp [hr, Ending.IsUnderflow] at hu
    | failed e =>
      cases hr' : r'.ending with
      | finished => simp [hr', Ending.IsUnderflow] at hu'
      | unfinished => simp [hr', Ending.IsUnderflow] at hu'
      | failed e' =>
        rw [hr] at hu
        rw [hr'] at hu'
        exact Or.inr ⟨e, e', rfl, rfl, hu, hu'⟩

variable {room : Nat} {source : String} {input : List UInt8} {size : Int} {optimized : Bool}
  {x y : Except SourceError (List UInt8)}

theorem sourceCompletes_of_create_ok (hp : Program.parse source = .ok p)
    (hc : create room size none = .ok i) :
    SourceCompletes room source input size optimized x ↔
      ∃ r, i.Completes (if optimized then p.optimize else p) (.ofBytes input) r ∧ r.bytes = x := by
  rw [SourceCompletes, sourceEndsWithin_of_create_ok hp hc]
  constructor
  · rintro ⟨⟨r, hr, rfl⟩, hmemory⟩
    exact ⟨r, ⟨hr, fun hout => hmemory (Run.ranOutOfMemory_bytes.mpr hout)⟩, rfl⟩
  · rintro ⟨r, ⟨hr, hmemory⟩, rfl⟩
    exact ⟨⟨r, hr, rfl⟩, fun hout => hmemory (Run.ranOutOfMemory_bytes.mp hout)⟩

/-- Merging first does not change what a source text gives. -/
theorem sourceCompletes_agree
    (h : ∀ p, Program.parse source = .ok p → p.RightRunsWithin maxBlock) :
    (∀ x, SourceCompletes room source input size true x →
      ∃ y, SourceEndsWithin none room source input size false y) ∧
    (∀ y, SourceCompletes room source input size false y →
      ∃ x, SourceEndsWithin none room source input size true x) ∧
    ∀ x y, SourceCompletes room source input size true x →
      SourceCompletes room source input size false y → x = y ∨ BothUnderflow x y := by
  cases hp : Program.parse source with
  | error e =>
    simp only [SourceCompletes, sourceEndsWithin_of_parse_error hp]
    refine ⟨fun _ _ => ⟨_, rfl⟩, fun _ _ => ⟨_, rfl⟩, ?_⟩
    rintro x y ⟨rfl, -⟩ ⟨rfl, -⟩
    exact Or.inl rfl
  | ok p =>
    cases hc : create room size none with
    | error e =>
      simp only [SourceCompletes, sourceEndsWithin_of_create_error hp hc]
      refine ⟨fun _ _ => ⟨_, rfl⟩, fun _ _ => ⟨_, rfl⟩, ?_⟩
      rintro x y ⟨rfl, -⟩ ⟨rfl, -⟩
      exact Or.inl rfl
    | ok i =>
      obtain ⟨hforth, hback, hagree⟩ := completes_of_improves (s := .ofBytes input)
        (create_ok hc).budget (improves_optimize (h p hp))
      simp only [sourceCompletes_of_create_ok hp hc, sourceEndsWithin_of_create_ok hp hc, if_true,
        Bool.false_eq_true, if_false]
      refine ⟨?_, ?_, ?_⟩
      · rintro x ⟨r', hr', -⟩
        obtain ⟨r, hr⟩ := hback r' hr'
        exact ⟨_, r, hr, rfl⟩
      · rintro y ⟨r, hr, -⟩
        obtain ⟨r', hr'⟩ := hforth r hr
        exact ⟨_, r', hr', rfl⟩
      · rintro x y ⟨r', hr', rfl⟩ ⟨r, hr, rfl⟩
        rcases bytes_of_agrees (hagree r r' hr hr') with heq | ⟨e, e', he, he', hu, hu'⟩
        · exact Or.inl heq.symm
        · exact Or.inr ⟨e', e, he', he, hu', hu⟩

/-- Merging runs that move no further than a block at once is not noticed by a run without a budget that
memory does not give out on. If the run of a program or of its merged form completes, the other one ends;
and if both complete, they agree. Neither is merging noticed in what a source text gives. -/
theorem optimize_transparent (hb : i.budget = none) (hp : p.RightRunsWithin maxBlock) :
    ((∀ r, i.Completes p s r → ∃ r', i.Ends p.optimize s r') ∧
      (∀ r', i.Completes p.optimize s r' → ∃ r, i.Ends p s r) ∧
      ∀ r r', i.Completes p s r → i.Completes p.optimize s r' → r.Agrees r') ∧
    ∀ room source input size,
      (∀ q, Program.parse source = .ok q → q.RightRunsWithin maxBlock) →
      (∀ x, SourceCompletes room source input size true x →
        ∃ y, SourceEndsWithin none room source input size false y) ∧
      (∀ y, SourceCompletes room source input size false y →
        ∃ x, SourceEndsWithin none room source input size true x) ∧
      ∀ x y, SourceCompletes room source input size true x →
        SourceCompletes room source input size false y → x = y ∨ BothUnderflow x y :=
  ⟨completes_of_improves hb (improves_optimize hp), fun _ _ _ _ h => sourceCompletes_agree h⟩

/-- A loop whose runs merge, inside and out: the run of the text's program and that of the merged one end
alike. -/
theorem optimize_transparent_doubling :
    ∃ p r r', Program.parse "++[->>++<<]>>." = .ok p ∧
      (single Tape.usualRoom (by decide)).Completes p (.ofBytes []) r ∧
      (single Tape.usualRoom (by decide)).Completes p.optimize (.ofBytes []) r' ∧
      r.ending = .finished ∧ r.streams.written.toList = [4] ∧ r.Agrees r' := by
  let p : Program := [.act (.apply .increment .one), .act (.apply .increment .one),
    .loop [.act (.apply .decrement .one), .act (.apply .moveRight .one),
      .act (.apply .moveRight .one), .act (.apply .increment .one),
      .act (.apply .increment .one), .act (.apply .moveLeft .one), .act (.apply .moveLeft .one)],
    .act (.apply .moveRight .one), .act (.apply .moveRight .one), .act .output]
  let i : Interpreter := single Tape.usualRoom (by decide)
  have hp : p.RightRunsWithin maxBlock :=
    Program.rightRunsWithin_of_reach (by decide +kernel)
  have hr : i.Completes p (.ofBytes []) (i.run 30 p (.ofBytes [])) :=
    completes_run (x := .finished) (by decide +kernel) (by decide) id
  have hr' : i.Completes p.optimize (.ofBytes []) (i.run 30 p.optimize (.ofBytes [])) :=
    completes_run (x := .finished) (by decide +kernel) (by decide) id
  have hagree := (optimize_transparent (i := i) (s := .ofBytes []) rfl hp).1.2.2
  exact ⟨p, _, _, by rfl, hr, hr', by decide +kernel, by decide +kernel, hagree _ _ hr hr'⟩

/-- Runs that move further at once are noticed. Two moves that the tape can follow one by one are too much
for it in one; and where memory is short, the first of two leaves cells that their sum does not. -/
theorem optimize_noticed :
    (∃ p r r', Program.RightRunsWithin maxIndex p ∧
      (single maxIndex (by decide)).Ends p (.ofBytes []) r ∧
      (single maxIndex (by decide)).Ends p.optimize (.ofBytes []) r' ∧
      r.ending = .finished ∧ r'.ending = .failed (.tape .blockTooLarge)) ∧
    (∃ p r r', Program.RightRunsWithin maxIndex p ∧
      (single Tape.usualRoom (by decide)).Ends p (.ofBytes []) r ∧
      (single Tape.usualRoom (by decide)).Ends p.optimize (.ofBytes []) r' ∧
      r.ending = .failed (.tape .outOfMemory) ∧ r'.ending = .failed (.tape .blockTooLarge)) ∧
    ∃ p r r', Program.RightRunsWithin maxIndex p ∧
      (single Tape.usualRoom (by decide)).Ends p (.ofBytes []) r ∧
      (single Tape.usualRoom (by decide)).Ends p.optimize (.ofBytes []) r' ∧
      r.interpreter.tape.length = 2 ∧ r'.interpreter.tape.length = 1 := by
  let far : Program := [.act (.apply .moveRight ⟨0x4000_0000_0000_0000, by decide⟩),
    .act (.apply .moveRight ⟨0x3FFF_FFFF_FFFF_FFF5, by decide⟩)]
  let near : Program := [.act (.apply .moveRight .one),
    .act (.apply .moveRight ⟨0x4000_0000_0000_0000, by decide⟩)]
  have hfar : far.RightRunsWithin maxIndex :=
    Program.rightRunsWithin_of_reach (by decide +kernel)
  have hnear : near.RightRunsWithin maxIndex :=
    Program.rightRunsWithin_of_reach (by decide +kernel)
  refine ⟨⟨far, _, _, hfar, ⟨3, rfl, ?_⟩, ⟨3, rfl, ?_⟩, ?_, ?_⟩,
    ⟨far, _, _, hfar, ⟨3, rfl, ?_⟩, ⟨3, rfl, ?_⟩, ?_, ?_⟩,
    near, _, _, hnear, ⟨3, rfl, ?_⟩, ⟨3, rfl, ?_⟩, ?_, ?_⟩
  all_goals decide +kernel

end Interpreter

end Brainfuck
