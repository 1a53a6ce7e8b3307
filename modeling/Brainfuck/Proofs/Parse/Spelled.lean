import Brainfuck.Program.Parse
import Brainfuck.Proofs.Optimize.Units
import Brainfuck.Proofs.Program.Spelling

/-! Reading what a program spells. Counts come back written out, and each body comes back where its
brackets stand. -/
namespace Brainfuck

namespace Program

variable {p : Program} {s : String} {memory : TextMemory} {op : TapeOp} {cs : List Char}
  {n : Nat} {done : List Instruction} {loops : List OpenLoop}

theorem parseFrom_tape : parseFrom ((Symbol.tape op).toChar :: cs) n done loops =
    parseFrom cs (n + 1) (.act (.apply op .one) :: done) loops := by
  cases op <;> rfl

theorem parseFrom_loopStart : parseFrom (Symbol.loopStart.toChar :: cs) n done loops =
    parseFrom cs (n + 1) [] (⟨n, done⟩ :: loops) := rfl

theorem parseFrom_loopEnd {l : OpenLoop} :
    parseFrom (Symbol.loopEnd.toChar :: cs) n done (l :: loops) =
      parseFrom cs (n + 1) (.loop done.reverse :: l.before) loops := rfl

/-- A run of one symbol is read as a run of units. -/
theorem parseFrom_run (k : Nat) :
    parseFrom ((List.replicate k (.tape op)).map Symbol.toChar ++ cs) n done loops =
      parseFrom cs (n + k) (List.replicate k (.act (.apply op .one)) ++ done) loops := by
  induction k generalizing n done with
  | zero => rfl
  | succ k ih =>
    have hpos : n + 1 + k = n + (k + 1) := by omega
    have hrun : List.replicate k (Instruction.act (.apply op .one)) ++ .act (.apply op .one) :: done =
        List.replicate (k + 1) (.act (.apply op .one)) ++ done := by
      rw [List.replicate_succ', List.append_assoc]
      rfl
    rw [List.replicate_succ, List.map_cons, List.cons_append, parseFrom_tape, ih, hpos, hrun]

theorem parseFrom_action (a : Action) (ha : (Instruction.act a).isKnown = true) :
    parseFrom ((Instruction.act a).symbols.map Symbol.toChar ++ cs) n done loops =
      parseFrom cs (n + (Instruction.act a).symbols.length)
        ((Instruction.act a).units.reverse ++ done) loops := by
  cases a with
  | apply op k =>
    have hsymbols : (Instruction.act (.apply op k)).symbols = List.replicate k.val (.tape op) := by
      simp [Instruction.symbols, Instruction.visits, Visit.symbols]
    have hunits : (Instruction.act (.apply op k)).units.reverse =
        List.replicate k.val (.act (.apply op .one)) := by
      simp [Instruction.units, Action.units]
    rw [hsymbols, hunits, parseFrom_run, List.length_replicate]
  | output => rfl
  | input => rfl
  | unknown => cases ha

mutual

theorem parseFrom_instruction : ∀ (i : Instruction) (cs : List Char) (n : Nat)
    (done : List Instruction) (loops : List OpenLoop), i.isKnown = true →
    parseFrom (i.symbols.map Symbol.toChar ++ cs) n done loops =
      parseFrom cs (n + i.symbols.length) (i.units.reverse ++ done) loops
  | .act a, _, _, _, _, hi => parseFrom_action a hi
  | .loop body, cs, n, done, loops, hi => by
    have hbody := parseFrom_program body (Symbol.loopEnd.toChar :: cs) (n + 1) []
      (⟨n, done⟩ :: loops) hi
    have hpos : n + 1 + (symbols body).length + 1 = n + (Instruction.loop body).symbols.length := by
      rw [Instruction.symbols_loop]
      simp only [List.length_append, List.length_cons, List.length_nil]
      omega
    have hchars : (Instruction.loop body).symbols.map Symbol.toChar ++ cs = Symbol.loopStart.toChar ::
        ((symbols body).map Symbol.toChar ++ Symbol.loopEnd.toChar :: cs) := by
      rw [Instruction.symbols_loop]
      simp
    rw [hchars, parseFrom_loopStart, hbody, parseFrom_loopEnd, List.append_nil, List.reverse_reverse,
      hpos]
    rfl

/-- What a known program spells is read as its units, whatever is open around it. -/
theorem parseFrom_program : ∀ (p : Program) (cs : List Char) (n : Nat) (done : List Instruction)
    (loops : List OpenLoop), p.isKnown = true →
    parseFrom ((symbols p).map Symbol.toChar ++ cs) n done loops =
      parseFrom cs (n + (symbols p).length) (p.units.reverse ++ done) loops
  | [], _, _, _, _, _ => rfl
  | i :: p, cs, n, done, loops, hp => by
    obtain ⟨hi, hp⟩ : i.isKnown = true ∧ isKnown p = true := by simpa [isKnown] using hp
    have hfirst := parseFrom_instruction i ((symbols p).map Symbol.toChar ++ cs) n done loops hi
    have hrest := parseFrom_program p cs (n + i.symbols.length) (i.units.reverse ++ done) loops hp
    have hpos : n + i.symbols.length + (symbols p).length = n + (symbols (i :: p)).length := by
      rw [symbols_cons, List.length_append, Nat.add_assoc]
    rw [hpos] at hrest
    rw [symbols_cons, List.map_append, List.append_assoc, hfirst, hrest, symbols_cons, units,
      List.reverse_append, List.append_assoc]

end

/-- Reading the symbols of a known program gives the program with its counts written out. -/
theorem parse_spell (hp : p.isKnown = true) : parse (Symbol.spell p.symbols) = .ok p.units := by
  have h := parseFrom_program p [] 0 [] [] hp
  rw [List.append_nil, List.append_nil] at h
  rw [parse, Symbol.spell, String.toList_ofList, h, parseFrom, List.reverse_reverse]

theorem parse_of_text (h : p.text memory = .ok s) : parse s = .ok p.units := by
  rw [text_eq h]
  exact parse_spell (isKnown_of_text h)

theorem map_optimize_units : (Except.ok p.units : Except ParseError Program).map optimize =
    .ok p.optimize :=
  congrArg Except.ok optimize_units

/-- Reading the text of a known program, if there is memory to write it, gives the program with its counts
written out, which merges to what the program merges to; and so does reading the symbols of a program, even
of one that there is no memory to write. A text is wanting only where texts no longer than it cannot be held,
and no host can write a run that is too long to be indexed. -/
theorem parse_undoes_text (hp : p.isKnown = true) :
    (∀ memory s, p.text memory = .ok s →
      parse s = .ok p.units ∧ (parse s).map optimize = .ok p.optimize) ∧
    (∀ memory e, p.text memory = .error e →
      ∃ lengths, memory lengths = some e ∧ ∀ k ∈ lengths, k ≤ p.symbols.length) ∧
    (∀ holds s, p.text (.host holds) = .ok s →
      ∀ op n, .act (.apply op n) ∈ p.visits → n.val ≤ maxIndex) ∧
    parse (Symbol.spell p.symbols) = .ok p.units ∧
    (parse (Symbol.spell p.symbols)).map optimize = .ok p.optimize := by
  refine ⟨?read, fun _ _ h => text_error hp h, fun _ _ h _ _ hv => count_le_of_text h hv,
    parse_spell hp, ?_⟩
  case read =>
    intro memory s hs
    have hparse : parse s = .ok p.units := parse_of_text hs
    exact ⟨hparse, by rw [hparse, map_optimize_units]⟩
  · rw [parse_spell hp, map_optimize_units]

/-- Runs on both sides of a loop and inside it: the text is read as the units. -/
theorem parse_undoes_text_nested :
    let p : Program := [.act (.apply .increment ⟨2, by decide⟩),
      .loop [.act (.apply .moveRight ⟨2, by decide⟩), .loop [], .act .output],
      .act (.apply .decrement ⟨3, by decide⟩)]
    p.isKnown = true ∧ p.text = .ok "++[>>[].]---" ∧ parse "++[>>[].]---" = .ok p.units ∧
      (parse "++[>>[].]---").map optimize = .ok p.optimize := by
  intro p
  have hp : p.isKnown = true := by decide
  have htext : p.text = .ok "++[>>[].]---" := by rfl
  obtain ⟨hparse, hmerged⟩ := (parse_undoes_text hp).1 .usual _ htext
  exact ⟨hp, htext, hparse, hmerged⟩

/-- A run too long to be counted in a text leaves a known program without one. -/
theorem no_text_of_long_run :
    let p : Program := [.act (.apply .increment ⟨0x8000_0000_0000_0000, by decide⟩)]
    p.isKnown = true ∧ p.text = .error .tooLong := by
  intro p
  exact ⟨by decide, by rfl⟩

end Program

end Brainfuck
