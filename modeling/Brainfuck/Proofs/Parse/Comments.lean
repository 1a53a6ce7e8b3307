import Brainfuck.Proofs.Parse.Spelled

/-! Texts without their comments: they are what is left of a text once it has been read. -/
namespace Brainfuck

namespace Symbol

/-- All characters that are not comments. -/
def chars : List Char := ['>', '<', '+', '-', '.', ',', '[', ']']

/-- The text without its comments, in the same order. -/
def uncommented (source : String) : String := String.ofList (source.toList.filter (· ∈ chars))

theorem mem_chars_toChar (x : Symbol) : x.toChar ∈ chars := by
  cases x with
  | tape op => cases op <;> decide
  | _ => decide

theorem ofChar?_of_notMem {c : Char} (h : c ∉ chars) : ofChar? c = none := by
  cases hc : ofChar? c with
  | none => rfl
  | some x =>
    obtain rfl := ofChar?_eq_some_iff.mp hc
    exact (h (mem_chars_toChar x)).elim

theorem exists_of_mem_chars {c : Char} (h : c ∈ chars) : ∃ x, ofChar? c = some x := by
  simp only [chars, List.mem_cons, List.not_mem_nil, or_false] at h
  rcases h with rfl | rfl | rfl | rfl | rfl | rfl | rfl | rfl <;> exact ⟨_, rfl⟩

/-- What is left without comments spells the symbols of the text. -/
theorem uncommented_eq_spell (source : String) :
    uncommented source = spell (source.toList.filterMap ofChar?) := by
  rw [uncommented, spell, String.ofList_inj]
  induction source.toList with
  | nil => rfl
  | cons c cs ih =>
    by_cases hc : c ∈ chars
    · obtain ⟨x, hx⟩ := exists_of_mem_chars hc
      have hchar : c = x.toChar := ofChar?_eq_some_iff.mp hx
      rw [List.filter_cons_of_pos (by simpa using hc), List.filterMap_cons_some hx, List.map_cons, ih,
        ← hchar]
    · have hx : ofChar? c = none := ofChar?_of_notMem hc
      rw [List.filter_cons_of_neg (by simpa using hc), List.filterMap_cons_none hx, ih]

end Symbol

/-- What is visited where a symbol of the text stands. -/
def Visit.ofSymbol : Symbol → Visit
  | .tape op => .act (.apply op .one)
  | .output => .act .output
  | .input => .act .input
  | .loopStart => .enter
  | .loopEnd => .leave

theorem Visit.symbols_ofSymbol (x : Symbol) : (ofSymbol x).symbols = [x] := by
  cases x <;> rfl

namespace Program

variable {p q : Program} {s t : String} {i : Instruction} {done : List Instruction}
  {loops : List OpenLoop} {l : OpenLoop} {cs : List Char} {n : Nat}

/-- The visits of what has been read when these loops are open; `done` is the innermost body. -/
def visitsRead (done : List Instruction) : List OpenLoop → List Visit
  | [] => visits done.reverse
  | l :: loops => visitsRead l.before loops ++ .enter :: visits done.reverse

theorem visits_reverse_cons : visits (i :: done).reverse = visits done.reverse ++ i.visits := by
  rw [List.reverse_cons, visits_append, visits, visits, List.append_nil]

theorem visitsRead_cons : visitsRead (i :: done) loops = visitsRead done loops ++ i.visits := by
  cases loops with
  | nil => exact visits_reverse_cons
  | cons l loops =>
    rw [visitsRead, visitsRead, visits_reverse_cons, List.append_assoc, List.cons_append]

/-- Closing a loop puts its end after what has been read. -/
theorem visitsRead_close : visitsRead (.loop done.reverse :: l.before) loops =
    visitsRead done (l :: loops) ++ [.leave] := by
  rw [visitsRead_cons, visitsRead, Instruction.visits, List.append_assoc, List.cons_append]

/-- Every symbol that is read is visited where it stands, and nothing else is. -/
theorem visits_parseFrom (h : parseFrom cs n done loops = .ok p) :
    visits p = visitsRead done loops ++ (cs.filterMap Symbol.ofChar?).map Visit.ofSymbol := by
  induction cs generalizing n done loops with
  | nil =>
    cases loops with
    | nil =>
      cases h
      rw [List.filterMap_nil, List.map_nil, List.append_nil]
      rfl
    | cons l loops => cases h
  | cons c cs ih =>
    unfold parseFrom at h
    split at h
    next hc => rw [List.filterMap_cons_none hc, ih h]
    next op hc =>
      rw [List.filterMap_cons_some hc, List.map_cons, ih h, visitsRead_cons, List.append_assoc]
      rfl
    next hc =>
      rw [List.filterMap_cons_some hc, List.map_cons, ih h, visitsRead_cons, List.append_assoc]
      rfl
    next hc =>
      rw [List.filterMap_cons_some hc, List.map_cons, ih h, visitsRead_cons, List.append_assoc]
      rfl
    next hc =>
      rw [List.filterMap_cons_some hc, List.map_cons, ih h, visitsRead, List.append_assoc]
      rfl
    next hc =>
      cases loops with
      | nil => cases h
      | cons l loops =>
        rw [List.filterMap_cons_some hc, List.map_cons, ih h, visitsRead_close, List.append_assoc]
        rfl

theorem visits_of_parse (h : parse s = .ok p) :
    visits p = (s.toList.filterMap Symbol.ofChar?).map Visit.ofSymbol :=
  visits_parseFrom h

theorem symbols_of_parse (h : parse s = .ok p) : symbols p = s.toList.filterMap Symbol.ofChar? := by
  rw [symbols, visits_of_parse h]
  induction s.toList.filterMap Symbol.ofChar? with
  | nil => rfl
  | cons x xs ih =>
    rw [List.map_cons, List.flatMap_cons, Visit.symbols_ofSymbol, ih, List.singleton_append]

theorem isKnown_of_parse (h : parse s = .ok p) : p.isKnown = true := by
  rw [isKnown_iff, visits_of_parse h]
  intro v hv hunknown
  obtain ⟨x, -, rfl⟩ := List.mem_map.mp hv
  cases x <;> cases hunknown

theorem spell_of_parse (h : parse s = .ok p) : Symbol.spell p.symbols = Symbol.uncommented s := by
  rw [symbols_of_parse h, Symbol.uncommented_eq_spell]

mutual

theorem units_of_single_instruction : ∀ i : Instruction,
    (∀ v ∈ i.visits, ∃ x, v = Visit.ofSymbol x) → i.units = [i]
  | .act a, h => by
    obtain ⟨x, hx⟩ := h (.act a) (by simp [Instruction.visits])
    cases x <;> cases hx <;> rfl
  | .loop body, h => by
    have hbody := units_of_single body fun v hv => h v (by simp [Instruction.visits, hv])
    rw [Instruction.units, hbody]

/-- Where every count is one, nothing is left to write out. -/
theorem units_of_single : ∀ p : Program, (∀ v ∈ p.visits, ∃ x, v = Visit.ofSymbol x) → p.units = p
  | [], _ => rfl
  | i :: p, h => by
    have hi := units_of_single_instruction i fun v hv => h v (by simp [visits, hv])
    have hp := units_of_single p fun v hv => h v (by simp [visits, hv])
    rw [units, hi, hp]
    rfl

end

theorem units_of_parse (h : parse s = .ok p) : p.units = p := by
  apply units_of_single
  intro v hv
  rw [visits_of_parse h, List.mem_map] at hv
  obtain ⟨x, -, rfl⟩ := hv
  exact ⟨x, rfl⟩

/-- The text without its comments is read as the same program. -/
theorem parse_uncommented (h : parse s = .ok p) : parse (Symbol.uncommented s) = .ok p := by
  rw [← spell_of_parse h, parse_spell (isKnown_of_parse h), units_of_parse h]

/-- The text of what has been read is what was there without the comments, wherever there is memory to write
it; so two texts are read as equal programs exactly if they differ in comments only. -/
theorem text_undoes_parse (hp : parse s = .ok p) (hq : parse t = .ok q) :
    p.text .ample = .ok (Symbol.uncommented s) ∧
      (∀ memory u, p.text memory = .ok u → u = Symbol.uncommented s) ∧
      (p = q ↔ Symbol.uncommented s = Symbol.uncommented t) := by
  refine ⟨?_, ?_, ?_, ?_⟩
  · rw [text_ample (isKnown_of_parse hp), spell_of_parse hp]
  · intro memory u hu
    rw [text_eq hu, spell_of_parse hp]
  · rintro rfl
    rw [← spell_of_parse hp, spell_of_parse hq]
  · intro h
    have hparse := parse_uncommented hp
    rw [h, parse_uncommented hq] at hparse
    exact (Except.ok.inj hparse).symm

/-- Comments before, between and after nested loops. -/
theorem text_undoes_parse_commented :
    let p : Program := [.loop [.loop [.act (.apply .decrement .one)], .act .output]]
    parse "a[ [-]b.]\n" = .ok p ∧ parse "[[-].]é" = .ok p ∧
      p.text .ample = .ok (Symbol.uncommented "a[ [-]b.]\n") ∧
      Symbol.uncommented "a[ [-]b.]\n" = Symbol.uncommented "[[-].]é" := by
  intro p
  have hp : parse "a[ [-]b.]\n" = .ok p := by rfl
  have hq : parse "[[-].]é" = .ok p := by rfl
  obtain ⟨htext, -, hsame⟩ := text_undoes_parse hp hq
  exact ⟨hp, hq, htext, hsame.mp rfl⟩

end Program

end Brainfuck
