import Brainfuck.Proofs.Parse.Spelled

/-! The merged form of a program stands for its text: programs are merged alike exactly if they are
written alike. -/
namespace Brainfuck

namespace Program

variable {p a b : Program} {done : List Instruction} {i : Instruction} {s t : String}

theorem symbols_append {q : Program} : symbols (p ++ q) = symbols p ++ symbols q := by
  simp only [symbols, visits_append, List.flatMap_append]

theorem symbols_singleton : symbols [i] = i.symbols := by
  rw [symbols_cons]
  exact List.append_nil _

theorem symbols_run (op : TapeOp) (k : Nat) :
    symbols (List.replicate k (.act (.apply op .one))) = List.replicate k (.tape op) := by
  induction k with
  | zero => rfl
  | succ k ih =>
    rw [List.replicate_succ, symbols_cons, ih]
    rfl

mutual

theorem symbols_units_instruction : ∀ i : Instruction, symbols i.units = i.symbols
  | .act (.apply op n) => by
    rw [Instruction.units, Action.units, List.map_replicate, symbols_run]
    exact (List.append_nil _).symm
  | .act .output => rfl
  | .act .input => rfl
  | .act .unknown => rfl
  | .loop body => by
    rw [Instruction.units, symbols_singleton, Instruction.symbols_loop, Instruction.symbols_loop,
      symbols_units body]

/-- Writing counts out does not change what a program spells. -/
theorem symbols_units : ∀ p : Program, symbols p.units = symbols p
  | [] => rfl
  | i :: p => by
    rw [units, symbols_append, symbols_units_instruction i, symbols_units p, symbols_cons]

end

/-- Programs that spell the same have the same units, since reading gives them back. -/
theorem units_eq_iff_symbols_eq (ha : a.isKnown = true) (hb : b.isKnown = true) :
    a.units = b.units ↔ a.symbols = b.symbols := by
  constructor
  · intro h
    rw [← symbols_units a, h, symbols_units]
  · intro h
    have hread := parse_spell ha
    rw [h, parse_spell hb] at hread
    exact (Except.ok.inj hread).symm

theorem symbols_optimize : p.optimize.symbols = p.symbols := by
  rw [← symbols_units, units_optimize, symbols_units]

theorem text_eq_iff_symbols_eq {m m' : TextMemory} (ha : a.text m = .ok s) (hb : b.text m' = .ok t) :
    s = t ↔ a.symbols = b.symbols := by
  rw [text_eq ha, text_eq hb]
  exact Symbol.spell_inj

/-- Two programs have the same merged form exactly if they spell the same symbols, hence exactly if their
texts are equal, where there is memory to write them. A program and its merged form spell the same, hence
have the same text if both have one, and how its runs were counted beforehand does not matter. -/
theorem optimize_canonical (ha : a.isKnown = true) (hb : b.isKnown = true) :
    (a.optimize = b.optimize ↔ a.symbols = b.symbols) ∧
    (∀ m m' s t, a.text m = .ok s → b.text m' = .ok t → (a.optimize = b.optimize ↔ s = t)) ∧
    a.optimize.symbols = a.symbols ∧
    (∀ m m' s t, a.optimize.text m = .ok s → a.text m' = .ok t → s = t) ∧
    (a.units = b.units → a.optimize = b.optimize) := by
  have hsymbols : a.optimize = b.optimize ↔ a.symbols = b.symbols :=
    optimize_eq_iff_units_eq.trans (units_eq_iff_symbols_eq ha hb)
  refine ⟨hsymbols, ?_, symbols_optimize, ?_, optimize_eq_iff_units_eq.mpr⟩
  · intro m m' s t hs ht
    rw [hsymbols, text_eq_iff_symbols_eq hs ht]
  · intro m m' s t hs ht
    exact (text_eq_iff_symbols_eq hs ht).mpr symbols_optimize

/-- Runs counted in two ways, outside a loop and inside. -/
theorem optimize_canonical_regrouped :
    let a : Program := [.act (.apply .increment ⟨3, by decide⟩),
      .loop [.act (.apply .moveLeft .one), .act (.apply .moveLeft ⟨2, by decide⟩)]]
    let b : Program := [.act (.apply .increment .one), .act (.apply .increment ⟨2, by decide⟩),
      .loop [.act (.apply .moveLeft ⟨2, by decide⟩), .act (.apply .moveLeft .one)]]
    a.isKnown = true ∧ b.isKnown = true ∧ a.text = .ok "+++[<<<]" ∧ b.text = .ok "+++[<<<]" ∧
      a.optimize = b.optimize := by
  intro a b
  have ha : a.isKnown = true := by decide
  have hb : b.isKnown = true := by decide
  have hs : a.text = .ok "+++[<<<]" := by rfl
  have ht : b.text = .ok "+++[<<<]" := by rfl
  exact ⟨ha, hb, hs, ht, ((optimize_canonical ha hb).2.1 .usual .usual _ _ hs ht).mpr rfl⟩

/-- Where counts are too large to be written, equal merged forms may fail to have a text in different ways,
and different ones in the same way. -/
theorem optimize_not_told_by_text :
    let a : Program := [.act (.apply .increment ⟨0x4000_0000_0000_0000, by decide⟩),
      .act (.apply .increment ⟨0x4000_0000_0000_0000, by decide⟩)]
    let b : Program := [.act (.apply .increment ⟨0x8000_0000_0000_0000, by decide⟩)]
    let c : Program := [.act (.apply .decrement ⟨0x8000_0000_0000_0000, by decide⟩)]
    a.isKnown = true ∧ b.isKnown = true ∧ c.isKnown = true ∧
      a.optimize = b.optimize ∧ a.text = .error .outOfMemory ∧ b.text = .error .tooLong ∧
      b.optimize ≠ c.optimize ∧ c.text = .error .tooLong := by
  intro a b c
  refine ⟨by decide, by decide, by decide, rfl, by rfl, by rfl, ?_, by rfl⟩
  intro h
  cases h

end Program

end Brainfuck
