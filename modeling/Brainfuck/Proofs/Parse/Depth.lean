import Mathlib.Order.Bounds.Basic
import Brainfuck.Proofs.Parse.Comments
import Brainfuck.Proofs.Program.Shape

/-! How deep loops nest, told by the brackets of the text: the most that are open at once. -/
namespace Brainfuck

variable {xs ys : List Symbol} {d e : Nat} {p : Program} {s : String}

/-- All loops of these symbols are closed again, and `d` is the most that are open at once. -/
structure Symbol.Rises (xs : List Symbol) (d : Nat) : Prop where
  closed : xs.count .loopStart = xs.count .loopEnd
  bounded : ∀ ys, ys <+: xs → ys.count .loopStart ≤ ys.count .loopEnd + d
  reached : ∃ ys, ys <+: xs ∧ ys.count .loopStart = ys.count .loopEnd + d

namespace Symbol

theorem rises_append (hx : Rises xs d) (hy : Rises ys e) : Rises (xs ++ ys) (max d e) where
  closed := by rw [List.count_append, List.count_append, hx.closed, hy.closed]
  bounded := by
    intro zs hz
    rcases List.prefix_or_prefix_of_prefix hz (List.prefix_append xs ys) with h | ⟨ws, rfl⟩
    · have hle := hx.bounded zs h
      omega
    · have hle := hy.bounded ws ((List.prefix_append_right_inj xs).mp hz)
      have hclosed := hx.closed
      simp only [List.count_append]
      omega
  reached := by
    rcases Nat.le_total e d with hle | hle
    · obtain ⟨zs, hz, hcount⟩ := hx.reached
      exact ⟨zs, hz.trans (List.prefix_append xs ys), by omega⟩
    · obtain ⟨zs, hz, hcount⟩ := hy.reached
      have hclosed := hx.closed
      refine ⟨xs ++ zs, (List.prefix_append_right_inj xs).mpr hz, ?_⟩
      simp only [List.count_append]
      omega

theorem rises_loop (h : Rises xs d) : Rises (.loopStart :: xs ++ [.loopEnd]) (d + 1) where
  closed := by simp [h.closed]
  bounded := by
    intro zs hz
    rcases List.prefix_concat_iff.mp hz with rfl | hz
    · simp [h.closed]
    · rcases List.prefix_cons_iff.mp hz with rfl | ⟨ws, rfl, hw⟩
      · simp
      · have hle := h.bounded ws hw
        simp
        omega
  reached := by
    obtain ⟨zs, hz, hcount⟩ := h.reached
    refine ⟨.loopStart :: zs, ?_, by simp [hcount]; omega⟩
    exact (List.prefix_cons_inj _).mpr (hz.trans (List.prefix_append xs _))

/-- Where no loop starts or ends, none is open. -/
theorem rises_flat (hstart : .loopStart ∉ xs) (hend : .loopEnd ∉ xs) : Rises xs 0 where
  closed := by rw [List.count_eq_zero_of_not_mem hstart, List.count_eq_zero_of_not_mem hend]
  bounded := by
    intro ys hy
    have hnone : .loopStart ∉ ys := fun hmem => hstart (hy.subset hmem)
    rw [List.count_eq_zero_of_not_mem hnone]
    exact Nat.zero_le _
  reached := ⟨[], List.nil_prefix, rfl⟩

/-- A text has as many of a symbol's character as the symbol can be read off it. -/
theorem count_toChar (x : Symbol) (cs : List Char) :
    cs.count x.toChar = (cs.filterMap ofChar?).count x := by
  rw [List.count_filterMap, List.count_eq_countP]
  apply List.countP_congr
  intro c _
  simp [ofChar?_eq_some_iff]

end Symbol

mutual

theorem Instruction.rises_symbols : ∀ i : Instruction, Symbol.Rises i.symbols i.nesting
  | .act a => by
    have hflat : ∀ x ∈ (Instruction.act a).symbols, x ≠ .loopStart ∧ x ≠ .loopEnd := by
      intro x hx
      cases a <;> simp_all [Instruction.symbols, Instruction.visits, Visit.symbols]
    exact Symbol.rises_flat (fun h => (hflat _ h).1 rfl) fun h => (hflat _ h).2 rfl
  | .loop body => by
    rw [Instruction.symbols_loop]
    exact Symbol.rises_loop (Program.rises_symbols body)

/-- The brackets of a program's symbols are open as deep as its loops nest. -/
theorem Program.rises_symbols : ∀ p : Program, Symbol.Rises p.symbols p.nesting
  | [] => Symbol.rises_flat List.not_mem_nil List.not_mem_nil
  | i :: p => by
    rw [Program.symbols_cons]
    exact Symbol.rises_append i.rises_symbols (Program.rises_symbols p)

end

/-- The depth of what is read from a text is the largest number of brackets open at once in it. -/
theorem Program.isGreatest_depth (h : parse s = .ok p) :
    IsGreatest {k : Int | ∃ cs, cs <+: s.toList ∧ k = cs.count '[' - cs.count ']'} p.depth := by
  have hrises := p.rises_symbols
  rw [symbols_of_parse h, ← depth_eq_nesting] at hrises
  have hopen (cs : List Char) : cs.count '[' = (cs.filterMap Symbol.ofChar?).count .loopStart :=
    Symbol.count_toChar .loopStart cs
  have hclose (cs : List Char) : cs.count ']' = (cs.filterMap Symbol.ofChar?).count .loopEnd :=
    Symbol.count_toChar .loopEnd cs
  constructor
  · obtain ⟨ys, hy, hcount⟩ := hrises.reached
    obtain ⟨cs, hc, rfl⟩ := List.prefix_filterMap_iff.mp hy
    exact ⟨cs, hc, by rw [hopen, hclose, hcount]; omega⟩
  · rintro k ⟨cs, hc, rfl⟩
    have hle := hrises.bounded (cs.filterMap Symbol.ofChar?) (hc.filterMap _)
    rw [hopen, hclose]
    omega

end Brainfuck
