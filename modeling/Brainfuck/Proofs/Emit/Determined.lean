import Brainfuck.Proofs.Emit.Layout
import Brainfuck.Proofs.Program.Spelling
import Mathlib.Data.List.Forall2

/-! What a generated program tells of the program that it was generated for: all of it, but for changes of a
cell by a multiple of 256. Sizes and counts are taken to be written at any length (see `Text.maxDigits`). -/
namespace Brainfuck

/-- Counts that an operation does not tell apart. -/
def TapeOp.Congruent : TapeOp → Nat → Nat → Prop
  | .moveRight, n, m => n = m
  | .moveLeft, n, m => n = m
  | .increment, n, m => n % 256 = m % 256
  | .decrement, n, m => n % 256 = m % 256

inductive Instruction.Congruent : Instruction → Instruction → Prop
  | same (a : Action) : Congruent (.act a) (.act a)
  | counts {op : TapeOp} {n m : Count} (h : op.Congruent n.val m.val) :
    Congruent (.act (.apply op n)) (.act (.apply op m))
  | loop {body body' : Program} (h : List.Forall₂ Congruent body body') :
    Congruent (.loop body) (.loop body')

/-- The same program, but for counts that their operations do not tell apart. -/
def Program.Congruent : Program → Program → Prop := List.Forall₂ Instruction.Congruent

namespace Emit

open Brainfuck.Emit.Reading

variable {p q : Program} {i : Instruction} {a b : Action} {op : TapeOp} {n k : Nat} {m m' : Int}

theorem reduce_eq_iff : reduce op n = reduce op k ↔ op.Congruent n k := by
  cases op <;> rfl

theorem congruent_of_call {c : Call} (ha : a.call? = some c) (hb : b.call? = some c) :
    Instruction.Congruent (.act a) (.act b) := by
  cases a with
  | apply op n =>
    cases ha
    cases b with
    | apply op' n' =>
      obtain ⟨rfl, hreduce⟩ := Call.apply.inj (Option.some.inj hb)
      exact .counts (reduce_eq_iff.mp hreduce.symm)
    | output => cases hb
    | input => cases hb
    | unknown => cases hb
  | output =>
    cases ha
    cases b <;> cases hb
    exact .same _
  | input =>
    cases ha
    cases b <;> cases hb
    exact .same _
  | unknown => cases ha

theorem exists_call (ha : (Instruction.act a).isKnown = true) :
    ∃ c, a.call? = some c ∧ (Instruction.act a).code = [.call c] := by
  cases a with
  | apply op n => exact ⟨_, rfl, rfl⟩
  | output => exact ⟨_, rfl, rfl⟩
  | input => exact ⟨_, rfl, rfl⟩
  | unknown => cases ha

theorem exists_code (hi : i.isKnown = true) : ∃ c, i.code = [c] := by
  cases i with
  | act a =>
    obtain ⟨c, -, hc⟩ := exists_call hi
    exact ⟨_, hc⟩
  | loop body => exact ⟨_, rfl⟩

mutual

theorem congruent_of_code_instruction : ∀ i j : Instruction, i.isKnown = true → j.isKnown = true →
    i.code = j.code → i.Congruent j
  | .act a, .act b, ha, hb, h => by
    obtain ⟨c, hc, hca⟩ := exists_call ha
    obtain ⟨c', hc', hcb⟩ := exists_call hb
    rw [hca, hcb] at h
    obtain rfl := Code.call.inj (List.head_eq_of_cons_eq h)
    exact congruent_of_call hc hc'
  | .loop body, .loop body', ha, hb, h =>
    .loop (congruent_of_code body body' ha hb (Code.loop.inj (List.head_eq_of_cons_eq h)))
  | .act a, .loop body, ha, _, h => by
    obtain ⟨c, -, hca⟩ := exists_call ha
    rw [hca] at h
    cases h
  | .loop body, .act b, _, hb, h => by
    obtain ⟨c, -, hcb⟩ := exists_call hb
    rw [hcb] at h
    cases h

/-- Programs with the same code are the same, but for counts that their operations do not tell apart. -/
theorem congruent_of_code : ∀ p q : Program, p.isKnown = true → q.isKnown = true →
    p.code = q.code → p.Congruent q
  | [], [], _, _, _ => .nil
  | [], j :: q, _, hq, h => by
    obtain ⟨c, hc⟩ := exists_code (Bool.and_eq_true_iff.mp hq).1
    rw [Program.code, Program.code, hc] at h
    cases h
  | i :: p, [], hp, _, h => by
    obtain ⟨c, hc⟩ := exists_code (Bool.and_eq_true_iff.mp hp).1
    rw [Program.code, Program.code, hc] at h
    cases h
  | i :: p, j :: q, hp, hq, h => by
    obtain ⟨hi, hp⟩ := Bool.and_eq_true_iff.mp hp
    obtain ⟨hj, hq⟩ := Bool.and_eq_true_iff.mp hq
    obtain ⟨c, hc⟩ := exists_code hi
    obtain ⟨c', hc'⟩ := exists_code hj
    have hlength : i.code.length = j.code.length := by rw [hc, hc']; rfl
    obtain ⟨hhead, htail⟩ := List.append_inj h hlength
    exact .cons (congruent_of_code_instruction i j hi hj hhead) (congruent_of_code p q hp hq htail)

end

mutual

theorem layout_congruent_instruction : ∀ (i j : Instruction) (d : Nat), i.Congruent j →
    i.layout d = j.layout d
  | .act _, _, _, .same _ => rfl
  | .act (.apply op n), .act (.apply _ n'), d, .counts h => by
    have hreduce := reduce_eq_iff.mpr h
    simp only [Instruction.layout, Action.call?, hreduce]
  | .loop body, .loop body', d, .loop h => by
    have hbody := layout_congruent body body' (d + 1) h
    rw [Instruction.layout, Instruction.layout, hbody]

theorem layout_congruent : ∀ (p q : Program) (d : Nat), p.Congruent q → p.layout d = q.layout d
  | [], _, _, .nil => rfl
  | i :: p, j :: q, d, .cons hi hp => by
    rw [Program.layout, Program.layout, layout_congruent_instruction i j d hi,
      layout_congruent p q d hp]

end

/-- Equal texts are read as equal numbers of cells and equal code. -/
theorem eq_and_congruent_of_source {text : String} (hm : 1 ≤ m) (hm' : 1 ≤ m')
    (hp : p.isKnown = true) (hq : q.isKnown = true) (h : source m p = .ok text)
    (h' : source m' q = .ok text) : m = m' ∧ p.Congruent q := by
  obtain ⟨t, ht, hread⟩ := main?_source hm ((Program.isKnown_iff p).mp hp)
  obtain ⟨t', ht', hread'⟩ := main?_source hm' ((Program.isKnown_iff q).mp hq)
  obtain rfl := Except.ok.inj (h.symm.trans ht)
  obtain rfl := Except.ok.inj (h'.symm.trans ht')
  obtain ⟨hsize, hcode⟩ := List.cons.inj (Option.some.inj (hread.symm.trans hread'))
  have hnat : m.toNat = m'.toNat := Call.allocate.inj (Code.call.inj hsize)
  exact ⟨by omega, congruent_of_code p q hp hq hcode⟩

/-- The text that is generated tells the number of cells, and the program but for changes of a cell by a
multiple of 256. Between the opening and the closing it has a line for the allocation, one for each
instruction and one that closes each loop, each indented by four blanks for every block around it, and
its braces are nested as the loops are. -/
theorem source_determines (hm : 1 ≤ m) (hm' : 1 ≤ m') (hp : p.isKnown = true)
    (hq : q.isKnown = true) : ∃ text text', source m p = .ok text ∧ source m' q = .ok text' ∧
    (text = text' ↔ m = m' ∧ p.Congruent q) ∧
    ∃ ls between, ls = ⟨1, .allocate m⟩ :: p.layout 1 ∧
      between = Text.unlines (ls.map Line.text) ∧ text = opening ++ between ++ closing ∧
      ls.length = 1 + p.size + p.visits.count .leave ∧
      (∀ l ∈ ls, '\n' ∉ l.text.toList ∧
        l.text.toList.takeWhile (· == ' ') = List.replicate (4 * l.depth) ' ') ∧
      between.toList.filterMap brace? = p.braces.toList := by
  have hlines : ∀ l ∈ (⟨1, .allocate m⟩ :: p.layout 1 : List Line), Writable l.statement := by
    intro l hl
    rcases List.mem_cons.mp hl with rfl | hl
    · exact Int.le_trans (by decide) hm
    · exact writable_layout p 1 l hl
  have htext := source_of_known hm hp
  have htext' := source_of_known hm' hq
  refine ⟨_, _, htext, htext', ⟨?_, ?_⟩, _, _, rfl, rfl, rfl, ?_, ?_, ?_⟩
  · intro h
    exact eq_and_congruent_of_source hm hm' hp hq htext (htext'.trans (congrArg Except.ok h.symm))
  · rintro ⟨rfl, hcongruent⟩
    rw [layout_congruent p q 1 hcongruent]
  · have hlength := length_layout p 1 hp
    have hvisits := length_visits p
    rw [List.length_cons]
    omega
  · exact fun l hl => ⟨newline_notMem_line (hlines l hl), takeWhile_line l⟩
  · rw [braces_unlines hlines, List.flatMap_cons, steps_layout]
    rfl

/-- Adding 257 to a cell is written like adding 1, between loops and inside one. -/
theorem source_determines_wrapping :
    let p : Program := [.loop [.act (.apply .increment .one)], .loop [], .act (.apply .moveLeft .one)]
    let q : Program := [.loop [.act (.apply .increment ⟨257, by decide⟩)], .loop [],
      .act (.apply .moveLeft .one)]
    p.isKnown = true ∧ q.isKnown = true ∧ p ≠ q ∧ source 2 p = source 2 q := by
  intro p q
  have hp : p.isKnown = true := by decide
  have hq : q.isKnown = true := by decide
  obtain ⟨text, text', htext, htext', hiff, -⟩ :=
    source_determines (by decide : (1 : Int) ≤ 2) (by decide : (1 : Int) ≤ 2) hp hq
  have hcongruent : p.Congruent q :=
    .cons (.loop (.cons (.counts rfl) .nil)) (.cons (.loop .nil) (.cons (.same _) .nil))
  refine ⟨hp, hq, by decide, ?_⟩
  rw [htext, htext', hiff.mpr ⟨rfl, hcongruent⟩]

end Emit

end Brainfuck
