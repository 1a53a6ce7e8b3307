import Mathlib.Data.List.Induction
import Mathlib.Tactic.ByContra
import Brainfuck.Program.Text

/-! The symbols that spell out a program, and what keeps a program from being spelled out. -/
namespace Brainfuck

variable {v : Visit} {vs : List Visit} {p : Program} {s t : String} {memory : TextMemory}
  {d d' : Draft} {e : TextError}

/-- The text that consists of these symbols. -/
def Symbol.spell (xs : List Symbol) : String := String.ofList (xs.map toChar)

/-- A counted operation is spelled by its symbol, as often as the count says. -/
def Visit.symbols : Visit → List Symbol
  | .act (.apply op n) => List.replicate n.val (.tape op)
  | .act .output => [.output]
  | .act .input => [.input]
  | .act .unknown => []
  | .enter => [.loopStart]
  | .leave => [.loopEnd]

def Instruction.symbols (i : Instruction) : List Symbol := i.visits.flatMap Visit.symbols

def Program.symbols (p : Program) : List Symbol := p.visits.flatMap Visit.symbols

theorem Symbol.spell_append (xs ys : List Symbol) : spell (xs ++ ys) = spell xs ++ spell ys := by
  simp only [spell, List.map_append, String.ofList_append]

theorem Symbol.length_spell (xs : List Symbol) : (spell xs).length = xs.length := by
  rw [spell, String.length_ofList, List.length_map]

/-- The symbols can be read off their text. -/
theorem Symbol.filterMap_spell (xs : List Symbol) : (spell xs).toList.filterMap ofChar? = xs := by
  rw [spell, String.toList_ofList]
  induction xs with
  | nil => rfl
  | cons x xs ih => rw [List.map_cons, List.filterMap_cons_some (ofChar?_toChar x), ih]

theorem Symbol.spell_inj {xs ys : List Symbol} : spell xs = spell ys ↔ xs = ys := by
  constructor
  · intro h
    rw [← filterMap_spell xs, h, filterMap_spell]
  · rintro rfl
    rfl

theorem Visit.symbols_of_run? {x : Symbol} {n : Nat} (h : v.run? = some (x, n)) :
    v.symbols = List.replicate n x := by
  rcases v with (⟨op, k⟩ | _ | _ | _) | _ | _ <;> cases h <;> rfl

theorem Visit.run?_eq_none_iff : v.run? = none ↔ v = .act .unknown := by
  rcases v with (⟨op, k⟩ | _ | _ | _) | _ | _ <;> simp [run?]

theorem Text.pushn_eq_spell {x : Symbol} {n : Nat} :
    s.pushn x.toChar n = s ++ Symbol.spell (List.replicate n x) := by
  apply String.toList_injective
  simp [toList_pushn, Symbol.spell]

theorem Instruction.symbols_loop {body : Program} :
    (Instruction.loop body).symbols = .loopStart :: body.symbols ++ [.loopEnd] := by
  simp [symbols, Program.symbols, visits, Visit.symbols]

mutual

theorem Instruction.isKnown_iff : ∀ i : Instruction,
    i.isKnown = true ↔ ∀ v ∈ i.visits, v ≠ .act .unknown
  | .act a => by cases a <;> simp [Instruction.isKnown, Instruction.visits]
  | .loop body => by
    have hbody := Program.isKnown_iff body
    simp [Instruction.isKnown, Instruction.visits, hbody, or_imp, forall_and]

/-- A program is known if no unknown instruction is met in a pass over it. -/
theorem Program.isKnown_iff : ∀ p : Program,
    p.isKnown = true ↔ ∀ v ∈ p.visits, v ≠ .act .unknown
  | [] => by simp [Program.isKnown, Program.visits]
  | i :: p => by
    have hi := Instruction.isKnown_iff i
    have hp := Program.isKnown_iff p
    simp [Program.isKnown, Program.visits, hi, hp, or_imp, forall_and]

end

namespace Program

theorem symbols_cons {i : Instruction} : symbols (i :: p) = i.symbols ++ symbols p := by
  simp only [symbols, visits, List.flatMap_append, Instruction.symbols]

end Program

namespace Draft

/-- No part is longer than the text that the parts make. -/
def Held (d : Draft) : Prop := ∀ k ∈ d.lengths, k ≤ d.text.length

theorem held_blank : blank.Held := by
  intro k hk
  cases hk

/-- A part that is written follows the others and spells the symbols of what is visited. -/
theorem write_ok (h : d.write memory v = .ok d') :
    v ≠ .act .unknown ∧ memory (v.symbols.length :: d.lengths) = none ∧
      d' = ⟨d.text ++ Symbol.spell v.symbols, v.symbols.length :: d.lengths⟩ := by
  unfold write at h
  split at h
  next => cases h
  next x n hrun =>
    have hknown : v ≠ .act .unknown := by
      intro hv
      rw [Visit.run?_eq_none_iff.mpr hv] at hrun
      cases hrun
    split at h
    next => cases h
    next hmemory =>
      cases h
      rw [Visit.symbols_of_run? hrun, List.length_replicate, ← Text.pushn_eq_spell]
      exact ⟨hknown, hmemory, rfl⟩

/-- A part is not written if it is of an unknown instruction, or if something keeps it from being held. -/
theorem write_error (h : d.write memory v = .error e) :
    (v = .act .unknown ∧ e = .unsupported) ∨
      memory (v.symbols.length :: d.lengths) = some e := by
  unfold write at h
  split at h
  next hrun =>
    cases h
    exact .inl ⟨Visit.run?_eq_none_iff.mp hrun, rfl⟩
  next x n hrun =>
    split at h
    next hmemory =>
      cases h
      rw [Visit.symbols_of_run? hrun, List.length_replicate]
      exact .inr hmemory
    next => cases h

theorem held_write (hd : d.Held) (h : d.write memory v = .ok d') : d'.Held := by
  obtain ⟨-, -, rfl⟩ := write_ok h
  intro k hk
  rw [String.length_append, Symbol.length_spell]
  rcases List.mem_cons.mp hk with rfl | hk
  · exact Nat.le_add_left _ _
  · exact Nat.le_add_right_of_le (hd k hk)

/-- Writes these visits, up to the first that cannot be written. -/
def writeAll (memory : TextMemory) (vs : List Visit) : Except TextError Draft :=
  vs.foldl (fun written v => written.bind (·.write memory v)) (.ok blank)

theorem writeAll_append : writeAll memory (vs ++ [v]) =
    (writeAll memory vs).bind (·.write memory v) := by
  rw [writeAll, List.foldl_append]
  rfl

/-- What has been written spells the symbols of what has been visited, each of which could be held. -/
theorem writeAll_ok (h : writeAll memory vs = .ok d) :
    (∀ v ∈ vs, v ≠ .act .unknown ∧ ∃ lengths, memory (v.symbols.length :: lengths) = none) ∧
      d.text = Symbol.spell (vs.flatMap Visit.symbols) ∧ d.Held := by
  induction vs using List.reverseRecOn generalizing d with
  | nil =>
    cases h
    exact ⟨by simp, rfl, held_blank⟩
  | append_singleton vs v ih =>
    rw [writeAll_append] at h
    cases hvs : writeAll memory vs with
    | error e =>
      rw [hvs] at h
      cases h
    | ok before =>
      rw [hvs] at h
      obtain ⟨hall, htext, hheld⟩ := ih hvs
      have hheld' : d.Held := held_write hheld h
      obtain ⟨hknown, hmemory, rfl⟩ := write_ok h
      refine ⟨?_, ?_, hheld'⟩
      · intro w hw
        rcases List.mem_append.mp hw with hw | hw
        · exact hall w hw
        · obtain rfl := List.mem_singleton.mp hw
          exact ⟨hknown, _, hmemory⟩
      · rw [List.flatMap_append, Symbol.spell_append, ← htext, List.flatMap_singleton]

/-- Writing fails at an unknown instruction, or where a part cannot be held; what is held by then is no longer
than all there is to write. -/
theorem writeAll_error (h : writeAll memory vs = .error e) :
    (.act .unknown ∈ vs ∧ e = .unsupported) ∨
      ∃ lengths, memory lengths = some e ∧
        ∀ k ∈ lengths, k ≤ (vs.flatMap Visit.symbols).length := by
  induction vs using List.reverseRecOn generalizing e with
  | nil => cases h
  | append_singleton vs v ih =>
    rw [writeAll_append] at h
    rw [List.flatMap_append, List.length_append, List.flatMap_singleton]
    cases hvs : writeAll memory vs with
    | error e' =>
      rw [hvs] at h
      cases h
      rcases ih hvs with ⟨hv, he⟩ | ⟨lengths, hmemory, hshort⟩
      · exact .inl ⟨List.mem_append_left _ hv, he⟩
      · exact .inr ⟨lengths, hmemory, fun k hk => Nat.le_add_right_of_le (hshort k hk)⟩
    | ok before =>
      rw [hvs] at h
      obtain ⟨-, htext, hheld⟩ := writeAll_ok hvs
      rcases write_error h with ⟨rfl, he⟩ | hmemory
      · exact .inl ⟨by simp, he⟩
      · refine .inr ⟨_, hmemory, ?_⟩
        intro k hk
        rcases List.mem_cons.mp hk with rfl | hk
        · exact Nat.le_add_left _ _
        · have hk' := hheld k hk
          rw [htext, Symbol.length_spell] at hk'
          exact Nat.le_add_right_of_le hk'

theorem join_ok (h : d.join memory = .ok s) : s = d.text := by
  unfold join at h
  split at h
  next =>
    cases h
    rfl
  next =>
    split at h
    next => cases h
    next =>
      cases h
      rfl

theorem join_error (h : d.join memory = .error e) :
    memory (d.text.length :: d.lengths) = some e := by
  unfold join at h
  split at h
  next => cases h
  next =>
    split at h
    next hmemory =>
      cases h
      exact hmemory
    next => cases h

end Draft

namespace Program

theorem draft_eq : p.draft memory = Draft.writeAll memory p.visits := fold_eq _ p _

/-- A text that a program has spells its symbols, and each of its runs could be held. -/
theorem text_ok (h : p.text memory = .ok s) :
    (∀ v ∈ p.visits, v ≠ .act .unknown ∧ ∃ lengths, memory (v.symbols.length :: lengths) = none) ∧
      s = Symbol.spell p.symbols := by
  rw [text, draft_eq] at h
  cases hd : Draft.writeAll memory p.visits with
  | error e =>
    rw [hd] at h
    cases h
  | ok d =>
    rw [hd] at h
    obtain ⟨hall, htext, -⟩ := Draft.writeAll_ok hd
    exact ⟨hall, (Draft.join_ok h).trans htext⟩

theorem text_eq (h : p.text memory = .ok s) : s = Symbol.spell p.symbols := (text_ok h).2

theorem isKnown_of_text (h : p.text memory = .ok s) : p.isKnown = true := by
  rw [isKnown_iff]
  intro v hv
  exact ((text_ok h).1 v hv).1

/-- Of a known program only memory can keep the text: some texts, none longer than the program's, cannot be
held at once. -/
theorem text_error (hp : p.isKnown = true) (h : p.text memory = .error e) :
    ∃ lengths, memory lengths = some e ∧ ∀ k ∈ lengths, k ≤ p.symbols.length := by
  rw [text, draft_eq] at h
  cases hd : Draft.writeAll memory p.visits with
  | error e' =>
    rw [hd] at h
    cases h
    rcases Draft.writeAll_error hd with ⟨hv, -⟩ | hmemory
    · exact ((isKnown_iff p).mp hp _ hv rfl).elim
    · exact hmemory
  | ok d =>
    rw [hd] at h
    obtain ⟨-, htext, hheld⟩ := Draft.writeAll_ok hd
    have hlength : d.text.length = p.symbols.length := by rw [htext, Symbol.length_spell, symbols]
    refine ⟨_, Draft.join_error h, ?_⟩
    intro k hk
    rcases List.mem_cons.mp hk with rfl | hk
    · exact Nat.le_of_eq hlength
    · exact hlength ▸ hheld k hk

/-- Where there is always memory, every known program has a text. -/
theorem text_ample (hp : p.isKnown = true) : p.text .ample = .ok (Symbol.spell p.symbols) := by
  cases h : p.text .ample with
  | error e =>
    obtain ⟨lengths, hmemory, -⟩ := text_error hp h
    cases hmemory
  | ok s => rw [text_eq h]

/-- A host writes no run that is too long to be indexed. -/
theorem count_le_of_text {holds : List Nat → Bool} {op : TapeOp} {n : Count}
    (h : p.text (.host holds) = .ok s) (hv : .act (.apply op n) ∈ p.visits) : n.val ≤ maxIndex := by
  obtain ⟨-, lengths, hmemory⟩ := (text_ok h).1 _ hv
  by_contra hlong
  have hlength : maxIndex < (Visit.act (.apply op n)).symbols.length := by
    rw [Visit.symbols, List.length_replicate]
    exact Nat.not_le.mp hlong
  rw [TextMemory.host, List.headD_cons, if_pos hlength] at hmemory
  cases hmemory

end Program

end Brainfuck
