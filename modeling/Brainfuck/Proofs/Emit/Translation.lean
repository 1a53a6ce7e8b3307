import Brainfuck.Proofs.Emit.Reading

/-! What is read back from the text that is generated for a program. -/
namespace Brainfuck

open Emit

/-- The call that is generated for a simple instruction. -/
def Action.call? : Action → Option Call
  | .apply op n => some (.apply op (reduce op n.val))
  | .output => some .output
  | .input => some .input
  | .unknown => none

mutual

def Instruction.code : Instruction → List Code
  | .act a => (a.call?.map Code.call).toList
  | .loop body => [.loop (Program.code body)]

/-- The program as calls and loops of the main function. -/
def Program.code : Program → List Code
  | [] => []
  | i :: is => i.code ++ Program.code is

end

namespace Emit

def Call.statement : Call → Statement
  | .allocate size => .allocate size
  | .apply op n => .apply op n
  | .output => .output
  | .input => .input

/-- The statement that is written at a visit. -/
def statementAt? : Visit → Option Statement
  | .act a => a.call?.map Call.statement
  | .enter => some .openLoop
  | .leave => some .closeLoop

namespace Reading

variable {p : Program} {l : Listing} {v : Visit} {vs : List Visit} {ss : List Statement}
  {done : List Code} {outer : List (List Code)} {x : Statement}

theorem writable_of_statementAt? (h : statementAt? v = some x) : Writable x := by
  rcases v with (_ | _ | _ | _) | _ | _ <;> cases h <;> trivial

/-- A visit that is not of an unknown instruction adds its statement. -/
theorem visit_statementAt? (hv : v ≠ .act .unknown) :
    ∃ x d l', statementAt? v = some x ∧ l.visit v = .ok l' ∧ l'.lines = l.lines.push ⟨d, x⟩ := by
  rcases v with (⟨op, n⟩ | _ | _ | _) | _ | _
  · exact ⟨_, _, _, rfl, rfl, rfl⟩
  · exact ⟨_, _, _, rfl, rfl, rfl⟩
  · exact ⟨_, _, _, rfl, rfl, rfl⟩
  · exact absurd rfl hv
  · exact ⟨_, _, _, rfl, rfl, rfl⟩
  · exact ⟨_, _, _, rfl, rfl, rfl⟩

theorem foldl_extend (hvs : ∀ v ∈ vs, v ≠ .act .unknown) :
    ∃ l', vs.foldl Listing.extend (.ok l) = .ok l' ∧
      l'.lines.toList.map Line.statement =
        l.lines.toList.map Line.statement ++ vs.filterMap statementAt? := by
  induction vs generalizing l with
  | nil => exact ⟨l, rfl, by simp⟩
  | cons v vs ih =>
    obtain ⟨x, d, l₁, hx, hl₁, hlines⟩ := visit_statementAt? (l := l) (hvs v (by simp))
    obtain ⟨l', hl', hstatements⟩ := ih (l := l₁) fun w hw => hvs w (by simp [hw])
    have hextend : Listing.extend (.ok l) v = .ok l₁ := hl₁
    refine ⟨l', by rw [List.foldl_cons, hextend, hl'], ?_⟩
    rw [hstatements, hlines, List.filterMap_cons_some hx]
    simp

mutual

theorem blocks?_instruction : ∀ (i : Instruction) (ss : List Statement) (done : List Code)
    (outer : List (List Code)),
    blocks? (i.visits.filterMap statementAt? ++ ss) done outer =
      blocks? ss (i.code.reverse ++ done) outer
  | .act a, ss, done, outer => by cases a <;> rfl
  | .loop body, ss, done, outer => by
    have hbody := blocks?_program body (.closeLoop :: ss) [] (done :: outer)
    have hvisits : (Instruction.loop body).visits.filterMap statementAt? ++ ss =
        .openLoop :: ((Program.visits body).filterMap statementAt? ++ .closeLoop :: ss) := by
      simp [Instruction.visits, statementAt?]
    rw [hvisits, blocks?, hbody, List.append_nil, blocks?, List.reverse_reverse]
    rfl

/-- The statements of a program are read as its code. -/
theorem blocks?_program : ∀ (p : Program) (ss : List Statement) (done : List Code)
    (outer : List (List Code)),
    blocks? ((Program.visits p).filterMap statementAt? ++ ss) done outer =
      blocks? ss ((Program.code p).reverse ++ done) outer
  | [], _, _, _ => rfl
  | i :: is, ss, done, outer => by
    rw [Program.visits, List.filterMap_append, List.append_assoc, blocks?_instruction i,
      blocks?_program is, Program.code, List.reverse_append, List.append_assoc]

end

theorem unlines_texts (ls : List Line) :
    Text.unlines (ls.map Line.text) = String.join (ls.flatMap fun l => [l.text, "\n"]) := by
  induction ls with
  | nil => rfl
  | cons l ls ih =>
    rw [List.map_cons, List.flatMap_cons, String.join_append, ← ih]
    simp [Text.unlines, String.join_cons]

theorem source_of_lines {size : Int} {ls : List Line} (h : lines size p = .ok ls) :
    source size p = .ok (Text.unlines (openingLines ++ ls.map Line.text ++ closingLines)) := by
  have hpieces : String.join (opening :: ls.flatMap (fun l => [l.text, "\n"]) ++ [closing]) =
      Text.unlines (openingLines ++ ls.map Line.text ++ closingLines) := by
    rw [unlines_append, unlines_append, unlines_texts, String.join_append, String.join_cons]
    simp [opening, closing, String.join_cons]
  rw [source, pieces, h]
  exact congrArg Except.ok hpieces

/-- Every program of known instructions is generated for every size of at least one cell, and what is read
back is the allocation of those cells and the program's code. -/
theorem main?_source {size : Int} (hsize : 1 ≤ size) (hp : ∀ v ∈ p.visits, v ≠ .act .unknown) :
    ∃ text, source size p = .ok text ∧
      main? text = some (.call (.allocate size.toNat) :: p.code) := by
  obtain ⟨l, hl, hstatements⟩ := foldl_extend (l := ⟨#[⟨1, .allocate size⟩], 1⟩) hp
  have hlines : lines size p = .ok l.lines.toList := by
    rw [lines, if_neg (by omega), Program.fold_eq, hl]
    rfl
  have hall : l.lines.toList.map Line.statement =
      .allocate size :: p.visits.filterMap statementAt? := hstatements
  have hwritable : ∀ k ∈ l.lines.toList, Writable k.statement := by
    intro k hk
    have hmem : k.statement ∈ l.lines.toList.map Line.statement := List.mem_map_of_mem hk
    rw [hall, List.mem_cons, List.mem_filterMap] at hmem
    rcases hmem with heq | ⟨v, -, hv⟩
    · rw [heq]
      exact Int.le_trans (by decide) hsize
    · exact writable_of_statementAt? hv
  have hblocks := blocks?_program p [] [.call (.allocate size.toNat)] []
  rw [List.append_nil] at hblocks
  refine ⟨_, source_of_lines hlines, ?_⟩
  rw [main?_unlines hwritable, hall, blocks?, hblocks]
  simp [blocks?]

end Reading

end Emit

end Brainfuck
