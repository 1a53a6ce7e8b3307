import Brainfuck.Program.Measure
import Brainfuck.Proofs.Emit.Translation
import Mathlib.Combinatorics.Enumerative.DyckWord

/-! How a generated program is laid out: one line for each instruction and one more that closes each
loop, indented by the loops around them. -/
namespace Brainfuck

open Emit

mutual

/-- The lines of an instruction with so many blocks around it. -/
def Instruction.layout (depth : Nat) : Instruction → List Line
  | .act a => (a.call?.map fun c => ⟨depth, c.statement⟩).toList
  | .loop body => ⟨depth, .openLoop⟩ :: Program.layout (depth + 1) body ++ [⟨depth, .closeLoop⟩]

def Program.layout (depth : Nat) : Program → List Line
  | [] => []
  | i :: is => i.layout depth ++ Program.layout depth is

end

mutual

/-- One pair of braces for each loop, around those of its body. -/
def Instruction.braces : Instruction → DyckWord
  | .act _ => 0
  | .loop body => (Program.braces body).nest

def Program.braces : Program → DyckWord
  | [] => 0
  | i :: is => i.braces + Program.braces is

end

namespace Emit

/-- The step that a brace takes; other characters take none. -/
def brace? : Char → Option DyckStep
  | '\x7b' => some .U
  | '\x7d' => some .D
  | _ => none

variable {p : Program} {m : Int} {n : Nat} {a : Action} {x : Statement} {ls : List Line}

theorem fold_error (p : Program) (e : EmitError) :
    p.fold Listing.extend (.error e) = .error e := by
  rw [Program.fold_eq]
  exact foldl_bind_error Listing.visit e p.visits

theorem visit_act (l : Listing) (ha : a ≠ .unknown) :
    l.visit (.act a) = .ok ⟨l.lines ++ ((Instruction.act a).layout l.depth).toArray, l.depth⟩ := by
  cases a with
  | apply op n => simp [Listing.visit, Listing.add, Instruction.layout, Action.call?, Call.statement]
  | output => simp [Listing.visit, Listing.add, Instruction.layout, Action.call?, Call.statement]
  | input => simp [Listing.visit, Listing.add, Instruction.layout, Action.call?, Call.statement]
  | unknown => exact absurd rfl ha

theorem isKnown_act : (Instruction.act a).isKnown = true ↔ a ≠ .unknown := by
  cases a <;> simp [Instruction.isKnown]

mutual

theorem fold_instruction : ∀ (i : Instruction) (l : Listing), i.fold Listing.extend (.ok l) =
    if i.isKnown then .ok ⟨l.lines ++ (i.layout l.depth).toArray, l.depth⟩
    else .error .unsupported
  | .act a, l => by
    by_cases ha : a = .unknown
    · subst ha
      rfl
    · rw [if_pos (isKnown_act.mpr ha)]
      exact visit_act l ha
  | .loop body, l => by
    have hopen : Listing.extend (.ok l) .enter = .ok (l.add .openLoop).indent := rfl
    rw [Instruction.fold, hopen, fold_program body, Instruction.isKnown]
    by_cases hbody : Program.isKnown body = true
    · rw [if_pos hbody, if_pos hbody]
      apply congrArg Except.ok
      simp [Listing.add, Listing.indent, Listing.outdent, Instruction.layout]
    · rw [if_neg hbody, if_neg hbody]
      rfl

/-- The listing grows by the layout of the program, and is as deep as before. -/
theorem fold_program : ∀ (p : Program) (l : Listing), p.fold Listing.extend (.ok l) =
    if p.isKnown then .ok ⟨l.lines ++ (p.layout l.depth).toArray, l.depth⟩
    else .error .unsupported
  | [], l => by simp [Program.fold, Program.isKnown, Program.layout]
  | i :: p, l => by
    rw [Program.fold, fold_instruction i, Program.isKnown]
    by_cases hi : i.isKnown = true
    · rw [if_pos hi, fold_program p, hi, Bool.true_and]
      simp only [Program.layout, Array.append_assoc, List.append_toArray]
    · rw [if_neg hi, fold_error, if_neg (by simp [hi])]

end

theorem lines_eq (m : Int) (p : Program) : lines m p =
    if m < 1 then .error (.tooSmall m)
    else if p.isKnown then .ok (⟨1, .allocate m⟩ :: p.layout 1)
    else .error .unsupported := by
  rw [lines, fold_program]
  by_cases hp : p.isKnown = true
  · rw [if_pos hp, if_pos hp]
    simp [Except.map]
  · rw [if_neg hp, if_neg hp]
    rfl

theorem source_of_known (hm : 1 ≤ m) (hp : p.isKnown = true) :
    source m p = .ok (opening ++
      Text.unlines ((⟨1, .allocate m⟩ :: p.layout 1).map Line.text) ++ closing) := by
  have hlines : lines m p = .ok (⟨1, .allocate m⟩ :: p.layout 1) := by
    rw [lines_eq, if_neg (by omega), if_pos hp]
  rw [Reading.source_of_lines hlines, Reading.unlines_append, Reading.unlines_append]
  rfl

theorem pieces_of_tooSmall (hm : m < 1) : pieces m p = .error (.tooSmall m) := by
  rw [pieces, lines_eq, if_pos hm]
  rfl

theorem pieces_of_unknown (hm : 1 ≤ m) (hp : p.isKnown = false) :
    pieces m p = .error .unsupported := by
  rw [pieces, lines_eq, if_neg (by omega), hp]
  rfl

theorem nodes_foldl (vs : List Visit) (k : Measure) :
    (vs.foldl Measure.visit k).nodes + vs.count .leave = k.nodes + vs.length := by
  induction vs generalizing k with
  | nil => rfl
  | cons v vs ih =>
    have hrest := ih (k.visit v)
    rw [List.foldl_cons, List.length_cons, List.count_cons]
    cases v with
    | leave =>
      have hv : (k.visit .leave).nodes = k.nodes := rfl
      simp only [beq_self_eq_true, if_true]
      omega
    | enter =>
      have hv : (k.visit .enter).nodes = k.nodes + 1 := rfl
      rw [if_neg (by decide)]
      omega
    | act a =>
      have hv : (k.visit (.act a)).nodes = k.nodes + 1 := rfl
      rw [if_neg (by simp)]
      omega

/-- A loop is one instruction, and is left once. -/
theorem length_visits (p : Program) : p.visits.length = p.size + p.visits.count .leave := by
  have h := nodes_foldl p.visits Measure.start
  have hsize : p.size = (p.visits.foldl Measure.visit Measure.start).nodes := by
    rw [Program.size, Program.measure, Program.fold_eq]
  have hstart : Measure.start.nodes = 0 := rfl
  omega

mutual

theorem length_layout_instruction : ∀ (i : Instruction) (d : Nat), i.isKnown = true →
    (i.layout d).length = i.visits.length
  | .act (.apply _ _), _, _ => rfl
  | .act .output, _, _ => rfl
  | .act .input, _, _ => rfl
  | .loop body, d, h => by
    have hbody := length_layout body (d + 1) h
    simp [Instruction.layout, Instruction.visits, hbody]

/-- One line for each visit. -/
theorem length_layout : ∀ (p : Program) (d : Nat), p.isKnown = true →
    (p.layout d).length = p.visits.length
  | [], _, _ => rfl
  | i :: p, d, h => by
    rw [Program.isKnown, Bool.and_eq_true] at h
    rw [Program.layout, Program.visits, List.length_append, List.length_append,
      length_layout_instruction i d h.1, length_layout p d h.2]

end

mutual

theorem writable_layout_instruction :
    ∀ (i : Instruction) (d : Nat), ∀ l ∈ i.layout d, Reading.Writable l.statement
  | .act (.apply _ _), _, _, hl => by rw [List.mem_singleton.mp hl]; trivial
  | .act .output, _, _, hl => by rw [List.mem_singleton.mp hl]; trivial
  | .act .input, _, _, hl => by rw [List.mem_singleton.mp hl]; trivial
  | .loop body, d, l, hl => by
    rw [Instruction.layout, List.cons_append, List.mem_cons, List.mem_append,
      List.mem_singleton] at hl
    rcases hl with rfl | hl | rfl
    · trivial
    · exact writable_layout body (d + 1) l hl
    · trivial

theorem writable_layout :
    ∀ (p : Program) (d : Nat), ∀ l ∈ p.layout d, Reading.Writable l.statement
  | i :: p, d, l, hl => by
    rcases List.mem_append.mp hl with hl | hl
    · exact writable_layout_instruction i d l hl
    · exact writable_layout p d l hl

end

/-- A line is indented by four blanks for each block around it, and not by more. -/
theorem takeWhile_line (l : Line) :
    l.text.toList.takeWhile (· == ' ') = List.replicate (4 * l.depth) ' ' := by
  have htext : l.text.toList = List.replicate (4 * l.depth) ' ' ++ l.statement.text.toList := by
    simp [Line.text, Text.toList_pushn]
  have hstatement : l.statement.text.toList.takeWhile (· == ' ') = [] := by
    have hsplit : l.statement.text.toList.takeWhile (· == ' ') ++
        l.statement.text.toList.dropWhile (· == ' ') = l.statement.text.toList :=
      List.takeWhile_append_dropWhile
    rw [Reading.dropWhile_text] at hsplit
    exact List.append_left_eq_self.mp hsplit
  have hblank : ∀ c ∈ List.replicate (4 * l.depth) ' ', (c == ' ') = true := by
    intro c hc
    rw [List.eq_of_mem_replicate hc]
    rfl
  rw [htext, List.takeWhile_append_of_pos hblank, hstatement, List.append_nil]

theorem brace?_of_isDigit {c : Char} (h : c.isDigit = true) : brace? c = none := by
  unfold brace?
  split
  · exact absurd h (by decide)
  · exact absurd h (by decide)
  · rfl

theorem braces_toString : (toString n).toList.filterMap brace? = [] := by
  rw [List.filterMap_eq_nil_iff]
  intro c hc
  exact brace?_of_isDigit (Reading.isDigit_of_mem_toString hc)

/-- The steps that the braces of a statement take. -/
def Statement.steps : Statement → List DyckStep
  | .openLoop => [.U]
  | .closeLoop => [.D]
  | _ => []

theorem braces_text (hx : Reading.Writable x) : x.text.toList.filterMap brace? = x.steps := by
  cases x with
  | allocate size =>
    obtain ⟨k, rfl⟩ := Int.eq_ofNat_of_zero_le hx
    have htext : (Statement.allocate k).text = "tape_init(" ++ toString k ++ "u);" := rfl
    rw [htext, String.toList_append, String.toList_append, List.filterMap_append,
      List.filterMap_append, braces_toString]
    rfl
  | apply op k =>
    rw [Statement.text, String.toList_append, String.toList_append, String.toList_append,
      List.filterMap_append, List.filterMap_append, List.filterMap_append, braces_toString]
    cases op <;> rfl
  | output => rfl
  | input => rfl
  | openLoop => rfl
  | closeLoop => rfl

theorem braces_unlines (hls : ∀ l ∈ ls, Reading.Writable l.statement) :
    (Text.unlines (ls.map Line.text)).toList.filterMap brace? =
      ls.flatMap (·.statement.steps) := by
  induction ls with
  | nil => rfl
  | cons l ls ih =>
    have hl := braces_text (hls l List.mem_cons_self)
    have hrest := ih fun k hk => hls k (List.mem_cons_of_mem l hk)
    have hblanks : (List.replicate (4 * l.depth) ' ').filterMap brace? = [] := by
      rw [List.filterMap_eq_nil_iff]
      intro c hc
      rw [List.eq_of_mem_replicate hc]
      rfl
    have htext : (Text.unlines ((l :: ls).map Line.text)).toList =
        List.replicate (4 * l.depth) ' ' ++ l.statement.text.toList ++
          '\n' :: (Text.unlines (ls.map Line.text)).toList := by
      simp [Text.unlines, String.join_cons, Line.text, Text.toList_pushn]
    rw [htext, List.filterMap_append, List.filterMap_append, hblanks, hl, List.nil_append,
      List.filterMap_cons_none rfl, hrest, List.flatMap_cons]

mutual

theorem steps_layout_instruction : ∀ (i : Instruction) (d : Nat),
    (i.layout d).flatMap (·.statement.steps) = i.braces.toList
  | .act a, _ => by cases a <;> rfl
  | .loop body, d => by
    have hbody := steps_layout body (d + 1)
    rw [Instruction.layout, List.cons_append, List.flatMap_cons, List.flatMap_append, hbody]
    rfl

/-- The braces of a program's lines are those of its loops. -/
theorem steps_layout : ∀ (p : Program) (d : Nat),
    (p.layout d).flatMap (·.statement.steps) = p.braces.toList
  | [], _ => rfl
  | i :: p, d => by
    rw [Program.layout, List.flatMap_append, steps_layout_instruction i, steps_layout p]
    rfl

end

end Emit

end Brainfuck
