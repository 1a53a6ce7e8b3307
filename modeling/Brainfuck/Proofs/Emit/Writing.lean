import Brainfuck.Proofs.Emit.Layout

/-! What a program that is generated leaves in an output whose writes fail from some point on.
Only writes fail: sizes and counts are taken to be written at any length (see `Text.maxDigits`). -/
namespace Brainfuck

mutual

def Instruction.loops : Instruction → Nat
  | .act _ => 0
  | .loop body => 1 + Program.loops body

/-- The number of loops, at any depth. -/
def Program.loops : Program → Nat
  | [] => 0
  | i :: is => i.loops + Program.loops is

end

mutual

theorem Instruction.count_leave : ∀ i : Instruction, i.visits.count .leave = i.loops
  | .act _ => rfl
  | .loop body => by
    have hbody := Program.count_leave body
    have henter : (.enter : Visit) ≠ .leave := by decide
    rw [Instruction.visits, Instruction.loops, List.cons_append, List.count_cons_of_ne henter, List.count_append, hbody,
      List.count_singleton_self]
    omega

/-- Each loop is left once. -/
theorem Program.count_leave : ∀ p : Program, p.visits.count .leave = p.loops
  | [] => rfl
  | i :: p => by
    rw [Program.visits, Program.loops, List.count_append, Instruction.count_leave i, Program.count_leave p]

end

namespace Emit

namespace TextOutput

variable {fault : Nat → Option Fault} {f : Fault} {k j : Nat} {ps : List String}

theorem writeAll_cons (p text : String) (ps : List String) (j : Nat) :
    writeAll (p :: ps) ⟨fault, text, j⟩ =
      match fault j with
      | some f => .error f ⟨fault, text, j + 1⟩
      | none => writeAll ps ⟨fault, text ++ p, j + 1⟩ := by
  change EStateM.bind (write p) (fun _ => writeAll ps) _ = _
  unfold EStateM.bind
  cases h : fault j <;> simp only [write, h]

/-- Writes of which none fails go on to the end. -/
theorem writeAll_ok (ps : List String) (text : String)
    (h : ∀ n, j ≤ n → n < j + ps.length → fault n = none) :
    writeAll ps ⟨fault, text, j⟩ = .ok () ⟨fault, text ++ String.join ps, j + ps.length⟩ := by
  induction ps generalizing text j with
  | nil => simp [writeAll, pure, EStateM.pure]
  | cons p ps ih =>
    rw [List.length_cons] at h
    have hgoes : fault j = none := h j (Nat.le_refl j) (by omega)
    rw [writeAll_cons, hgoes]
    dsimp only
    rw [ih (text ++ p) fun n hn hlt => h n (by omega) (by omega), String.join_cons,
      String.append_assoc, List.length_cons, Nat.add_right_comm, Nat.add_assoc]

/-- The first write that fails is the last, and what the ones before it wrote is kept. -/
theorem writeAll_error (ps : List String) (text : String) (hj : j ≤ k) (hk : k < j + ps.length)
    (hf : fault k = some f) (hbefore : ∀ n, j ≤ n → n < k → fault n = none) :
    writeAll ps ⟨fault, text, j⟩ =
      .error f ⟨fault, text ++ String.join (ps.take (k - j)), k + 1⟩ := by
  induction ps generalizing text j with
  | nil =>
    rw [List.length_nil] at hk
    omega
  | cons p ps ih =>
    rw [List.length_cons] at hk
    rw [writeAll_cons]
    rcases Nat.eq_or_lt_of_le hj with rfl | hlt
    · simp [hf]
    · have htake : (p :: ps).take (k - j) = p :: ps.take (k - (j + 1)) := by
        rw [show k - j = k - (j + 1) + 1 by omega, List.take_succ_cons]
      rw [hbefore j (Nat.le_refl j) hlt]
      dsimp only
      rw [ih (text ++ p) hlt (by omega) fun n hn => hbefore n (by omega), htake, String.join_cons,
        String.append_assoc]

theorem writeAll_failingFrom (k : Nat) (f : Fault) (ps : List String) :
    writeAll ps (failingFrom k f) =
      if k < ps.length then
        .error f ⟨(failingFrom k f).fault, String.join (ps.take k), k + 1⟩
      else .ok () ⟨(failingFrom k f).fault, String.join ps, ps.length⟩ := by
  have hstart : failingFrom k f = ⟨(failingFrom k f).fault, "", 0⟩ := rfl
  have hgoes (n : Nat) (hn : n < k) : (failingFrom k f).fault n = none := if_neg (Nat.not_le.mpr hn)
  rw [hstart]
  by_cases hk : k < ps.length
  · have hfails : (failingFrom k f).fault k = some f := if_pos (Nat.le_refl k)
    rw [if_pos hk, writeAll_error ps "" (Nat.zero_le k) (by omega) hfails fun n _ => hgoes n,
      String.empty_append, Nat.sub_zero]
  · rw [if_neg hk, writeAll_ok ps "" fun n _ hn => hgoes n (by omega), String.empty_append, Nat.zero_add]

end TextOutput

open TextOutput

variable {m : Int} {p : Program} {ps : List String} {e : EmitError}

/-- The opening, the lines of a program with their ends, and the closing. -/
def laidOut (m : Int) (p : Program) : List String :=
  opening :: (⟨1, .allocate m⟩ :: p.layout 1).flatMap (fun l => [l.text, "\n"]) ++ [closing]

theorem pieces_of_known (hm : 1 ≤ m) (hp : p.isKnown = true) : pieces m p = .ok (laidOut m p) := by
  rw [pieces, lines_eq, if_neg (by omega), if_pos hp]
  rfl

theorem source_eq_join (hm : 1 ≤ m) (hp : p.isKnown = true) :
    source m p = .ok (String.join (laidOut m p)) := by
  rw [source, pieces_of_known hm hp]
  rfl

/-- The opening and the closing are one piece each, and every line is two. -/
theorem length_laidOut (hp : p.isKnown = true) :
    (laidOut m p).length = 2 + 2 * (1 + p.size + p.loops) := by
  have hlines (ls : List Line) : (ls.flatMap fun l => [l.text, "\n"]).length = 2 * ls.length := by
    simp [List.length_flatMap, Nat.mul_comm]
  have hlength := length_layout p 1 hp
  have hvisits := length_visits p
  have hloops := p.count_leave
  rw [laidOut, List.cons_append, List.length_cons, List.length_append, hlines, List.length_cons,
    List.length_singleton]
  omega

theorem generate_of_error (h : pieces m p = .error e) (o : TextOutput) :
    generate m p o = .error (.emit e) o := by
  rw [generate, h]

theorem generate_of_written {o o' : TextOutput} (h : pieces m p = .ok ps)
    (hwrites : writeAll ps o = .ok () o') : generate m p o = .ok () o' := by
  simp only [generate, h, hwrites]

theorem generate_of_fault {o o' : TextOutput} {f : Fault} (h : pieces m p = .ok ps)
    (hwrites : writeAll ps o = .error f o') : generate m p o = .error (.write f) o' := by
  simp only [generate, h, hwrites]

theorem generate_failingFrom (h : pieces m p = .ok ps) (k : Nat) (f : Fault) :
    generate m p (failingFrom k f) =
      if k < ps.length then
        .error (.write f) ⟨(failingFrom k f).fault, String.join (ps.take k), k + 1⟩
      else .ok () ⟨(failingFrom k f).fault, String.join ps, ps.length⟩ := by
  have hwrites := writeAll_failingFrom k f ps
  by_cases hk : k < ps.length
  · rw [if_pos hk] at hwrites ⊢
    exact generate_of_fault h hwrites
  · rw [if_neg hk] at hwrites ⊢
    exact generate_of_written h hwrites

/-- What stands in the output is what the writes before the failing one have put there. -/
theorem writtenBefore_eq (k : Nat) (ps : List String) :
    writtenBefore k ps = (String.join (ps.take k), decide (k < ps.length)) := by
  rw [writtenBefore, writeAll_failingFrom]
  by_cases hk : k < ps.length
  · rw [if_pos hk, decide_eq_true hk]
  · rw [if_neg hk, decide_eq_false hk, List.take_of_length_le (Nat.le_of_not_lt hk)]

theorem join_take_isPrefix (k : Nat) (ps : List String) :
    (String.join (ps.take k)).toList <+: (String.join ps).toList := by
  have hsplit := congrArg String.join (List.take_append_drop k ps)
  rw [String.join_append] at hsplit
  rw [← hsplit, String.toList_append]
  exact List.prefix_append _ _

/-- The closing has something in it, so fewer pieces make a shorter text. -/
theorem join_take_ne {k : Nat} (hk : k < (laidOut m p).length) :
    String.join ((laidOut m p).take k) ≠ String.join (laidOut m p) := by
  intro heq
  obtain ⟨front, hfront⟩ : ∃ front, laidOut m p = front ++ [closing] := ⟨_, rfl⟩
  rw [hfront, List.length_append, List.length_singleton] at hk
  have hshort := (join_take_isPrefix k front).length_le
  have hclosing : 0 < (String.join [closing]).toList.length := by decide +kernel
  have hlength := congrArg (fun s => s.toList.length) heq
  rw [hfront, List.take_append_of_le_length (by omega), String.join_append] at hlength
  simp only [String.toList_append, List.length_append] at hlength
  omega

/-- A size that is too small, and after it an instruction that is unknown at any depth, stop a program
before the first write. Any other program takes two writes for each line, two lines for each loop and one for
each other instruction and for the allocation, and one write for the opening and for the closing. If all
writes fail from some one on, the generation fails there exactly if it comes that far, and the pieces
before it stand in the output: the start of the program's text, and all of it only if no write has failed. -/
theorem generate_writes_start (m : Int) (p : Program) (k : Nat) (f : Fault) :
    (m < 1 → generate m p (failingFrom k f) = .error (.emit (.tooSmall m)) (failingFrom k f)) ∧
    (1 ≤ m → p.isKnown = false →
      generate m p (failingFrom k f) = .error (.emit .unsupported) (failingFrom k f)) ∧
    (1 ≤ m → p.isKnown = true → ∃ ps total text,
      ps = opening :: (⟨1, .allocate m⟩ :: p.layout 1).flatMap (fun l => [l.text, "\n"]) ++ [closing] ∧
      ps.length = total ∧ total = 2 + 2 * (1 + p.size + p.loops) ∧
      source m p = .ok text ∧ text = String.join ps ∧
      generate m p (failingFrom k f) =
        (if k < total then
          .error (.write f) ⟨(failingFrom k f).fault, String.join (ps.take k), k + 1⟩
        else .ok () ⟨(failingFrom k f).fault, text, total⟩) ∧
      (String.join (ps.take (min k total))).toList <+: text.toList ∧
      (k < total → String.join (ps.take k) ≠ text)) := by
  refine ⟨fun hm => generate_of_error (pieces_of_tooSmall hm) _,
    fun hm hp => generate_of_error (pieces_of_unknown hm hp) _, ?_⟩
  intro hm hp
  have hpieces := pieces_of_known hm hp
  refine ⟨laidOut m p, _, _, rfl, rfl, length_laidOut hp, ?_, rfl, generate_failingFrom hpieces k f,
    join_take_isPrefix _ _, join_take_ne⟩
  exact source_eq_join hm hp

end Emit

end Brainfuck
