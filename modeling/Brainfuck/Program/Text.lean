import Brainfuck.Index
import Brainfuck.Program.Pass

/-! The text of a program: a counted operation is its symbol as often as the count says. -/
namespace Brainfuck

/-- Why a program has no text. -/
inductive TextError
  | tooLong
  | outOfMemory
  | unsupported
  deriving DecidableEq

namespace TextError

def message : TextError → String
  | tooLong => indexMessage
  | outOfMemory => ""
  | unsupported => "Unsupported instruction: Unknown()"

end TextError

/-- What keeps texts of these lengths, the latest first, from being held at once, if anything does. -/
def TextMemory := List Nat → Option TextError

namespace TextMemory

/-- There is always memory for one more text. -/
def ample : TextMemory := fun _ => none

/-- A text must be short enough to be indexed, and there must be memory for it. -/
def host (holds : List Nat → Bool) : TextMemory := fun lengths =>
  if maxIndex < lengths.headD 0 then some .tooLong
  else if holds lengths then none
  else some .outOfMemory

/-- Memory for texts of up to four gigabytes, which stands for that of a host where none is given. -/
def usual : TextMemory := host fun lengths => lengths.headD 0 ≤ 0x1_0000_0000

end TextMemory

theorem Text.toList_pushn {s : String} {c : Char} {n : Nat} :
    (s.pushn c n).toList = s.toList ++ List.replicate n c := by
  rw [String.pushn_eq_repeat_push]
  induction n with
  | zero => simp [Nat.repeat]
  | succ n ih => simp [Nat.repeat, ih, List.replicate_succ']

/-- The symbol that a visit is written with, and how often it is written. -/
def Visit.run? : Visit → Option (Symbol × Nat)
  | act (.apply op n) => some (.tape op, n.val)
  | act .output => some (.output, 1)
  | act .input => some (.input, 1)
  | act .unknown => none
  | enter => some (.loopStart, 1)
  | leave => some (.loopEnd, 1)

/-- What is written so far, and the lengths of its parts, the latest first. The parts are held until
they are joined. -/
structure Draft where
  text : String
  lengths : List Nat

namespace Draft

def blank : Draft := ⟨"", []⟩

/-- Writes one more part, if it can be held beside the others. -/
def write (memory : TextMemory) (d : Draft) (v : Visit) : Except TextError Draft :=
  match v.run? with
  | none => .error .unsupported
  | some (x, n) =>
    match memory (n :: d.lengths) with
    | some e => .error e
    | none => .ok ⟨d.text.pushn x.toChar n, n :: d.lengths⟩

/-- Joins the parts: one more text to be held, unless a single part is all there is. -/
def join (memory : TextMemory) (d : Draft) : Except TextError String :=
  if d.lengths.length ≤ 1 then .ok d.text
  else
    match memory (d.text.length :: d.lengths) with
    | some e => .error e
    | none => .ok d.text

end Draft

namespace Program

/-- Writes the parts of a program; the first that cannot be written is the failure. -/
def draft (p : Program) (memory : TextMemory) : Except TextError Draft :=
  p.fold (fun written v => written.bind (·.write memory v)) (.ok .blank)

def text (p : Program) (memory : TextMemory := .usual) : Except TextError String :=
  (p.draft memory).bind (·.join memory)

end Program

end Brainfuck
