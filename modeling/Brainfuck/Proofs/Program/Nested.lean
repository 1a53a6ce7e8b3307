import Brainfuck.Program.Dump

/-! Reading a program back from its nested data. -/
namespace Brainfuck

/-- The tape operation of that name. -/
def TapeOp.ofName? (name : List CodePoint) : Option TapeOp :=
  [moveRight, moveLeft, increment, decrement].find? fun op => CodePoint.ofString op.name = name

/-- The action without a count of that name. -/
def Action.ofName? (name : List CodePoint) : Option Action :=
  if name = CodePoint.ofString "output" then some .output
  else if name = CodePoint.ofString "input" then some .input
  else none

mutual

/-- An object is read as an instruction if its fields are those of one, and no others. -/
def Instruction.ofNested? : Json → Option Instruction
  | .object [(op, .text name)] =>
    if op = CodePoint.ofString "op" then (Action.ofName? name).map .act else none
  | .object [(op, .text name), (count, .integer n)] =>
    if op = CodePoint.ofString "op" ∧ count = CodePoint.ofString "count" then
      (TapeOp.ofName? name).bind fun tapeOp => (Instruction.counted tapeOp n).toOption
    else none
  | .object [(op, .text name), (body, .list items)] =>
    if op = CodePoint.ofString "op" ∧ body = CodePoint.ofString "body" ∧
        name = CodePoint.ofString "loop" then
      (Program.ofNested? items).map .loop
    else none
  | _ => none

def Program.ofNested? : List Json → Option Program
  | [] => some []
  | j :: js =>
    match Instruction.ofNested? j, Program.ofNested? js with
    | some i, some is => some (i :: is)
    | _, _ => none

end

theorem TapeOp.ofName?_name (op : TapeOp) : ofName? (CodePoint.ofString op.name) = some op := by
  cases op <;> decide

theorem Action.ofNested_dump (a : Action) (h : a ≠ .unknown) :
    ∃ j, a.dump? = some j ∧ Instruction.ofNested? j = some (.act a) := by
  cases a with
  | apply op n =>
    refine ⟨_, rfl, ?_⟩
    simp only [Json.ofFields, Json.ofString, List.map_cons, List.map_nil, Instruction.ofNested?,
      and_self, if_true, TapeOp.ofName?_name, Option.bind_some, Instruction.counted_val]
    rfl
  | output => exact ⟨_, rfl, by rfl⟩
  | input => exact ⟨_, rfl, by rfl⟩
  | unknown => exact (h rfl).elim

mutual

theorem Instruction.ofNested_dump : ∀ i : Instruction, i.isKnown = true →
    ∃ j, i.dump? = some j ∧ Instruction.ofNested? j = some i
  | .act a, h => a.ofNested_dump (by rintro rfl; cases h)
  | .loop body, h => by
    obtain ⟨items, hitems, hbody⟩ := Program.ofNested_dump body h
    refine ⟨.ofFields [("op", .ofString "loop"), ("body", .list items)], ?_, ?_⟩
    · rw [Instruction.dump?, hitems]
      rfl
    · simp only [Json.ofFields, Json.ofString, List.map_cons, List.map_nil, Instruction.ofNested?,
        and_self, if_true, hbody]
      rfl

/-- The nested data of a known program is read as that program. -/
theorem Program.ofNested_dump : ∀ p : Program, p.isKnown = true →
    ∃ items, p.dump? = some items ∧ Program.ofNested? items = some p
  | [], _ => ⟨[], rfl, by rfl⟩
  | i :: p, h => by
    obtain ⟨hi, hp⟩ : i.isKnown = true ∧ Program.isKnown p = true := by
      simpa [Program.isKnown] using h
    obtain ⟨j, hj, hfirst⟩ := Instruction.ofNested_dump i hi
    obtain ⟨items, hitems, hrest⟩ := Program.ofNested_dump p hp
    refine ⟨j :: items, ?_, ?_⟩
    · rw [Program.dump?, hj, hitems]
      rfl
    · rw [Program.ofNested?, hfirst, hrest]

end

end Brainfuck
