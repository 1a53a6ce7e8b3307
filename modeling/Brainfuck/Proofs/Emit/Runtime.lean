import Brainfuck.Proofs.Emit.Reading

/-! What a generated program does when it runs: the bodies of its functions, on numbers of 64 bits and
bytes of 8, where memory can always be had and the output never fails. Each is read from the lines of the
opening that `Call.lines` names. -/
namespace Brainfuck.Emit

/-- A block of memory. What lies outside must not be touched. -/
structure Block where
  size : Nat
  byte : Nat → UInt8

/-- A running program: the three fields of its tape, which `tapeLines` declare, the input it has not read, and
the bytes it has put out, of which those of `pending` are not flushed. -/
structure Native where
  cells : Block
  length : UInt64
  index : UInt64
  unread : List UInt8
  pending : List UInt8
  written : List UInt8

/-- How a program stops before the end of its main function: with status 1 and a message, or by touching
memory that is not its own, after which nothing is promised. -/
inductive Halt
  | exit (message : String)
  | undefined
  deriving DecidableEq

namespace Block

def calloc (n : UInt64) : Option Block := some ⟨n.toNat, fun _ => 0⟩

/-- The bytes that both sizes have stay; any others are what `junk` gives for the new size. -/
def realloc (junk : Nat → Nat → UInt8) (b : Block) (n : UInt64) : Option Block :=
  some ⟨n.toNat, fun j => if j < b.size then b.byte j else junk n.toNat j⟩

def memset (b : Block) (start : UInt64) (v : UInt8) (n : UInt64) : Option Block :=
  if start.toNat + n.toNat ≤ b.size then
    some { b with
      byte := fun j => if start.toNat ≤ j ∧ j < start.toNat + n.toNat then v else b.byte j }
  else none

end Block

namespace Call

/-- The function that a call is made of. -/
def callee : Call → String
  | .allocate _ => "tape_init"
  | .apply op _ => function op
  | .output => "output"
  | .input => "input"

/-- The lines that define this function. -/
def lines : Call → List String
  | .allocate _ => allocateLines
  | .apply .moveRight _ => moveRightLines
  | .apply .moveLeft _ => moveLeftLines
  | .apply .increment _ => incrementLines
  | .apply .decrement _ => decrementLines
  | .output => outputLines
  | .input => inputLines

/-- They stand in the opening under the function's name. -/
theorem mem_definitions (c : Call) : (c.callee, c.lines) ∈ definitions := by
  rcases c with n | ⟨_ | _ | _ | _, n⟩ | _ | _ <;> simp [callee, lines, function, definitions]

/-- The first of the lines of a function has its name. -/
theorem head_of_definition : ∀ d ∈ definitions,
    ("static void " ++ d.1 ++ "(").toList <+: (d.2.headD "").toList := by
  decide +kernel

end Call

namespace Native

variable {α : Type}

def load (i : UInt64) : EStateM Halt Native UInt8 := fun s =>
  if i.toNat < s.cells.size then .ok (s.cells.byte i.toNat) s else .error .undefined s

def store (i : UInt64) (v : UInt8) : EStateM Halt Native Unit := fun s =>
  if i.toNat < s.cells.size then
    .ok () { s with
      cells := { s.cells with byte := fun j => if i.toNat = j then v else s.cells.byte j } }
  else .error .undefined s

def flushed (s : Native) : Native := { s with pending := [], written := s.written ++ s.pending }

/-- Whether the flush succeeds. -/
def flush : EStateM Halt Native Bool := fun s => .ok true s.flushed

/-- Whether the byte can be put out. -/
def putchar (v : UInt8) : EStateM Halt Native Bool := fun s =>
  .ok true { s with pending := s.pending ++ [v] }

/-- The next byte of the input, or none at its end. -/
def getchar : EStateM Halt Native (Option UInt8) := fun s =>
  match s.unread with
  | [] => .ok none s
  | v :: rest => .ok (some v) { s with unread := rest }

/-- What `failLines` say; the message goes to the error output. -/
def fail (message : String) : EStateM Halt Native α := do
  let _ ← flush
  throw (.exit message)

/-- What `allocateLines` say. -/
def allocate (n : UInt64) : EStateM Halt Native Unit := fun s =>
  match Block.calloc n with
  | none => fail "cannot allocate memory" s
  | some cells => .ok () { s with cells, length := n, index := 0 }

/-- What `moveRightLines` say. The largest number is `-1`: an index can neither reach nor pass it. -/
def moveRight (junk : Nat → Nat → UInt8) (n : UInt64) : EStateM Halt Native Unit := fun s =>
  if -1 - s.index - 1 < n then fail "cannot allocate memory" s
  else
    let s := { s with index := s.index + n }
    if s.index < s.length then .ok () s
    else
      let needed := s.index + 1
      match Block.realloc junk s.cells needed with
      | none => fail "cannot allocate memory" s
      | some grown =>
        match grown.memset s.length 0 (needed - s.length) with
        | none => .error .undefined s
        | some cells => .ok () { s with cells, length := needed }

/-- What `moveLeftLines` say. -/
def moveLeft (n : UInt64) : EStateM Halt Native Unit := fun s =>
  if s.index < n then fail "negative memory addresses are invalid" s
  else .ok () { s with index := s.index - n }

/-- What `incrementLines` and `decrementLines` say of a sum and of a difference. The new value is computed
as a whole number, of which the cell keeps the last 8 bits. -/
def change (f : Int → Int → Int) (n : UInt8) : EStateM Halt Native Unit := do
  let s ← get
  let v ← load s.index
  store s.index (.ofInt (f v.toNat n.toNat))

/-- What `outputLines` say. -/
def output : EStateM Halt Native Unit := do
  let s ← get
  let v ← load s.index
  if !(← putchar v) then fail "cannot write to stdout"

/-- What `inputLines` say. -/
def input : EStateM Halt Native Unit := do
  if !(← flush) then fail "cannot write to stdout"
  match ← getchar with
  | none => fail "cannot read stdin"
  | some v =>
    let s ← get
    store s.index v

/-- The number of a call is converted to the type that its function takes. -/
def perform (junk : Nat → Nat → UInt8) : Call → EStateM Halt Native Unit
  | .allocate n => allocate (.ofNat n)
  | .apply .moveRight n => moveRight junk (.ofNat n)
  | .apply .moveLeft n => moveLeft (.ofNat n)
  | .apply .increment n => change (· + ·) (.ofNat n)
  | .apply .decrement n => change (· - ·) (.ofNat n)
  | .output => output
  | .input => input

/-- Whether the cell under the index is not zero, which is what the head of a loop asks. -/
def test : EStateM Halt Native Bool := do
  let s ← get
  let v ← load s.index
  return v != 0

/-- What `closingLines` say: the end of the main function, which then returns 0. -/
def finish : EStateM Halt Native Unit := do
  if !(← flush) then fail "cannot write to stdout"

/-- Before the tape is allocated it has no cells. -/
def start (input : List UInt8) : Native := ⟨⟨0, fun _ => 0⟩, 0, 0, input, [], []⟩

end Native

abbrev Outcome := EStateM.Result Halt Native Unit

/-- Statements run in order until one stops the program. A loop tests the cell before each pass. -/
inductive Runs (junk : Nat → Nat → UInt8) : List Code → Native → Outcome → Prop
  | done {s} : Runs junk [] s (.ok () s)
  | call {c cs s s₁ y} (now : Native.perform junk c s = .ok () s₁) (later : Runs junk cs s₁ y) :
    Runs junk (.call c :: cs) s y
  | callStops {c cs s s₁ h} (now : Native.perform junk c s = .error h s₁) :
    Runs junk (.call c :: cs) s (.error h s₁)
  | skip {body cs s s₁ y} (test : Native.test s = .ok false s₁) (later : Runs junk cs s₁ y) :
    Runs junk (.loop body :: cs) s y
  | pass {body cs s s₁ s₂ y} (test : Native.test s = .ok true s₁)
    (once : Runs junk body s₁ (.ok () s₂)) (again : Runs junk (.loop body :: cs) s₂ y) :
    Runs junk (.loop body :: cs) s y
  | passStops {body cs s s₁ s₂ h} (test : Native.test s = .ok true s₁)
    (once : Runs junk body s₁ (.error h s₂)) : Runs junk (.loop body :: cs) s (.error h s₂)
  | testStops {body cs s s₁ h} (test : Native.test s = .error h s₁) :
    Runs junk (.loop body :: cs) s (.error h s₁)

/-- A program ends by returning from its main function or where a statement stops it. -/
inductive Ends (junk : Nat → Nat → UInt8) (main : List Code) (input : List UInt8) : Outcome → Prop
  | returns {s} (body : Runs junk main (.start input) (.ok () s)) :
    Ends junk main input (Native.finish s)
  | stops {h s} (body : Runs junk main (.start input) (.error h s)) :
    Ends junk main input (.error h s)

end Brainfuck.Emit
