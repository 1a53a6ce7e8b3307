import Brainfuck.Text.Digit
import Brainfuck.Text.Quoted

/-! Reading the words of a command line. A grammar lists options and at most one operand; the words
are sorted first and carried out afterwards, from left to right. -/
namespace Brainfuck.CommandLine

/-- What an option does to the settings. One that takes a value is given none if that value is two
dashes. -/
inductive Effect (σ : Type)
  | switch (change : σ → σ)
  | value (change : Option String → σ → Except String σ)
  | help

structure Entry (σ : Type) where
  names : List String
  effect : Effect σ

structure Operand (σ : Type) where
  name : String
  change : String → σ → σ

structure Grammar (σ : Type) where
  entries : List (Entry σ)
  operand : Option (Operand σ)

/-- How the words were taken. -/
inductive Outcome (σ : Type)
  | settings (settings : σ)
  | help
  | misuse (message : String)

/-- An option as it was written: the name that it stands for and the value attached to it. -/
structure Reading (σ : Type) where
  entry : Entry σ
  name : String
  attached : Option String

/-- Words after the first separator are operands, whatever they look like. -/
inductive Word (σ : Type)
  | operand (text : String)
  | separator
  | option (reading : Reading σ)
  | unknown (text : String)

/-- An option to be carried out. -/
structure Use (σ : Type) where
  entry : Entry σ
  value : Option String

variable {σ : Type}

namespace Entry

def title (e : Entry σ) : String := "/".intercalate e.names

def takesValue (e : Entry σ) : Bool :=
  match e.effect with
  | .value _ => true
  | _ => false

def complaint (e : Entry σ) (text : String) : String :=
  "argument " ++ e.title ++ ": " ++ text

def ignored (e : Entry σ) (attached : List Char) : String :=
  e.complaint ("ignored explicit argument " ++ Text.quoted (.ofList attached))

end Entry

/-- A minus sign and digits, with at most one point among them that digits follow. One line feed at
the end does not count. -/
def isNegativeNumber (cs : List Char) : Bool :=
  let isDigit (c : Char) := (Text.digit? c).isSome
  let number (cs : List Char) :=
    let fraction := cs.dropWhile isDigit
    match fraction with
    | [] => cs != []
    | '.' :: ds => ds != [] && ds.all isDigit
    | _ => false
  match cs with
  | '-' :: cs => number cs || (cs.getLast? == some '\n' && number cs.dropLast)
  | _ => false

namespace Grammar

/-- Every name with its entry, in the order of the grammar. -/
def names (g : Grammar σ) : List (String × Entry σ) :=
  g.entries.flatMap fun e => e.names.map (·, e)

def find? (g : Grammar σ) (name : String) : Option (Entry σ) :=
  (g.names.find? fun n => n.1 == name).map (·.2)

/-- The part of a word before its first equals sign, and the part after it if there is one. -/
def splitValue (cs : List Char) : String × Option String :=
  let name := cs.takeWhile (· != '=')
  match cs.dropWhile (· != '=') with
  | [] => (.ofList name, none)
  | _ :: value => (.ofList name, some (.ofList value))

/-- The options that a word which is no full name can stand for. A word with two dashes abbreviates
names; one with a single dash is a one-letter name with its value attached. -/
def candidates (g : Grammar σ) (cs : List Char) : List (Reading σ) :=
  match cs with
  | '-' :: '-' :: _ =>
    let (start, attached) := splitValue cs
    g.names.filterMap fun (name, e) =>
      if start.toList.isPrefixOf name.toList then some ⟨e, name, attached⟩ else none
  | _ =>
    g.names.filterMap fun (name, e) =>
      if name.toList = cs.take 2 then some ⟨e, name, some (.ofList (cs.drop 2))⟩
      else if cs.isPrefixOf name.toList then some ⟨e, name, none⟩
      else none

/-- A word that starts with a dash, has more than the dash and is no full name. -/
def abbreviated (g : Grammar σ) (text : String) : Except String (Word σ) :=
  let cs := text.toList
  match g.candidates cs with
  | [r] => .ok (.option r)
  | [] =>
    if isNegativeNumber cs || cs.contains ' ' then .ok (.operand text) else .ok (.unknown text)
  | rs =>
    .error ("ambiguous option: " ++ text ++ " could match " ++ ", ".intercalate (rs.map (·.name)))

def word (g : Grammar σ) (text : String) : Except String (Word σ) :=
  match text.toList, g.find? text with
  | '-' :: _, some e => .ok (.option ⟨e, text, none⟩)
  | '-' :: c :: cs, none =>
    match splitValue ('-' :: c :: cs) with
    | (name, some value) =>
      match g.find? name with
      | some e => .ok (.option ⟨e, name, some value⟩)
      | none => g.abbreviated text
    | (_, none) => g.abbreviated text
  | _, _ => .ok (.operand text)

/-- Sorts the words; one that could stand for several options is an error. -/
def words (g : Grammar σ) : List String → Except String (List (Word σ))
  | [] => .ok []
  | "--" :: ws => .ok (.separator :: ws.map .operand)
  | w :: ws => do
    let w ← g.word w
    let ws ← g.words ws
    return w :: ws

/-- An option without attached text takes its value from the next word, if that is an operand. The
result tells whether the next word was used. -/
def lone (e : Entry σ) (next : Option String) : Except String (List (Use σ) × Bool) :=
  if e.takesValue then
    match next with
    | some text => .ok ([⟨e, some text⟩], true)
    | none => .error (e.complaint "expected one argument")
  else .ok ([⟨e, none⟩], false)

/-- An option with one dash and what is attached to it: a value, or further one-letter options. -/
def cluster (g : Grammar σ) (next : Option String) (e : Entry σ) :
    List Char → Except String (List (Use σ) × Bool)
  | [] => lone e next
  | c :: cs =>
    if e.takesValue then .ok ([⟨e, some (.ofList (c :: cs))⟩], false)
    else
      match g.find? (.ofList ['-', c]) with
      | none => .error (e.ignored (c :: cs))
      | some e' => (g.cluster next e' cs).map fun (us, used) => (⟨e, none⟩ :: us, used)

def uses (g : Grammar σ) (next : Option String) (r : Reading σ) :
    Except String (List (Use σ) × Bool) :=
  match r.attached with
  | none => lone r.entry next
  | some text =>
    if r.entry.takesValue then .ok ([⟨r.entry, some text⟩], false)
    else if text = "" ∨ ['-', '-'].isPrefixOf r.name.toList then
      .error (r.entry.ignored text.toList)
    else g.cluster next r.entry text.toList

/-- Carries out options until one asks for help or fails. -/
def carryOut : List (Use σ) → σ → Outcome σ
  | [], s => .settings s
  | u :: us, s =>
    match u.entry.effect with
    | .help => .help
    | .switch change => carryOut us (change s)
    | .value change =>
      match change (u.value.filter (· != "--")) s with
      | .ok s => carryOut us s
      | .error e => .misuse (u.entry.complaint e)

/-- The settings so far, the operand still wanted, and the words nobody took, last one first. -/
structure Progress (σ : Type) where
  settings : σ
  wanted : Option (Operand σ)
  extras : List String

/-- A missing operand is reported before words that nobody took. -/
def finish (p : Progress σ) : Outcome σ :=
  match p.wanted with
  | some o => .misuse ("the following arguments are required: " ++ o.name)
  | none =>
    if p.extras = [] then .settings p.settings
    else .misuse ("unrecognized arguments: " ++ " ".intercalate p.extras.reverse)

def nextOperand : List (Word σ) → Option String
  | .operand text :: _ => some text
  | _ => none

def startsWithSeparator : List (Word σ) → Bool
  | .separator :: _ => true
  | _ => false

/-- Carries out the words; `skip` drops the first one. A separator beside the operand is dropped, any
other is left over. -/
def carryOutWords (g : Grammar σ) : List (Word σ) → (skip : Bool) → Progress σ → Outcome σ
  | [], _, p => finish p
  | _ :: ws, true, p => g.carryOutWords ws false p
  | .operand text :: ws, false, p =>
    match p.wanted with
    | some o =>
      g.carryOutWords ws (startsWithSeparator ws)
        { p with settings := o.change text p.settings, wanted := none }
    | none => g.carryOutWords ws false { p with extras := text :: p.extras }
  | .separator :: ws, false, p =>
    if p.wanted.isSome && !ws.isEmpty then g.carryOutWords ws false p
    else g.carryOutWords ws false { p with extras := "--" :: p.extras }
  | .unknown text :: ws, false, p => g.carryOutWords ws false { p with extras := text :: p.extras }
  | .option r :: ws, false, p =>
    match g.uses (nextOperand ws) r with
    | .error e => .misuse e
    | .ok (us, used) =>
      match carryOut us p.settings with
      | .settings s => g.carryOutWords ws used { p with settings := s }
      | .help => .help
      | .misuse e => .misuse e

/-- The settings that the words ask for, starting from the given ones. -/
def read (g : Grammar σ) (start : σ) (argv : List String) : Outcome σ :=
  match g.words argv with
  | .error e => .misuse e
  | .ok ws => g.carryOutWords ws false ⟨start, g.operand, []⟩

end Grammar

end Brainfuck.CommandLine
