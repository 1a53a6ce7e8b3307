import Brainfuck.CommandLine.Options
import Brainfuck.CommandLine.Value

/-! The command line of the interpreter and compiler. -/
namespace Brainfuck.CommandLine

inductive Mode
  | interpret
  | compile
  deriving DecidableEq

/-- An option whose value got lost has none. -/
structure Settings where
  source : String
  memory : Option Int
  mode : Mode
  outputDir : Option String
  compiler : Option String
  verbose : Bool
  deriving DecidableEq

namespace Settings

def start : Settings where
  source := ""
  memory := some 4096
  mode := .interpret
  outputDir := some "."
  compiler := none
  verbose := false

def takeMemory (value : Option String) (s : Settings) : Except String Settings :=
  match value with
  | none => .ok { s with memory := none }
  | some text =>
    match positiveInteger text with
    | .ok n => .ok { s with memory := some n }
    | .error e => .error e.message

def takeMode (value : Option String) (s : Settings) : Except String Settings :=
  match value with
  | none => .ok { s with mode := .interpret }
  | some "interpret" => .ok { s with mode := .interpret }
  | some "compile" => .ok { s with mode := .compile }
  | some text =>
    .error ("invalid choice: " ++ Text.quoted text ++ " (choose from 'interpret', 'compile')")

def takeOutputDir (value : Option String) (s : Settings) : Except String Settings :=
  .ok { s with outputDir := value }

def takeCompiler (value : Option String) (s : Settings) : Except String Settings :=
  .ok { s with compiler := value }

def grammar : Grammar Settings where
  entries :=
    [⟨["-h", "--help"], .help⟩,
      ⟨["-m", "--memory"], .value takeMemory⟩,
      ⟨["-x", "--execution"], .value takeMode⟩,
      ⟨["-o", "--output-dir"], .value takeOutputDir⟩,
      ⟨["--cc"], .value takeCompiler⟩,
      ⟨["-v", "--verbose"], .switch fun s => { s with verbose := true }⟩]
  operand := some ⟨"source", fun text s => { s with source := text }⟩

def read (argv : List String) : Outcome Settings := grammar.read start argv

end Settings

end Brainfuck.CommandLine
