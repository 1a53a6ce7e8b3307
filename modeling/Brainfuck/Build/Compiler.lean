import Brainfuck.Fault
import Brainfuck.Log
import Brainfuck.Path
import Brainfuck.Text.Quoted

/-! Compilers: the command they are started with, and the verdict on a source. -/
namespace Brainfuck.Build

inductive Verdict
  | accepted
  | rejected
  | raised (fault : Fault)
  deriving DecidableEq

/-- What became of a source that a toolchain was given. -/
structure Reply where
  command : Option (List String)
  verdict : Verdict
  deletesSource : Bool
  log : List Log.Record

/-- A toolchain takes a source and a destination. -/
abbrev Toolchain := Path → Path → Reply

def Toolchain.constant (verdict : Verdict) : Toolchain := fun _ _ => ⟨none, verdict, false, []⟩

/-- How a compiler process went: the fault that kept it from starting, or its exit status. -/
structure ToolRun where
  ending : Except Fault Int
  deletesSource : Bool

structure Compiler where
  executable : String
  flags : List String

namespace Compiler

def defaultFlags : List String := ["-O2"]

/-- The first executable that is given and not empty: by the caller, by the environment, or `cc`. -/
def choose (executable environment : Option String) (flags : List String) : Compiler :=
  let named (name : Option String) := name.filter (· != "")
  ⟨((named executable).or (named environment)).getD "cc", flags⟩

def command (c : Compiler) (source destination : Path) : List String :=
  c.executable :: c.flags ++ ["-o", destination.text, source.text]

def record (level : Log.Level) (text : String) : Log.Record := ⟨level, .generator, text⟩

/-- Starts a process that goes as given. Only exit status zero accepts the source. A process that the
system cannot start rejects it; a process that did not start deleted nothing. -/
def toolchain (c : Compiler) (run : ToolRun) : Toolchain := fun source destination =>
  let command := c.command source destination
  let started := record .debug ("Invoking toolchain: " ++ " ".intercalate command)
  match run.ending with
  | .error f =>
    if f.isSystem then
      ⟨some command, .rejected, false,
        [started, record .error
          ("Cannot launch C compiler " ++ Text.quoted c.executable ++ ": " ++ f.text)]⟩
    else ⟨some command, .raised f, false, [started]⟩
  | .ok status =>
    if status = 0 then ⟨some command, .accepted, run.deletesSource, [started]⟩
    else
      ⟨some command, .rejected, run.deletesSource,
        [started, record .error ("C compiler exited with status " ++ toString status)]⟩

end Compiler

end Brainfuck.Build
