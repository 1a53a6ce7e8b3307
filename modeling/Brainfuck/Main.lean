import Brainfuck.CommandLine

/-! The program on a terminal. A running program is given each byte of input when it asks for it, and
what it writes is passed on as it is written. No compiler can be started from here, so a build ends
with the message that a failed start has. -/
namespace Brainfuck.CommandLine

def readErrorOf : IO.Error → ReadError
  | .noFileOrDirectory _ _ _ => .missing
  | .inappropriateType _ code _ => if code = 21 then .isDirectory else .missing
  | .invalidArgument _ _ _ => .nameTooLong
  | e => .refused e.toString

def readFile (source : String) : IO (Except ReadError (List UInt8)) := do
  try
    let bytes ← IO.FS.readBinFile (Path.ofString source).text
    return .ok bytes.toList
  catch e => return .error (readErrorOf e)

structure Terminal where
  input : IO.FS.Stream
  output : IO.FS.Stream

namespace Terminal

/-- Gives a byte to a program that is about to ask for one. -/
def supply (t : Terminal) (inner : Frame) (m : Machine) : IO Machine :=
  match inner.rest with
  | .act .input :: _ => do
    t.output.flush
    let bytes ← t.input.read 1
    return { m with streams := { m.streams with supplies := [.bytes bytes.toList] } }
  | _ => return m

/-- Passes on what the program has written. -/
def deliver (t : Terminal) (m : Machine) : IO Machine := do
  if m.streams.written.isEmpty then return m
  t.output.write ⟨m.streams.written⟩
  return { m with streams := { m.streams with written := #[], calls := #[] } }

partial def drive (t : Terminal) : List Frame → Machine → IO (Ending × Machine)
  | [], m => return (.finished, m)
  | inner :: outer, m => do
    match (Machine.runner none).round inner outer (← t.supply inner m) with
    | .ok frames m => t.drive frames (← t.deliver m)
    | .error e m => return (.failed e, m)

/-- Runs a program to its end, or until the terminal fails. -/
def interpret (t : Terminal) (i : Interpreter) (p : Program) : IO Run := do
  let streams := Streams.start [] .faultless
  try
    let (ending, m) ← t.drive [⟨p, none⟩] ⟨i.tape, streams, 0⟩
    t.output.flush
    return ⟨{ i with tape := m.tape }, m.streams, m.steps, ending⟩
  catch e => return ⟨i, streams, 0, .failed (.cannotWrite ⟨.system, none, e.toString⟩)⟩

end Terminal

/-- The world of a process that can start no other. -/
def lonely (environment : Option String) : World where
  room := Tape.usualRoom
  read _ := .error .missing
  input := []
  output := .faultless
  environment := environment
  tool := ⟨.error ⟨.system, some 38, "[Errno 38] Function not implemented"⟩, false⟩
  temporary := .ofString ("/tmp/" ++ Build.temporaryName "source")

def perform (t : Terminal) (argv : List String) : IO Report := do
  match Settings.read argv with
  | .help => return .help
  | .misuse message => return .misuse message
  | .settings s =>
    let w := lonely (← IO.getEnv "CC")
    match plan w.room s (← readFile s.source) with
    | .interpret s i p log => return conclude s (← t.interpret i p) log
    | task => return task.run 0 w

def Exit.code : Exit → UInt32
  | .status n => .ofNat n
  | _ => 1

def Exit.text : Exit → String
  | .escaped e => e.message ++ "\n"
  | _ => ""

end Brainfuck.CommandLine

open Brainfuck.CommandLine in
def main (args : List String) : IO UInt32 := do
  let t : Terminal := ⟨← IO.getStdin, ← IO.getStdout⟩
  let r ← perform t args
  t.output.write ⟨r.stdout.toArray⟩
  t.output.flush
  (← IO.getStderr).putStr (r.stderr ++ r.exit.text)
  return r.exit.code
