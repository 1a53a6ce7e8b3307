import Brainfuck.Build
import Brainfuck.CommandLine.Settings
import Brainfuck.CommandLine.Usage
import Brainfuck.Files
import Brainfuck.Interpreter
import Brainfuck.Text.Newline
import Brainfuck.Text.Utf8

/-! Running a command line: reading the source file, then interpreting the program or building an
executable from it. Nothing is read from the input before the program asks for it. -/
namespace Brainfuck.CommandLine

/-- What surrounds a command line. -/
structure World where
  room : Nat
  read : String → Except ReadError (List UInt8)
  input : List Supply
  output : OutputScript
  environment : Option String
  tool : Build.ToolRun
  temporary : Path

/-- What keeps a command line from ending with a status: an error that it does not report, or the lost
value of an option. -/
inductive Escape
  | run (error : RunError)
  | noMemory
  | noOutputDir
  deriving DecidableEq

def Escape.message : Escape → String
  | .run e => e.message
  | .noMemory => "'<' not supported between instances of 'list' and 'int'"
  | .noOutputDir => "expected str, bytes or os.PathLike object, not list"

inductive Exit
  | status (code : Nat)
  | escaped (error : Escape)
  | unfinished
  deriving DecidableEq

/-- What a command line leaves behind. `reads` is how many bytes of input it asked for. -/
structure Report where
  exit : Exit
  stdout : List UInt8
  stderr : String
  invocations : List Build.Invocation
  reads : Nat

/-- The file that an executable is built into: in the output directory, named like the source without
its last suffix. -/
def destination (source outputDir : String) : Path :=
  let stem := (Path.ofString source).stem
  (Path.ofString outputDir).join (.ofString (if stem = "" then "program.out" else stem))

def unreadable (source reason : String) : String :=
  "Cannot read source file " ++ source ++ ": " ++ reason

/-- The text of the source file, its line ends unified, or the message that it cannot be read. -/
def decodeSource (source : String) (contents : Except ReadError (List UInt8)) :
    Except String String :=
  let shown := Text.quoted (Path.ofString source).text
  match contents with
  | .error .missing => .error ("Source file not found: " ++ source)
  | .error .isDirectory => .error (unreadable source ("[Errno 21] Is a directory: " ++ shown))
  | .error .nameTooLong => .error (unreadable source ("[Errno 36] File name too long: " ++ shown))
  | .error (.refused reason) => .error (unreadable source reason)
  | .ok bytes =>
    match Text.decodeUtf8 bytes with
    | .ok cs => .ok (.ofList (Text.unifyNewlines cs))
    | .error e => .error (unreadable source e.message)

/-- The lines of the records that are shown: all of them if verbose, else warnings and errors. -/
def logText (verbose : Bool) (records : List Log.Record) : String :=
  String.join ((records.filter fun r => verbose || r.level != .debug).map (·.line))

namespace Report

def help : Report := ⟨.status 0, Manual.toolchain.help.toUTF8.toList, "", [], 0⟩

def misuse (message : String) : Report := ⟨.status 2, [], Manual.toolchain.misuse message, [], 0⟩

def failure (message : String) : Report := ⟨.status 1, [], message ++ "\n", [], 0⟩

def escape (e : Escape) (log : String) : Report := ⟨.escaped e, [], log, [], 0⟩

end Report

/-- What is left to do once the source has been read, with the log so far. -/
inductive Task
  | report (report : Report)
  | compile (settings : Settings) (program : Program) (log : String)
  | interpret (settings : Settings) (interpreter : Interpreter) (program : Program) (log : String)

/-- The task that settings set, given the contents of the source file. -/
def plan (room : Nat) (s : Settings) (contents : Except ReadError (List UInt8)) : Task :=
  match decodeSource s.source contents with
  | .error message => .report (.failure message)
  | .ok text =>
    match Program.parse text with
    | .error e => .report (.failure ("Parse error: " ++ e.message))
    | .ok parsed =>
      let p := parsed.optimize
      let log := logText s.verbose (Log.parsed text parsed :: Log.optimized parsed p)
      match s.mode with
      | .compile => .compile s p log
      | .interpret =>
        match s.memory with
        | none => .report (.escape .noMemory log)
        | some size =>
          match Interpreter.create room size none with
          | .error e => .report (.escape (.run (.size e)) log)
          | .ok i => .interpret s i p log

def compile (s : Settings) (w : World) (p : Program) (log : String) : Report :=
  let compiler := Build.Compiler.choose s.compiler w.environment Build.Compiler.defaultFlags
  match s.outputDir, s.memory with
  | none, _ => .escape .noOutputDir log
  | _, none => .escape .noMemory log
  | some outputDir, some size =>
    match Build.build size p (compiler.toolchain w.tool) w.temporary
        (destination s.source outputDir) .empty with
    | .ok _ done => ⟨.status 0, [], log ++ logText s.verbose done.log, done.invocations, 0⟩
    | .error (.raised f) done =>
      ⟨.escaped (.run (.raised f)), [], log ++ logText s.verbose done.log, done.invocations, 0⟩
    | .error e done =>
      ⟨.status 1, [],
        log ++ logText s.verbose done.log ++ "Compilation error: " ++ e.message ++ "\n",
        done.invocations, 0⟩

def finished (t : Tape) : Log.Record :=
  ⟨.debug, .commandLine, "Program finished with " ++ toString t.length ++ " tape cells"⟩

/-- The output is flushed once more after the program has ended. -/
def conclude (s : Settings) (r : Run) (log : String) : Report :=
  let report (exit : Exit) (streams : Streams) (more : String) : Report :=
    ⟨exit, streams.written.toList, log ++ more, [], streams.reads⟩
  match r.ending with
  | .unfinished => report .unfinished r.streams ""
  | .failed e =>
    if e.isFailure then report (.status 1) r.streams ("Runtime error: " ++ e.message ++ "\n")
    else report (.escaped (.run e)) r.streams ""
  | .finished =>
    match Streams.flush r.streams with
    | .ok _ streams =>
      report (.status 0) streams (logText s.verbose [finished r.interpreter.tape])
    | .error f streams =>
      if f.isSystem then
        report (.status 1) streams ("Runtime error: Cannot write to output: " ++ f.text ++ "\n")
      else report (.escaped (.run (.raised f))) streams ""

/-- Carries out a task; a program is given the stated number of rounds. -/
def Task.run (rounds : Nat) (w : World) : Task → Report
  | report r => r
  | .compile s p log => CommandLine.compile s w p log
  | interpret s i p log => conclude s (i.run rounds p (.start w.input w.output)) log

def run (rounds : Nat) (w : World) (argv : List String) : Report :=
  match Settings.read argv with
  | .help => .help
  | .misuse message => .misuse message
  | .settings s => (plan w.room s (w.read s.source)).run rounds w

end Brainfuck.CommandLine
