import Brainfuck.CommandLine.Options
import Brainfuck.CommandLine.Usage
import Brainfuck.Text.Integer

/-! The command line of the server. -/
namespace Brainfuck.Server

open CommandLine

/-- An option whose value got lost has none. -/
structure Settings where
  host : Option String
  port : Option Int
  reload : Bool
  deriving DecidableEq

/-- What is served: the application itself or, so that it can be built anew, the name of the function
that builds it. -/
inductive App
  | application
  | factory (name : String)
  deriving DecidableEq

structure Launch where
  app : App
  host : Option String
  port : Option Int
  deriving DecidableEq

inductive Start
  | launch (launch : Launch)
  | help (text : String)
  | misuse (text : String)

namespace Settings

def start : Settings := ⟨some "127.0.0.1", some 8000, false⟩

def takeHost (value : Option String) (s : Settings) : Except String Settings :=
  .ok { s with host := value }

def takePort (value : Option String) (s : Settings) : Except String Settings :=
  match value with
  | none => .ok { s with port := none }
  | some text =>
    match Text.integer? text with
    | some n => .ok { s with port := some n }
    | none => .error ("invalid int value: " ++ Text.quoted text)

def grammar : Grammar Settings where
  entries :=
    [⟨["-h", "--help"], .help⟩,
      ⟨["--host"], .value takeHost⟩,
      ⟨["--port"], .value takePort⟩,
      ⟨["--reload"], .switch fun s => { s with reload := true }⟩]
  operand := none

/-- A server that reloads needs the name of the application's builder. -/
def launch (s : Settings) : Launch :=
  ⟨if s.reload then .factory "tapebf.webui.app:create_app" else .application, s.host, s.port⟩

end Settings

def start (argv : List String) : Start :=
  match Settings.grammar.read .start argv with
  | .settings s => .launch s.launch
  | .help => .help Manual.server.help
  | .misuse message => .misuse (Manual.server.misuse message)

end Brainfuck.Server
