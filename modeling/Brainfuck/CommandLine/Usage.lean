import Brainfuck.Text.Lines

/-! The texts that explain a command line. -/
namespace Brainfuck.CommandLine

/-- A program's name, its usage lines and the lines that follow them in its help. -/
structure Manual where
  program : String
  usage : List String
  details : List String

namespace Manual

def help (m : Manual) : String := Text.unlines (m.usage ++ m.details)

/-- The complaint about words that cannot be taken. -/
def misuse (m : Manual) (message : String) : String :=
  Text.unlines (m.usage ++ [m.program ++ ": error: " ++ message])

/-- The manual of the interpreter and compiler. -/
def toolchain : Manual where
  program := "tapebf"
  usage := [
    "usage: tapebf [-h] [-m MEMORY] [-x \x7binterpret,compile\x7d] [-o OUTPUT_DIR]",
    "              [--cc CC] [-v]",
    "              source"
  ]
  details := [
    "",
    "Brainfuck interpreter and C compiler",
    "",
    "positional arguments:",
    "  source                Path to the Brainfuck program source code",
    "",
    "options:",
    "  -h, --help            show this help message and exit",
    "  -m MEMORY, --memory MEMORY",
    "                        Memory cells allocated when the program starts; the",
    "                        tape grows beyond it when required (default: 4096)",
    "  -x \x7binterpret,compile\x7d, --execution \x7binterpret,compile\x7d",
    "                        Interpret the program directly or compile it to a",
    "                        native executable (default: interpret)",
    "  -o OUTPUT_DIR, --output-dir OUTPUT_DIR",
    "                        Directory receiving the compiled executable; only used",
    "                        in compile mode (default: .)",
    "  --cc CC               C compiler used in compile mode (default: $CC or cc)",
    "  -v, --verbose         Log debugging information to stderr"
  ]

/-- The manual of the server. -/
def server : Manual where
  program := "tapebf-webui"
  usage := [
    "usage: tapebf-webui [-h] [--host HOST] [--port PORT] [--reload]"
  ]
  details := [
    "",
    "Run the tapebf HTTP API server",
    "",
    "options:",
    "  -h, --help   show this help message and exit",
    "  --host HOST  Bind address (default: 127.0.0.1)",
    "  --port PORT  Port to listen on (default: 8000)",
    "  --reload     Restart the server when source files change (development only)"
  ]

end Manual

end Brainfuck.CommandLine
