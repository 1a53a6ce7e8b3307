/-! Faults that streams, files and tools raise. -/
namespace Brainfuck

/-- System faults, of which a broken pipe is one, come from the operating system; a value fault does
not. -/
inductive FaultKind
  | system
  | brokenPipe
  | value
  deriving DecidableEq

structure Fault where
  kind : FaultKind
  number : Option Int
  text : String
  deriving DecidableEq

namespace Fault

def isSystem (f : Fault) : Bool := f.kind != .value

end Fault

end Brainfuck
