import Brainfuck.Fault

/-! Scripted streams. The script says what each call will meet; the rest records the calls made. -/
namespace Brainfuck

/-- What one read returns: bytes, of which the first is used, or none at the end of the stream. -/
inductive Supply
  | bytes (data : List UInt8)
  | fault (fault : Fault)

inductive StreamCall
  | write
  | flush
  | read
  deriving DecidableEq

/-- The faults that the output raises, by the number of earlier calls of the same kind. -/
structure OutputScript where
  writeFault : Nat → Option Fault
  flushFault : Nat → Option Fault
  canFlush : Bool

/-- An output that never fails. -/
def OutputScript.faultless : OutputScript := ⟨fun _ => none, fun _ => none, true⟩

/-- Reads past the last supply meet the end of the stream. -/
structure Streams where
  output : OutputScript
  supplies : List Supply
  written : Array UInt8
  calls : Array StreamCall
  writes : Nat
  flushes : Nat

namespace Streams

def start (supplies : List Supply) (output : OutputScript) : Streams :=
  ⟨output, supplies, #[], #[], 0, 0⟩

/-- Input held in memory, one byte for each read. -/
def ofBytes (input : List UInt8) : Streams :=
  start (input.map fun b => .bytes [b]) .faultless

/-- A byte whose write fails is not kept. -/
def write (b : UInt8) : EStateM Fault Streams Unit := fun s =>
  match s with
  | ⟨output, supplies, written, calls, writes, flushes⟩ =>
    match output.writeFault writes with
    | some f => .error f ⟨output, supplies, written, calls.push .write, writes + 1, flushes⟩
    | none => .ok () ⟨output, supplies, written.push b, calls.push .write, writes + 1, flushes⟩

/-- An output without a flush is left alone. -/
def flush : EStateM Fault Streams Unit := fun s =>
  match s with
  | ⟨output, supplies, written, calls, writes, flushes⟩ =>
    if output.canFlush then
      match output.flushFault flushes with
      | some f => .error f ⟨output, supplies, written, calls.push .flush, writes, flushes + 1⟩
      | none => .ok () ⟨output, supplies, written, calls.push .flush, writes, flushes + 1⟩
    else .ok () ⟨output, supplies, written, calls, writes, flushes⟩

/-- The next byte, or none at the end of the stream. -/
def read : EStateM Fault Streams (Option UInt8) := fun s =>
  match s with
  | ⟨output, supplies, written, calls, writes, flushes⟩ =>
    match supplies with
    | [] => .ok none ⟨output, [], written, calls.push .read, writes, flushes⟩
    | .bytes data :: rest =>
      .ok data.head? ⟨output, rest, written, calls.push .read, writes, flushes⟩
    | .fault f :: rest => .error f ⟨output, rest, written, calls.push .read, writes, flushes⟩

/-- The number of calls that asked for input. -/
def reads (s : Streams) : Nat := s.calls.count .read

end Streams

end Brainfuck
