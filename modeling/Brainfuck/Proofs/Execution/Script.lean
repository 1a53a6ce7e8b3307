import Brainfuck.Machine

/-! What the script of some streams answers to a call, told by the calls made before it. -/
namespace Brainfuck

/-- What a run calls the fault of such a call, if the system raised it. -/
def StreamCall.wrap : StreamCall → Fault → RunError
  | .write => .cannotWrite
  | .flush => .cannotFlush
  | .read => .cannotRead

namespace Streams

/-- What comes of a call: it is done, it gives a byte or the end of the stream, or it raises a fault. -/
inductive Answer
  | done
  | byte (v : UInt8)
  | ended
  | fault (f : Fault)
  deriving DecidableEq

/-- The error that an answer makes of a run, if it makes one. -/
def Answer.error (c : StreamCall) : Answer → Option RunError
  | .done => none
  | .byte _ => none
  | .ended => some .endOfInput
  | .fault f => some (.ofFault c.wrap f)

/-- A fault goes by the number of earlier calls of its kind. A read has the first byte of the supply whose
number it is, and the end of the stream where there is no such byte. -/
def answer (s : Streams) (earlier : List StreamCall) : StreamCall → Answer
  | .write => (s.output.writeFault (earlier.count .write)).elim .done .fault
  | .flush => (s.output.flushFault (earlier.count .flush)).elim .done .fault
  | .read =>
    match s.supplies[earlier.count .read]? with
    | some (.bytes data) => data.head?.elim .ended .byte
    | some (.fault f) => .fault f
    | none => .ended

/-- The streams after one more call. -/
def called (t : Streams) : StreamCall → Streams
  | .write => { t with calls := t.calls.push .write, writes := t.writes + 1 }
  | .flush => { t with calls := t.calls.push .flush, flushes := t.flushes + 1 }
  | .read => { t with supplies := t.supplies.tail, calls := t.calls.push .read }

def keep (t : Streams) (v : UInt8) : Streams := { t with written := t.written.push v }

/-- What a write comes to by its answer; its byte is kept if it does not fail. -/
def Answer.toWrite (v : UInt8) : Answer → Streams → EStateM.Result Fault Streams Unit
  | .fault f, t => .error f t
  | _, t => .ok () (t.keep v)

def Answer.toFlush : Answer → Streams → EStateM.Result Fault Streams Unit
  | .fault f, t => .error f t
  | _, t => .ok () t

def Answer.toRead : Answer → Streams → EStateM.Result Fault Streams (Option UInt8)
  | .fault f, t => .error f t
  | .byte v, t => .ok (some v) t
  | _, t => .ok none t

/-- Streams as they are made. -/
structure Unused (s : Streams) : Prop where
  written : s.written = #[]
  calls : s.calls = #[]
  writes : s.writes = 0
  flushes : s.flushes = 0

/-- The streams that these have become by the calls they record, whatever the answers. -/
structure Follows (s t : Streams) : Prop where
  output : t.output = s.output
  supplies : t.supplies = s.supplies.drop (t.calls.toList.count .read)
  writes : t.writes = t.calls.toList.count .write
  flushes : t.flushes = t.calls.toList.count .flush

variable {s t : Streams} {c : StreamCall} {v : UInt8}

@[simp] theorem calls_called (t : Streams) (c : StreamCall) :
    (t.called c).calls.toList = t.calls.toList ++ [c] := by
  cases c <;> exact Array.toList_push

@[simp] theorem written_called (t : Streams) (c : StreamCall) : (t.called c).written = t.written := by
  cases c <;> rfl

@[simp] theorem output_called (t : Streams) (c : StreamCall) : (t.called c).output = t.output := by
  cases c <;> rfl

@[simp] theorem calls_keep (t : Streams) (v : UInt8) : (t.keep v).calls = t.calls := rfl

@[simp] theorem written_keep (t : Streams) (v : UInt8) :
    (t.keep v).written.toList = t.written.toList ++ [v] :=
  Array.toList_push

theorem unused_start (supplies : List Supply) (output : OutputScript) :
    (start supplies output).Unused :=
  ⟨rfl, rfl, rfl, rfl⟩

theorem follows_of_unused (h : s.Unused) : Follows s s := by
  refine ⟨rfl, ?_, ?_, ?_⟩
  · rw [h.calls]
    rfl
  · rw [h.calls, h.writes]
    rfl
  · rw [h.calls, h.flushes]
    rfl

theorem follows_called (h : Follows s t) (c : StreamCall) : Follows s (t.called c) := by
  have hsupplies := h.supplies
  have hwrites := h.writes
  have hflushes := h.flushes
  refine ⟨(output_called t c).trans h.output, ?_, ?_, ?_⟩
  all_goals
    rw [calls_called, List.count_append]
    cases c
    all_goals simp_all [called]

theorem follows_keep (h : Follows s t) (v : UInt8) : Follows s (t.keep v) :=
  ⟨h.output, h.supplies, h.writes, h.flushes⟩

theorem write_eq (h : Follows s t) (v : UInt8) :
    write v t = (s.answer t.calls.toList .write).toWrite v (t.called .write) := by
  rw [answer, ← h.writes, ← h.output]
  obtain ⟨output, supplies, written, calls, writes, flushes⟩ := t
  simp only [write]
  cases output.writeFault writes <;> rfl

theorem flush_eq (h : Follows s t) (hable : s.output.canFlush = true) :
    flush t = (s.answer t.calls.toList .flush).toFlush (t.called .flush) := by
  rw [← h.output] at hable
  rw [answer, ← h.flushes, ← h.output]
  obtain ⟨output, supplies, written, calls, writes, flushes⟩ := t
  dsimp only at hable
  simp only [flush, hable, if_true]
  cases output.flushFault flushes <;> rfl

theorem flush_unable (h : Follows s t) (hunable : s.output.canFlush = false) :
    flush t = .ok () t := by
  rw [← h.output] at hunable
  obtain ⟨output, supplies, written, calls, writes, flushes⟩ := t
  dsimp only at hunable
  simp only [flush, hunable, Bool.false_eq_true, if_false]

theorem read_eq (h : Follows s t) :
    read t = (s.answer t.calls.toList .read).toRead (t.called .read) := by
  have hnext : s.supplies[t.calls.toList.count .read]? = t.supplies.head? := by
    rw [h.supplies, List.head?_drop]
  rw [answer, hnext]
  obtain ⟨output, supplies, written, calls, writes, flushes⟩ := t
  obtain _ | ⟨(_ | _) | f, rest⟩ := supplies
  all_goals rfl

end Streams

end Brainfuck
