import Brainfuck.Proofs.Escapes
import Brainfuck.Proofs.Execution.Inputs
import Brainfuck.Proofs.Execution.Source
import Brainfuck.Proofs.Text.Newline
import Brainfuck.Proofs.Text.Utf8

/-! Interpreting a file from the command line, beside running its text: the same bytes, the same failures,
and input that is asked for by input instructions only. -/
namespace Brainfuck.CommandLine

variable {w : World} {argv : List String} {set : Settings} {n : Int} {file : String}
  {input : List UInt8} {p : Program} {i : Interpreter} {done : Run} {r : Report}

/-- A file that holds a text is read as that text with its line ends unified. -/
theorem decodeSource_utf8 (source s : String) :
    decodeSource source (.ok (Text.utf8 s)) = .ok (Text.unified s) := by
  simp only [decodeSource, Text.decodeUtf8_utf8]
  rfl

/-- A command line to interpret a file that holds a text, without a log, on input held in memory and an
output that never fails. -/
structure Plain (w : World) (argv : List String) (set : Settings) (n : Int) (file : String)
    (input : List UInt8) : Prop where
  interprets : Interprets argv set n
  quiet : set.verbose = false
  file : w.read set.source = .ok (Text.utf8 file)
  input : w.input = input.map fun b => .bytes [b]
  output : w.output = .faultless

/-- The command line has ended after some number of rounds. -/
def Ends (w : World) (argv : List String) (r : Report) : Prop :=
  ∃ rounds, run rounds w argv = r ∧ r.exit ≠ .unfinished

/-- What is reported of a run: what it has written and read, and its failure if it is one of the program. -/
def reportOf (done : Run) : Report where
  exit :=
    match done.ending with
    | .finished => .status 0
    | .failed e => if e.isFailure then .status 1 else .escaped (.run e)
    | .unfinished => .unfinished
  stdout := done.streams.written.toList
  stderr :=
    match done.ending with
    | .failed e => if e.isFailure then "Runtime error: " ++ e.message ++ "\n" else ""
    | _ => ""
  invocations := []
  reads := done.streams.reads

theorem logText_debug {records : List Log.Record} (h : ∀ r ∈ records, r.level = .debug) :
    logText false records = "" := by
  have hnone : (records.filter fun r => false || r.level != .debug) = [] := by
    rw [List.filter_eq_nil_iff]
    intro r hr
    simp [h r hr]
  rw [logText, hnone]
  rfl

theorem logText_planned (text : String) (p q : Program) :
    logText false (Log.parsed text p :: Log.optimized p q) = "" := by
  apply logText_debug
  intro r hr
  rcases List.mem_cons.mp hr with rfl | hr
  · rfl
  · unfold Log.optimized at hr
    split at hr
    · cases hr
    · rw [List.mem_singleton.mp hr]

/-- The last flush is no read and writes nothing. -/
theorem flush_faultless {s : Streams} (h : s.output = .faultless) :
    ∃ s', Streams.flush s = .ok () s' ∧ s'.written = s.written ∧ s'.reads = s.reads := by
  rw [Streams.flush, h]
  exact ⟨_, rfl, rfl, by simp [Streams.reads]⟩

theorem conclude_eq_reportOf (hquiet : set.verbose = false)
    (houtput : done.streams.output = .faultless) : conclude set done "" = reportOf done := by
  unfold conclude reportOf
  cases hend : done.ending with
  | unfinished => rfl
  | failed e =>
    dsimp only
    split <;> simp
  | finished =>
    obtain ⟨s', hflush, hwritten, hreads⟩ := flush_faultless houtput
    have hlog : logText set.verbose [finished done.interpreter.tape] = "" := by
      rw [hquiet]
      exact logText_debug fun r hr => by rw [List.mem_singleton.mp hr]; rfl
    simp only [hflush, hlog, hwritten, hreads]
    rfl

theorem text_of_plain (h : Plain w argv set n file input) :
    decodeSource set.source (w.read set.source) = .ok (Text.unified file) := by
  rw [h.file, decodeSource_utf8]

/-- What is interpreted is reported as it is run. -/
theorem run_eq_reportOf (h : Plain w argv set n file input)
    (hp : Program.parse (Text.unified file) = .ok p)
    (hc : Interpreter.create w.room n none = .ok i) (rounds : Nat) :
    run rounds w argv = reportOf (i.run rounds p.optimize (.ofBytes input)) := by
  have hbudget := (Interpreter.create_ok hc).budget
  obtain ⟨houtput, -⟩ := Interpreter.reads_run (s := .ofBytes input) hbudget p.optimize rfl rounds
  rw [run_of_made h.interprets (text_of_plain h) hp hc, h.input, h.output, h.quiet, logText_planned]
  exact conclude_eq_reportOf h.quiet houtput

theorem exit_reportOf : (reportOf done).exit = .unfinished ↔ done.ending = .unfinished := by
  unfold reportOf
  dsimp only
  split
  next hend => simp [hend]
  next e hend => split <;> simp [hend]
  next hend => simp [hend]

/-- The command line ends with what is reported of the run, once that has ended. -/
theorem ends_iff (h : Plain w argv set n file input)
    (hp : Program.parse (Text.unified file) = .ok p)
    (hc : Interpreter.create w.room n none = .ok i)
    (hends : i.Ends p.optimize (.ofBytes input) done) : Ends w argv r ↔ r = reportOf done := by
  unfold Ends
  simp only [run_eq_reportOf h hp hc]
  constructor
  · rintro ⟨rounds, rfl, hexit⟩
    have hends' : i.Ends p.optimize (.ofBytes input) (i.run rounds p.optimize (.ofBytes input)) :=
      ⟨rounds, rfl, mt exit_reportOf.mpr hexit⟩
    rw [Interpreter.ends_unique hends hends']
  · rintro rfl
    obtain ⟨rounds, rfl, hended⟩ := hends
    exact ⟨rounds, rfl, mt exit_reportOf.mp hended⟩

theorem isFailure_ne_size {e : RunError} (h : e.isFailure = true) (e' : SizeError) :
    (Except.error (.run e) : Except SourceError (List UInt8)) ≠ .error (.run (.size e')) := by
  rintro ⟨⟩
  cases h

open Classical in
/-- Interpreting a file reports what running its text gives. A text that is no program is reported before
anything is read. Bytes that the run gives are what is written, with status zero and no message; a failure
of the program is reported after the bytes written until then; and there is no end if the run has none. At
any time input has been asked for as often as the run has come to an input instruction. -/
theorem interpret_reports_source (h : Plain w argv set n file input) :
    (∀ e, Program.parse (Text.unified file) = .error e → ∀ rounds,
      run rounds w argv = ⟨.status 1, [], "Parse error: " ++ e.message ++ "\n", [], 0⟩) ∧
    (∀ d, SourceEndsWithin none w.room (Text.unified file) input n true (.ok d) →
      ∃ reads, ∀ r, Ends w argv r ↔ r = ⟨.status 0, d, "", [], reads⟩) ∧
    (∀ e, e.isFailure = true →
      SourceEndsWithin none w.room (Text.unified file) input n true (.error (.run e)) →
      ∃ p i q, Program.parse (Text.unified file) = .ok p ∧
        Interpreter.create w.room n none = .ok i ∧ i.Ends p.optimize (.ofBytes input) q ∧
        q.ending = .failed e ∧
        ∀ r, Ends w argv r ↔ r = ⟨.status 1, q.streams.written.toList,
          "Runtime error: " ++ e.message ++ "\n", [], q.streams.reads⟩) ∧
    ((∀ x, ¬ SourceEndsWithin none w.room (Text.unified file) input n true x) →
      ∀ rounds, (run rounds w argv).exit = .unfinished) ∧
    ∀ p i, Program.parse (Text.unified file) = .ok p → Interpreter.create w.room n none = .ok i →
      ∀ rounds, (run rounds w argv).reads =
        Nat.count (fun j => i.Next p.optimize (.ofBytes input) j .input) rounds := by
  refine ⟨?unparsed, ?finished, ?failed, ?endless, ?reads⟩
  case unparsed =>
    intro e he rounds
    exact run_of_unparsed h.interprets.read (text_of_plain h) he
  case finished =>
    intro d hd
    obtain ⟨p, i, q, hp, hc, hends, hbytes⟩ :=
      Interpreter.exists_run_of_source hd (fun _ => by simp) (fun _ => by simp)
    obtain ⟨hending, hwritten⟩ := Run.bytes_eq_ok.mp hbytes
    refine ⟨q.streams.reads, fun r => ?_⟩
    rw [ends_iff h hp hc hends, reportOf, hending, hwritten]
  case failed =>
    intro e hfailure he
    obtain ⟨p, i, q, hp, hc, hends, hbytes⟩ :=
      Interpreter.exists_run_of_source he (fun _ => by simp) (isFailure_ne_size hfailure)
    have hending := Run.bytes_eq_failed.mp hbytes
    refine ⟨p, i, q, hp, hc, hends, hending, fun r => ?_⟩
    simp only [ends_iff h hp hc hends, reportOf, hending, hfailure, if_true]
  case endless =>
    intro hnone rounds
    cases hp : Program.parse (Text.unified file) with
    | error e =>
      exact (hnone _ ((Interpreter.sourceEndsWithin_of_parse_error hp).mpr rfl)).elim
    | ok p =>
      cases hc : Interpreter.create w.room n none with
      | error e =>
        exact (hnone _ ((Interpreter.sourceEndsWithin_of_create_error hp hc).mpr rfl)).elim
      | ok i =>
        rw [run_eq_reportOf h hp hc, exit_reportOf]
        by_contra hended
        exact hnone _ ((Interpreter.sourceEndsWithin_of_create_ok hp hc).mpr
          ⟨_, ⟨rounds, rfl, hended⟩, rfl⟩)
  case reads =>
    intro p i hp hc rounds
    have hbudget := (Interpreter.create_ok hc).budget
    obtain ⟨-, hreads⟩ := Interpreter.reads_run (s := .ofBytes input) hbudget p.optimize rfl rounds
    rw [run_eq_reportOf h hp hc]
    exact hreads.trans (Nat.zero_add _)

/-- A file with a line end of two characters and a letter of two bytes, and two bytes of input. -/
def underflowing : World :=
  { emptyFile with
    room := Tape.usualRoom
    read := fun _ => .ok (Text.utf8 "é\r\n,+.<")
    input := [.bytes [0x41], .bytes [0x42]] }

def onOneCell : Settings := { Settings.start with source := "p.bf", memory := some 1 }

theorem plain_underflowing :
    Plain underflowing ["-m", "1", "p.bf"] onOneCell 1 "é\r\n,+.<" [0x41, 0x42] where
  interprets := ⟨rfl, rfl, rfl⟩
  quiet := rfl
  file := rfl
  input := rfl
  output := rfl

/-- One byte is read and written before the failure, and the other is left. -/
theorem interpret_reports_source_underflow :
    Plain underflowing ["-m", "1", "p.bf"] onOneCell 1 "é\r\n,+.<" [0x41, 0x42] ∧
    ∀ r, Ends underflowing ["-m", "1", "p.bf"] r ↔ r = ⟨.status 1, [0x42],
      "Runtime error: Cannot move 1 cell(s) left from cell 0: negative memory addresses are invalid\n",
      [], 1⟩ := by
  obtain ⟨-, -, hfailed, -⟩ := interpret_reports_source plain_underflowing
  have hsource : SourceEndsWithin none Tape.usualRoom (Text.unified "é\r\n,+.<") [0x41, 0x42] 1 true
      (.error (.run (.tape (.negativeAddress 1 0)))) := ⟨5, by decide +kernel, by simp⟩
  obtain ⟨-, -, q, -, -, -, -, hends⟩ := hfailed _ rfl hsource
  refine ⟨plain_underflowing, fun r => ?_⟩
  have hconcrete : Ends underflowing ["-m", "1", "p.bf"] ⟨.status 1, [0x42],
      "Runtime error: Cannot move 1 cell(s) left from cell 0: negative memory addresses are invalid\n",
      [], 1⟩ := ⟨5, rfl, by simp⟩
  rw [hends, (hends _).mp hconcrete]

end Brainfuck.CommandLine
