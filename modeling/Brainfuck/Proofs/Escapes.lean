import Brainfuck.CommandLine
import Brainfuck.Proofs.CommandLine.Settings
import Brainfuck.Proofs.Execution.Failures
import Brainfuck.Proofs.Http.Run
import Brainfuck.Proofs.Optimize.Units
import Brainfuck.Proofs.Parse.Comments

/-! What escapes the command line and the requests to run a program: want of room for cells, and nothing
else. -/
namespace Brainfuck

/-- There is no room for a tape of this size, or in the course of the run none for a further cell. -/
inductive RunsShort (room : Nat) (size : Int) (budget : Option Int) (p : Program) (s : Streams) :
    RunError → Prop
  | noTape {e} (none : Interpreter.create room size budget = .error e) :
    RunsShort room size budget p s (.size e)
  | noCell {i r e} (made : Interpreter.create room size budget = .ok i) (run : i.Ends p s r)
    (failed : r.ending = .failed e) (short : e.IsShortage) : RunsShort room size budget p s e

variable {room : Nat} {size : Int} {budget : Option Int} {p : Program} {s : Streams} {e : RunError}
  {source : String}

theorem isKnown_optimize_of_parse (h : Program.parse source = .ok p) : p.optimize.isKnown = true := by
  rw [Program.isKnown_optimize]
  exact Program.isKnown_of_parse h

namespace Interpreter

variable {i : Interpreter} {n : Nat}

theorem create_error {e : SizeError} (h : create room size budget = .error e) :
    Tape.create room size = .error e := by
  unfold create at h
  cases hc : Tape.create room size with
  | error e' =>
    rw [hc] at h
    cases h
    rfl
  | ok t =>
    rw [hc] at h
    cases h

/-- A run is unfinished or has finished, it has failed as programs fail, or it is short of room. -/
theorem run_cases (hc : create room size budget = .ok i) (hroom : room ≤ maxIndex)
    (hp : p.isKnown = true) (hs : s.Systemic) (n : Nat) :
    ((∀ e, (i.run n p s).ending ≠ .failed e) ∧ (i.run n p s).streams.Systemic) ∨
    (∃ e, (i.run n p s).ending = .failed e ∧ e.isFailure = true) ∨
    ∃ e, (i.run n p s).ending = .failed e ∧ e.IsShortage := by
  have hi := create_ok hc
  have hroom' : i.room ≤ maxIndex := Nat.le_trans (Nat.le_of_eq hi.room) hroom
  rcases run_orderly hi.tape hroom' hp hs n with ⟨e, he, hfailure | hshort⟩ | hrun
  · exact Or.inr (Or.inl ⟨e, he, hfailure⟩)
  · exact Or.inr (Or.inr ⟨e, he, hshort⟩)
  · exact Or.inl hrun

end Interpreter

namespace RunsShort

/-- A tape of at least one cell that cannot be made is one there is no room for. -/
theorem isShortage (hsize : 1 ≤ size) (h : RunsShort room size budget p s e) : e.IsShortage := by
  cases h with
  | noTape none =>
    rcases Tape.create_error (Interpreter.create_error none) hsize with rfl | rfl
    · trivial
    · trivial
  | noCell _ _ _ short => exact short

end RunsShort

namespace Http

variable {r : RunRequest} {fields : List (List CodePoint × Json)} {bytes bytes' : List UInt8}

theorem both_eq_ok {α β : Type} {x : Checked α} {y : Checked β} {a : α} {b : β}
    (h : x.both y = .ok (a, b)) : x = .ok a ∧ y = .ok b := by
  cases x <;> cases y <;> cases h
  exact ⟨rfl, rfl⟩

theorem one_le_of_positive {j : Json} {n : Int} (h : positive j = .ok n) : 1 ≤ n := by
  unfold positive at h
  cases hj : integer j with
  | error issue =>
    rw [hj] at h
    cases h
  | ok k =>
    rw [hj] at h
    have hcheck : (if k < 1 then .error .tooSmall else .ok k : Except Issue Int) = .ok n := h
    split at hcheck
    · cases hcheck
    · cases hcheck
      omega

theorem one_le_of_optional {name : String} {d n : Int} (hd : 1 ≤ d)
    (h : optional fields name d positive = .ok n) : 1 ≤ n := by
  unfold optional at h
  split at h
  next j _ =>
    unfold given at h
    cases hj : positive j with
    | error issue =>
      rw [hj] at h
      cases h
    | ok k =>
      rw [hj] at h
      cases h
      exact one_le_of_positive hj
  next =>
    cases h
    exact hd

namespace RunRequest

/-- A request is accepted only if each of its fields is. -/
theorem check_ok (h : check fields = .ok r) :
    required fields "code" text = .ok r.code ∧ optional fields "input" "" text = .ok r.input ∧
    optional fields "memory_size" Tape.defaultSize positive = .ok r.memorySize ∧
    optional fields "max_steps" defaultMaxSteps positive = .ok r.maxSteps := by
  unfold check at h
  cases hall : (required fields "code" text).both ((optional fields "input" "" text).both
      ((optional fields "memory_size" Tape.defaultSize positive).both
        (optional fields "max_steps" defaultMaxSteps positive))) with
  | error complaints =>
    rw [hall] at h
    cases h
  | ok values =>
    obtain ⟨code, input, memorySize, maxSteps⟩ := values
    rw [hall] at h
    cases h
    obtain ⟨hcode, hrest⟩ := both_eq_ok hall
    obtain ⟨hinput, hnumbers⟩ := both_eq_ok hrest
    obtain ⟨hsize, hsteps⟩ := both_eq_ok hnumbers
    exact ⟨hcode, hinput, hsize, hsteps⟩

theorem one_le_of_check (h : check fields = .ok r) : 1 ≤ r.memorySize ∧ 1 ≤ r.maxSteps := by
  obtain ⟨-, -, hsize, hsteps⟩ := check_ok h
  exact ⟨one_le_of_optional (by decide) hsize, one_le_of_optional (by decide) hsteps⟩

theorem spells_unique {t : String} (h : Spells t bytes) (h' : Spells t bytes') : bytes = bytes' :=
  (List.map_inj_right fun _ _ => UInt8.toNat_inj.mp).mp (h.symm.trans h')

theorem inputBytes?_of_spells (h : Spells r.input bytes) : inputBytes? r.input = some bytes := by
  have hsmall : ∀ c ∈ r.input.toList, c.toNat ≤ 0xFF := by
    intro c hc
    have hmem : c.toNat ∈ bytes.map UInt8.toNat := h ▸ List.mem_map_of_mem hc
    obtain ⟨b, -, hb⟩ := List.mem_map.mp hmem
    have hlt := b.toNat_lt
    omega
  obtain ⟨bytes', hbytes, hspells⟩ := exists_inputBytes? hsmall
  rw [spells_unique h hspells, hbytes]

/-- What is answered to how a run stands after all rounds that its budget allows. -/
def reply (done : Run) : Except Escape Response :=
  match done.ending with
  | .finished => .ok (result done)
  | .failed e => if e.isFailure then .ok (refusal 409 e.message) else .error (.run e)
  | .unfinished => .ok (refusal 409 RunError.stepLimit.message)

theorem answer_of_made {i : Interpreter} (hp : Program.parse r.code = .ok p)
    (hspells : Spells r.input bytes)
    (hc : Interpreter.create room r.memorySize (some r.maxSteps) = .ok i) :
    r.answer room = reply (i.run (r.maxSteps.toNat + 1) p.optimize (.ofBytes bytes)) := by
  simp only [answer, hp, inputBytes?_of_spells hspells, hc]
  rfl

theorem reply_of_failure {done : Run} (he : done.ending = .failed e) (h : e.isFailure = true) :
    reply done = .ok (refusal 409 e.message) := by
  rw [reply, he]
  exact if_pos h

theorem reply_of_shortage {done : Run} (he : done.ending = .failed e) (h : e.IsShortage) :
    reply done = .error (.run e) := by
  rw [reply, he]
  exact if_neg (by simp [RunError.isFailure_of_isShortage h])

theorem reply_of_no_failure {done : Run} (h : ∀ e, done.ending ≠ .failed e) :
    ∃ answer, reply done = .ok answer ∧ answer.status ∈ [200, 409, 422] := by
  unfold reply
  split
  next => exact ⟨_, rfl, by simp [result]⟩
  next e he => exact absurd he (h e)
  next => exact ⟨_, rfl, by simp [refusal, detail]⟩

/-- A request that is understood is answered, or it is short of room. -/
theorem answer_cases (r : RunRequest) (hroom : room ≤ maxIndex) :
    (∃ answer, r.answer room = .ok answer ∧ answer.status ∈ [200, 409, 422]) ∨
    ∃ p bytes e, r.answer room = .error (.run e) ∧ Program.parse r.code = .ok p ∧
      Spells r.input bytes ∧
      RunsShort room r.memorySize (some r.maxSteps) p.optimize (.ofBytes bytes) e := by
  cases hp : Program.parse r.code with
  | error e => exact Or.inl ⟨refusal 422 e.message, by rw [answer, hp], by simp [refusal, detail]⟩
  | ok p =>
    by_cases hinput : ∃ c ∈ r.input.toList, 0xFF < c.toNat
    · exact Or.inl ⟨_, by rw [answer, hp, inputBytes?_eq_none hinput], by simp [refusal, detail]⟩
    · have hsmall : ∀ c ∈ r.input.toList, c.toNat ≤ 0xFF := by
        intro c hc
        by_contra hlt
        exact hinput ⟨c, hc, by omega⟩
      obtain ⟨bytes, hbytes, hspells⟩ := exists_inputBytes? hsmall
      cases hc : Interpreter.create room r.memorySize (some r.maxSteps) with
      | error e =>
        have hanswer : r.answer room = .error (.run (.size e)) := by
          simp only [answer, hp, hbytes, hc]
        exact Or.inr ⟨p, bytes, _, hanswer, rfl, hspells, .noTape hc⟩
      | ok i =>
        have hanswer := answer_of_made hp hspells hc
        rcases Interpreter.run_cases hc hroom (isKnown_optimize_of_parse hp) (Streams.systemic_ofBytes bytes)
          (r.maxSteps.toNat + 1) with ⟨hrun, -⟩ | ⟨e, he, hfailure⟩ | ⟨e, he, hshort⟩
        · rw [hanswer]
          exact Or.inl (reply_of_no_failure hrun)
        · exact Or.inl ⟨_, hanswer.trans (reply_of_failure he hfailure), by simp [refusal, detail]⟩
        · have hends : i.Ends p.optimize (.ofBytes bytes) _ := ⟨_, rfl, by rw [he]; simp⟩
          exact Or.inr ⟨p, bytes, e, hanswer.trans (reply_of_shortage he hshort), rfl, hspells,
            .noCell hc hends he hshort⟩

/-- Want of room is never answered. -/
theorem answer_of_runsShort (hp : Program.parse r.code = .ok p) (hspells : Spells r.input bytes)
    (h : RunsShort room r.memorySize (some r.maxSteps) p.optimize (.ofBytes bytes) e) :
    r.answer room = .error (.run e) := by
  cases h with
  | noTape none => simp only [answer, hp, inputBytes?_of_spells hspells, none]
  | noCell made run failed short =>
    have hends := Interpreter.ends_run (p := p.optimize) (s := .ofBytes bytes)
      (Interpreter.create_ok made).budget
    obtain rfl := Interpreter.ends_unique run hends
    exact (answer_of_made hp hspells made).trans (reply_of_shortage failed short)

end RunRequest

end Http

namespace CommandLine

variable {w : World} {argv : List String} {set : Settings} {n : Int} {message text log : String}
  {contents : Except ReadError (List UInt8)} {done : Run} {rounds : Nat}

/-- The status tells of a failure, and the last line on the error output says what it was. -/
structure Report.Complains (r : Report) : Prop where
  exit : r.exit = .status 1
  stderr : ∃ log message, r.stderr = log ++ message ++ "\n" ∧ message ≠ ""

theorem append_ne_empty {a b : String} (h : a ≠ "") : a ++ b ≠ "" :=
  fun hab => h (String.append_eq_empty_iff.mp hab).1

theorem complains_failure (h : message ≠ "") : (Report.failure message).Complains :=
  ⟨rfl, "", message, by simp [Report.failure], h⟩

theorem ne_empty_of_undecoded (h : decodeSource source contents = .error message) :
    message ≠ "" := by
  have hreason (reason : String) : unreadable source reason ≠ "" := by
    have hprefix : "Cannot read source file " ≠ "" := by simp
    exact append_ne_empty (append_ne_empty (append_ne_empty hprefix))
  unfold decodeSource at h
  dsimp only at h
  split at h
  · cases h
    exact append_ne_empty (by simp)
  · cases h
    exact hreason _
  · cases h
    exact hreason _
  · cases h
    exact hreason _
  · split at h
    · cases h
    · cases h
      exact hreason _

theorem conclude_of_failure {e : RunError} (he : done.ending = .failed e)
    (h : e.isFailure = true) : (conclude set done log).Complains := by
  have hconclude : conclude set done log = ⟨.status 1, done.streams.written.toList,
      log ++ ("Runtime error: " ++ e.message ++ "\n"), [], done.streams.reads⟩ := by
    simp only [conclude, he, h, if_true]
  rw [hconclude]
  refine ⟨rfl, log, "Runtime error: " ++ e.message, by simp only [String.append_assoc], ?_⟩
  exact append_ne_empty (by simp)

theorem conclude_of_shortage {e : RunError} (he : done.ending = .failed e) (h : e.IsShortage) :
    (conclude set done log).exit = .escaped (.run e) := by
  have hfailure := RunError.isFailure_of_isShortage h
  simp only [conclude, he, hfailure]
  rfl

/-- The last flush can fail too, and is reported like the failure of the program. -/
theorem conclude_of_no_failure (h : ∀ e, done.ending ≠ .failed e) (hs : done.streams.Systemic) :
    (conclude set done log).exit = .unfinished ∨ (conclude set done log).exit = .status 0 ∨
      (conclude set done log).Complains := by
  unfold conclude
  dsimp only
  cases hend : done.ending with
  | unfinished => exact Or.inl rfl
  | failed e => exact absurd hend (h e)
  | finished =>
    have hflush := Streams.flush_orderly hs
    dsimp only
    cases hf : Streams.flush done.streams with
    | ok _ streams => exact Or.inr (Or.inl rfl)
    | error f streams =>
      rw [hf] at hflush
      have hsystem : f.isSystem = true := hflush
      dsimp only
      rw [if_pos hsystem]
      refine Or.inr (Or.inr ⟨rfl, log, "Runtime error: Cannot write to output: " ++ f.text, ?_, ?_⟩)
      · simp only [String.append_assoc]
      · exact append_ne_empty (by simp)

/-- What a command line asks for that is to interpret a program. -/
structure Interprets (argv : List String) (set : Settings) (n : Int) : Prop where
  read : Settings.read argv = .settings set
  mode : set.mode = .interpret
  memory : set.memory = some n

theorem one_le_of_interprets (h : Interprets argv set n) : 1 ≤ n :=
  Settings.memory_pos_of_read h.read n h.memory

theorem run_eq_plan (h : Interprets argv set n) :
    run rounds w argv = (plan w.room set (w.read set.source)).run rounds w := by
  rw [run, h.read]

theorem run_of_unparsed {e : ParseError} (h : Settings.read argv = .settings set)
    (htext : decodeSource set.source (w.read set.source) = .ok text)
    (hp : Program.parse text = .error e) :
    run rounds w argv = .failure ("Parse error: " ++ e.message) := by
  simp only [run, h, plan, htext, hp]
  rfl

theorem run_of_unmade {e : SizeError} (h : Interprets argv set n)
    (htext : decodeSource set.source (w.read set.source) = .ok text)
    (hp : Program.parse text = .ok p) (hc : Interpreter.create w.room n none = .error e) :
    (run rounds w argv).exit = .escaped (.run (.size e)) := by
  simp only [run_eq_plan h, plan, htext, hp, h.mode, h.memory, hc]
  rfl

theorem run_of_made {i : Interpreter} (h : Interprets argv set n)
    (htext : decodeSource set.source (w.read set.source) = .ok text)
    (hp : Program.parse text = .ok p) (hc : Interpreter.create w.room n none = .ok i) :
    run rounds w argv = conclude set (i.run rounds p.optimize (.start w.input w.output))
      (logText set.verbose (Log.parsed text p :: Log.optimized p p.optimize)) := by
  simp only [run_eq_plan h, plan, htext, hp, h.mode, h.memory, hc]
  rfl

/-- Interpreting is not done yet, is done, has failed with a message, or is short of room. -/
theorem interpret_cases (h : Interprets argv set n) (hroom : w.room ≤ maxIndex)
    (hs : (Streams.start w.input w.output).Systemic) (rounds : Nat) :
    (run rounds w argv).exit = .unfinished ∨ (run rounds w argv).exit = .status 0 ∨
    (run rounds w argv).Complains ∨
    ∃ text p e, (run rounds w argv).exit = .escaped (.run e) ∧
      decodeSource set.source (w.read set.source) = .ok text ∧ Program.parse text = .ok p ∧
      RunsShort w.room n none p.optimize (.start w.input w.output) e := by
  cases htext : decodeSource set.source (w.read set.source) with
  | error message =>
    have hrun : run rounds w argv = .failure message := by
      simp only [run_eq_plan h, plan, htext]
      rfl
    rw [hrun]
    exact Or.inr (Or.inr (Or.inl (complains_failure (ne_empty_of_undecoded htext))))
  | ok text =>
    cases hp : Program.parse text with
    | error e =>
      rw [run_of_unparsed h.read htext hp]
      exact Or.inr (Or.inr (Or.inl (complains_failure (append_ne_empty (by simp)))))
    | ok p =>
      cases hc : Interpreter.create w.room n none with
      | error e =>
        exact Or.inr (Or.inr (Or.inr
          ⟨text, p, _, run_of_unmade h htext hp hc, rfl, hp, .noTape hc⟩))
      | ok i =>
        rw [run_of_made h htext hp hc]
        rcases Interpreter.run_cases hc hroom (isKnown_optimize_of_parse hp) hs rounds
          with ⟨hend, hsystemic⟩ | ⟨e, he, hfailure⟩ | ⟨e, he, hshort⟩
        · rcases conclude_of_no_failure hend hsystemic with hunfinished | hzero | hone
          · exact Or.inl hunfinished
          · exact Or.inr (Or.inl hzero)
          · exact Or.inr (Or.inr (Or.inl hone))
        · exact Or.inr (Or.inr (Or.inl (conclude_of_failure he hfailure)))
        · have hends : i.Ends p.optimize (.start w.input w.output) _ :=
            ⟨rounds, rfl, by rw [he]; simp⟩
          exact Or.inr (Or.inr (Or.inr
            ⟨text, p, e, conclude_of_shortage he hshort, rfl, hp, .noCell hc hends he hshort⟩))

/-- Want of room is never reported. -/
theorem run_of_runsShort {e : RunError} (h : Interprets argv set n)
    (htext : decodeSource set.source (w.read set.source) = .ok text)
    (hp : Program.parse text = .ok p)
    (hshort : RunsShort w.room n none p.optimize (.start w.input w.output) e) :
    ∃ rounds, (run rounds w argv).exit = .escaped (.run e) := by
  cases hshort with
  | noTape none => exact ⟨0, run_of_unmade h htext hp none⟩
  | noCell made run failed short =>
    obtain ⟨rounds, rfl, -⟩ := run
    refine ⟨rounds, ?_⟩
    rw [run_of_made h htext hp made]
    exact conclude_of_shortage failed short

end CommandLine

open CommandLine Http

/-- A request to run a program is answered with 200, 409 or 422, and interpreting a file ends with status 0
or with status 1 and a message, whatever the program, its input and the size asked for: all that ever
escapes is want of room, for the tape that is asked for or for a cell that the cursor goes to, and that
always does. -/
theorem only_shortage_escapes {room : Nat} (hroom : room ≤ maxIndex) :
    (∀ r : RunRequest, 1 ≤ r.memorySize → 1 ≤ r.maxSteps →
      ((∃ answer, r.answer room = .ok answer ∧ answer.status ∈ [200, 409, 422]) ∨
        ∃ e, r.answer room = .error (.run e)) ∧
      ∀ e, r.answer room = .error (.run e) ↔
        ∃ p bytes, Program.parse r.code = .ok p ∧ Spells r.input bytes ∧
          RunsShort room r.memorySize (some r.maxSteps) p.optimize (.ofBytes bytes) e) ∧
    (∀ body fields r, Json.read body = .ok (.object fields) → RunRequest.check fields = .ok r →
      1 ≤ r.memorySize ∧ 1 ≤ r.maxSteps ∧
      respond room ⟨"POST", "/api/run", body⟩ = r.answer room) ∧
    (∀ w argv set n, w.room = room → Interprets argv set n →
      (Streams.start w.input w.output).Systemic → 1 ≤ n ∧
      (∀ rounds, (run rounds w argv).exit = .unfinished ∨ (run rounds w argv).exit = .status 0 ∨
        (run rounds w argv).Complains ∨ ∃ e, (run rounds w argv).exit = .escaped (.run e)) ∧
      ∀ e, (∃ rounds, (run rounds w argv).exit = .escaped (.run e)) ↔
        ∃ text p, decodeSource set.source (w.read set.source) = .ok text ∧
          Program.parse text = .ok p ∧
          RunsShort w.room n none p.optimize (.start w.input w.output) e) ∧
    ∀ size budget p s e, 1 ≤ size → RunsShort room size budget p s e → e.IsShortage := by
  refine ⟨?_, ?_, ?_, fun _ _ _ _ _ => RunsShort.isShortage⟩
  · intro r _ _
    refine ⟨?_, fun e => ⟨fun he => ?_, ?_⟩⟩
    · rcases RunRequest.answer_cases r hroom with hanswer | ⟨_, _, e, he, -⟩
      · exact Or.inl hanswer
      · exact Or.inr ⟨e, he⟩
    · rcases RunRequest.answer_cases r hroom with ⟨answer, hanswer, -⟩ | ⟨p, bytes, e', he', hp⟩
      · rw [hanswer] at he
        cases he
      · rw [he'] at he
        cases he
        exact ⟨p, bytes, hp⟩
    · rintro ⟨p, bytes, hp, hspells, hshort⟩
      exact RunRequest.answer_of_runsShort hp hspells hshort
  · intro body fields r hread hcheck
    obtain ⟨hsize, hsteps⟩ := RunRequest.one_le_of_check hcheck
    exact ⟨hsize, hsteps, respond_run room hread hcheck⟩
  · rintro w argv set n rfl h hs
    refine ⟨one_le_of_interprets h, fun rounds => ?_, fun e => ⟨?_, ?_⟩⟩
    · rcases interpret_cases h hroom hs rounds with hexit | hexit | hexit | ⟨_, _, e, hexit, -⟩
      · exact Or.inl hexit
      · exact Or.inr (Or.inl hexit)
      · exact Or.inr (Or.inr (Or.inl hexit))
      · exact Or.inr (Or.inr (Or.inr ⟨e, hexit⟩))
    · rintro ⟨rounds, he⟩
      rcases interpret_cases h hroom hs rounds with hexit | hexit | hexit | ⟨text, p, e', hexit, hp⟩
      · rw [hexit] at he
        cases he
      · rw [hexit] at he
        cases he
      · rw [hexit.exit] at he
        cases he
      · rw [hexit] at he
        cases he
        exact ⟨text, p, hp⟩
    · rintro ⟨text, p, htext, hp, hshort⟩
      exact run_of_runsShort h htext hp hshort

/-- A request for one cell more than there are indices. -/
def immense : String := "\x7b\"code\":\"\",\"memory_size\":9223372036854775808\x7d"

/-- A file that holds no program, to be interpreted on as many cells, with no input. -/
def hugeCommand : List String := ["-m", "9223372036854775808", "p.bf"]

def emptyFile : World where
  room := maxIndex
  read _ := .ok []
  input := []
  output := .faultless
  environment := none
  tool := ⟨.ok 0, false⟩
  temporary := .ofString "/tmp/p.c"

theorem read_immense : ∃ fields, Json.read immense = .ok (.object fields) ∧
    RunRequest.check fields = .ok ⟨"", "", 0x8000_0000_0000_0000, defaultMaxSteps⟩ := by
  have hcodes : Json.codePoints? immense = some (immense.toList.map .char) := by
    decide +kernel
  refine ⟨[(CodePoint.ofString "code", .ofString ""),
    (CodePoint.ofString "memory_size", .integer 0x8000_0000_0000_0000)], ?_, rfl⟩
  rw [Json.read, hcodes]
  rfl

theorem interprets_hugeCommand : ∃ set, Interprets hugeCommand set 0x8000_0000_0000_0000 := by
  refine ⟨{ Settings.start with source := "p.bf", memory := some 0x8000_0000_0000_0000 }, ?_, rfl, rfl⟩
  rfl

/-- There is no tape of that size, and both say so by escaping. -/
theorem only_shortage_escapes_immense : maxIndex ≤ maxIndex ∧
    respond maxIndex ⟨"POST", "/api/run", immense⟩ = .error (.run (.size .tooLarge)) ∧
    ∃ rounds, (run rounds emptyFile hugeCommand).exit = .escaped (.run (.size .tooLarge)) := by
  obtain ⟨fields, hread, hcheck⟩ := read_immense
  obtain ⟨set, hset⟩ := interprets_hugeCommand
  obtain ⟨hrequests, hposted, hfile, -⟩ := only_shortage_escapes (Nat.le_refl maxIndex)
  have hstreams : (Streams.start emptyFile.input emptyFile.output).Systemic :=
    Streams.systemic_ofBytes []
  obtain ⟨hsize, hsteps, hrespond⟩ := hposted immense fields _ hread hcheck
  obtain ⟨-, hrequest⟩ := hrequests _ hsize hsteps
  obtain ⟨-, -, hcommand⟩ := hfile emptyFile hugeCommand set _ rfl hset hstreams
  exact ⟨Nat.le_refl _, hrespond.trans ((hrequest _).mpr ⟨[], [], rfl, rfl, .noTape rfl⟩),
    (hcommand _).mpr ⟨"", [], rfl, rfl, .noTape rfl⟩⟩

/-- That size is one that both let pass, and yet the request has no answer and the command no status. -/
theorem immense_escapes :
    (∃ fields r, Json.read immense = .ok (.object fields) ∧ RunRequest.check fields = .ok r ∧
      r.memorySize = 0x8000_0000_0000_0000) ∧
    (∀ answer, respond maxIndex ⟨"POST", "/api/run", immense⟩ ≠ .ok answer) ∧
    (∃ set, Interprets hugeCommand set 0x8000_0000_0000_0000) ∧
    ∀ rounds, (run rounds emptyFile hugeCommand).exit = .escaped (.run (.size .tooLarge)) := by
  obtain ⟨fields, hread, hcheck⟩ := read_immense
  obtain ⟨set, hset⟩ := interprets_hugeCommand
  refine ⟨⟨fields, _, hread, hcheck, rfl⟩, ?_, ⟨set, hset⟩, ?_⟩
  · intro answer hanswer
    rw [respond_run maxIndex hread hcheck] at hanswer
    cases hanswer
  · intro rounds
    exact run_of_unmade (p := []) hset rfl rfl rfl

end Brainfuck
