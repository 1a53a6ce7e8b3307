import Brainfuck.Http
import Brainfuck.Proofs.Execution.Bounds
import Brainfuck.Proofs.Execution.Budget
import Brainfuck.Proofs.Execution.Source

/-! The answer to a request to run a program, and what running its text gives. -/
namespace Brainfuck.Http

/-- A text of one character for each byte, with the same number. -/
def Spells (s : String) (bytes : List UInt8) : Prop :=
  s.toList.map Char.toNat = bytes.map UInt8.toNat

namespace RunRequest

variable {r : RunRequest} {s : String} {bytes : List UInt8} {p : Program}

/-- What is answered where running the text gives this: the bytes, with a cursor on the tape, or the error. -/
def Reports (r : RunRequest) (answer : Except Escape Response) :
    Except SourceError (List UInt8) → Prop
  | .ok bytes => ∃ (output : String) (length : Nat) (cursor : Int),
      answer = .ok ⟨200, .ofFields
        [("output", .ofString output),
          ("output_bytes", .list (bytes.map fun b => .integer b.toNat)),
          ("tape_length", .integer length), ("cursor", .integer cursor)]⟩ ∧
      Spells output bytes ∧ 0 ≤ cursor ∧ cursor < length ∧ r.memorySize ≤ length
  | .error (.run e) =>
    answer = if e.isFailure then .ok (refusal 409 e.message) else .error (.run e)
  | .error _ => False

theorem inputBytes?_eq_none (h : ∃ c ∈ s.toList, 0xFF < c.toNat) : inputBytes? s = none := by
  obtain ⟨c, hc, hlt⟩ := h
  apply if_neg
  intro hall
  have hsmall := List.all_eq_true.mp hall c hc
  simp only [decide_eq_true_eq] at hsmall
  omega

theorem exists_inputBytes? (h : ∀ c ∈ s.toList, c.toNat ≤ 0xFF) :
    ∃ bytes, inputBytes? s = some bytes ∧ Spells s bytes := by
  have hall : s.toList.all (·.toNat < 256) = true := by
    apply List.all_eq_true.mpr
    intro c hc
    have hle := h c hc
    simp only [decide_eq_true_eq]
    omega
  refine ⟨_, if_pos hall, ?_⟩
  rw [Spells, List.map_map]
  apply List.map_congr_left
  intro c hc
  have hle := h c hc
  simp only [Function.comp_apply, UInt8.toNat_ofNat']
  omega

theorem spells_ofBytes (bytes : List UInt8) : Spells (ofBytes bytes) bytes := by
  rw [Spells, ofBytes, String.toList_ofList, List.map_map]
  apply List.map_congr_left
  intro b _
  have hlt := b.toNat_lt
  have hvalid : b.toNat.isValidChar := Or.inl (by omega)
  rw [Function.comp_apply, Char.ofNat, dif_pos hvalid]
  rfl

/-- Whatever the run comes to is what the request is answered. -/
theorem reports_answer (room : Nat) (hp : Program.parse r.code = .ok p)
    (hbytes : inputBytes? r.input = some bytes) :
    ∃ x, SourceEndsWithin (some r.maxSteps) room r.code bytes r.memorySize true x ∧
      (∀ y, SourceEndsWithin (some r.maxSteps) room r.code bytes r.memorySize true y → y = x) ∧
      r.Reports (r.answer room) x := by
  unfold answer
  rw [hp, hbytes]
  dsimp only
  cases hc : Interpreter.create room r.memorySize (some r.maxSteps) with
  | error e =>
    simp only [Interpreter.sourceEndsWithin_of_create_error hp hc]
    exact ⟨_, rfl, fun _ => id, rfl⟩
  | ok i =>
    have hi := Interpreter.create_ok hc
    have hq : i.Ends p.optimize (.ofBytes bytes)
        (i.run (r.maxSteps.toNat + 1) p.optimize (.ofBytes bytes)) := Interpreter.ends_run hi.budget
    simp only [Interpreter.sourceEndsWithin_of_create_ok hp hc, if_true]
    refine ⟨_, ⟨_, hq, rfl⟩, ?_, ?_⟩
    · rintro _ ⟨q, hq', rfl⟩
      rw [Interpreter.ends_unique hq' hq]
    · generalize i.run (r.maxSteps.toNat + 1) p.optimize (.ofBytes bytes) = q at hq
      unfold Run.bytes
      cases hend : q.ending with
      | finished =>
        obtain ⟨hin, hlength⟩ := Interpreter.tape_of_ends hi.tape hq (by rw [hend]; exact id)
        rw [hi.size] at hlength
        exact ⟨_, _, _, rfl, spells_ofBytes _, hin.nonneg, hin.lt_length, hlength⟩
      | failed e => rfl
      | unfinished =>
        obtain ⟨n, rfl, hne⟩ := hq
        exact hne hend

end RunRequest

/-- What is posted to an endpoint is read and checked before it is answered. -/
theorem respond_post {e : Endpoint} {path body : String} {fields : List (List CodePoint × Json)}
    {room : Nat} {answer : Except Escape Response}
    (hroute : Route.ofPath? path = some (.endpoint e))
    (hread : Json.read body = .ok (.object fields)) (hanswer : e.answer room fields = .ok answer) :
    respond room ⟨"POST", path, body⟩ = answer := by
  have hcodes : Json.codePoints? "" = some [] := by decide +kernel
  have hempty : Json.read "" = .error (.malformed 0) := by
    rw [Json.read, hcodes]
    rfl
  have hne : body ≠ "" := by
    rintro rfl
    rw [hempty] at hread
    cases hread
  simp only [respond, hroute, if_true, answerBody, if_neg hne, hread, hanswer]

theorem respond_run {r : RunRequest} {body : String} {fields : List (List CodePoint × Json)}
    (room : Nat) (hread : Json.read body = .ok (.object fields))
    (hcheck : RunRequest.check fields = .ok r) :
    respond room ⟨"POST", "/api/run", body⟩ = r.answer room := by
  have hroute : Route.ofPath? "/api/run" = some (.endpoint .run) := by decide
  have hanswer : Endpoint.answer .run room fields = .ok (r.answer room) := by
    rw [Endpoint.answer, hcheck]
    rfl
  exact respond_post hroute hread hanswer

/-- A request to run a program is answered with what running its text gives. A text with no program is
refused before its input is looked at, and input that is not of bytes is refused before the run. The run
ends within its budget: its bytes are returned, and a failure of the program is a conflict. This is the answer
to every body that is accepted as the request. -/
theorem run_reports_source (r : RunRequest) (room : Nat) :
    (∀ e, Program.parse r.code = .error e → r.answer room = .ok (refusal 422 e.message)) ∧
    (∀ p, Program.parse r.code = .ok p →
      ((∃ c ∈ r.input.toList, 0xFF < c.toNat) → r.answer room =
        .ok (refusal 422 "input must only contain characters in the range U+0000-U+00FF")) ∧
      ((∀ c ∈ r.input.toList, c.toNat ≤ 0xFF) →
        ∃ bytes, Spells r.input bytes ∧
          ∃ x, SourceEndsWithin (some r.maxSteps) room r.code bytes r.memorySize true x ∧
            (∀ y, SourceEndsWithin (some r.maxSteps) room r.code bytes r.memorySize true y →
              y = x) ∧
            r.Reports (r.answer room) x)) ∧
    ∀ body fields, Json.read body = .ok (.object fields) → RunRequest.check fields = .ok r →
      respond room ⟨"POST", "/api/run", body⟩ = r.answer room := by
  refine ⟨fun e he => ?_, fun p hp => ⟨fun hinput => ?_, fun hinput => ?_⟩,
    fun body fields hread hcheck => respond_run room hread hcheck⟩
  · rw [RunRequest.answer, he]
  · rw [RunRequest.answer, hp, RunRequest.inputBytes?_eq_none hinput]
  · obtain ⟨bytes, hbytes, hspells⟩ := RunRequest.exists_inputBytes? hinput
    exact ⟨bytes, hspells, RunRequest.reports_answer room hp hbytes⟩

/-- A request with a budget of just the three steps that its text takes. -/
def accented : String := "\x7b\"code\":\",+.\",\"input\":\"é\",\"max_steps\":3\x7d"

/-- The input of that request is no ASCII, but one byte. -/
theorem run_reports_source_accented :
    ∃ fields r, Json.read accented = .ok (.object fields) ∧ RunRequest.check fields = .ok r ∧
      r = ⟨",+.", "é", Tape.defaultSize, 3⟩ ∧
      SourceEndsWithin (some 3) Tape.usualRoom ",+." [0xE9] Tape.defaultSize true (.ok [0xEA]) ∧
      r.Reports (respond Tape.usualRoom ⟨"POST", "/api/run", accented⟩) (.ok [0xEA]) := by
  let fields : List (List CodePoint × Json) :=
    [(CodePoint.ofString "code", .ofString ",+."), (CodePoint.ofString "input", .ofString "é"),
      (CodePoint.ofString "max_steps", .integer 3)]
  let p : Program := [.act .input, .act (.apply .increment .one), .act .output]
  have hcodes : Json.codePoints? accented = some (accented.toList.map .char) := by
    decide +kernel
  have hread : Json.read accented = .ok (.object fields) := by
    rw [Json.read, hcodes]
    rfl
  have hcheck : RunRequest.check fields = .ok ⟨",+.", "é", Tape.defaultSize, 3⟩ := by rfl
  have hp : Program.parse ",+." = .ok p := by rfl
  have hinput : ∀ c ∈ "é".toList, c.toNat ≤ 0xFF := by
    intro c hc
    have hone : c ∈ ['é'] := hc
    obtain rfl := List.mem_singleton.mp hone
    decide
  obtain ⟨-, hparsed, hposted⟩ := run_reports_source ⟨",+.", "é", Tape.defaultSize, 3⟩ Tape.usualRoom
  obtain ⟨bytes, hspells, x, -, hunique, hreports⟩ := (hparsed p hp).2 hinput
  have hmap : bytes.map UInt8.toNat = [0xE9].map UInt8.toNat := hspells.symm.trans (by decide)
  have hbytes : bytes = [0xE9] := (List.map_inj_right fun _ _ => UInt8.toNat_inj.mp).mp hmap
  have hends :
      SourceEndsWithin (some 3) Tape.usualRoom ",+." [0xE9] Tape.defaultSize true (.ok [0xEA]) :=
    ⟨4, by decide +kernel, by simp⟩
  subst hbytes
  rw [← hunique _ hends, ← hposted accented fields hread hcheck] at hreports
  exact ⟨fields, _, hread, hcheck, rfl, hends, hreports⟩

end Brainfuck.Http
