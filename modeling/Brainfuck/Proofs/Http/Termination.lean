import Brainfuck.Proofs.Escapes
import Brainfuck.Proofs.Execution.Termination

/-! A request to run a program has a budget, so what it is answered does not depend on how long one waits. -/
namespace Brainfuck.Http

variable {r : RunRequest} {fields : List (List CodePoint × Json)} {p : Program} {bytes : List UInt8}
  {i : Interpreter}

namespace RunRequest

/-- A budget can be left out, but not lifted. -/
theorem check_of_null (h : Json.field? fields "max_steps" = some .null) : check fields ≠ .ok r := by
  intro hcheck
  obtain ⟨-, -, -, hsteps⟩ := check_ok hcheck
  rw [optional, h] at hsteps
  cases hsteps

/-- The rounds after the budget is spent add nothing to the answer. -/
theorem answer_over {room n : Nat} (hp : Program.parse r.code = .ok p) (hspells : Spells r.input bytes)
    (hc : Interpreter.create room r.memorySize (some r.maxSteps) = .ok i)
    (hn : r.maxSteps.toNat + 1 ≤ n) :
    (i.run n p.optimize (.ofBytes bytes)).ending ≠ .unfinished ∧
    r.answer room = reply (i.run n p.optimize (.ofBytes bytes)) := by
  obtain ⟨hended, hsame⟩ := Interpreter.run_over (p := p.optimize) (s := .ofBytes bytes)
    (Interpreter.create_ok hc).budget hn
  refine ⟨hended, ?_⟩
  rw [answer_of_made hp hspells hc, hsame]

end RunRequest

/-- A run that is not over has counted its rounds, so it is over after one round more than its budget has
steps. A request to run a program has a budget, and is answered with how its run ends. No body is accepted
that lifts the budget, or that makes it less than one step. -/
theorem budget_ends_runs :
    (∀ (i : Interpreter) (p : Program) (s : Streams) (n : Nat),
      ((i.run n p s).ending = .unfinished → (i.run n p s).steps = n) ∧
      ∀ k, i.budget = some k → k.toNat + 1 ≤ n →
        (i.run n p s).ending ≠ .unfinished ∧ i.run n p s = i.run (k.toNat + 1) p s) ∧
    (∀ (r : RunRequest) (room : Nat) (p : Program) (bytes : List UInt8) (i : Interpreter) (n : Nat),
      Program.parse r.code = .ok p → Spells r.input bytes →
      Interpreter.create room r.memorySize (some r.maxSteps) = .ok i → r.maxSteps.toNat + 1 ≤ n →
      (i.run n p.optimize (.ofBytes bytes)).ending ≠ .unfinished ∧
      r.answer room = RunRequest.reply (i.run n p.optimize (.ofBytes bytes))) ∧
    ∀ (fields : List (List CodePoint × Json)) (r : RunRequest),
      (Json.field? fields "max_steps" = some .null → RunRequest.check fields ≠ .ok r) ∧
      (RunRequest.check fields = .ok r → 1 ≤ r.maxSteps ∧
        ∀ (room : Nat) (body : String), Json.read body = .ok (.object fields) →
          respond room ⟨"POST", "/api/run", body⟩ = r.answer room) := by
  refine ⟨fun i p s n => ⟨Interpreter.steps_of_unfinished, ?_⟩, ?_, fun fields r => ⟨?_, ?_⟩⟩
  · intro k hb hn
    exact Interpreter.run_over hb hn
  · intro r room p bytes i n
    exact RunRequest.answer_over
  · exact RunRequest.check_of_null
  · intro hcheck
    refine ⟨(RunRequest.one_le_of_check hcheck).2, ?_⟩
    intro room body hread
    exact respond_run room hread hcheck

/-- A request for a program that never ends by itself. -/
def spinning : String := "\x7b\"code\":\"+[]\",\"max_steps\":5\x7d"

/-- After five rounds the loop still spins; its five steps are spent, and so it is refused. Without a budget
the same request would not be accepted. -/
theorem budget_ends_runs_spinning :
    ∃ fields r p i, Json.read spinning = .ok (.object fields) ∧ RunRequest.check fields = .ok r ∧
      Program.parse r.code = .ok p ∧
      Interpreter.create Tape.usualRoom r.memorySize (some r.maxSteps) = .ok i ∧
      (i.run 5 p.optimize (.ofBytes [])).steps = 5 ∧
      (i.run 9 p.optimize (.ofBytes [])).ending ≠ .unfinished ∧
      i.run 9 p.optimize (.ofBytes []) = i.run 6 p.optimize (.ofBytes []) ∧
      respond Tape.usualRoom ⟨"POST", "/api/run", spinning⟩ =
        RunRequest.reply (i.run 9 p.optimize (.ofBytes [])) ∧
      RunRequest.check [(CodePoint.ofString "max_steps", .null)] ≠ .ok r := by
  let fields : List (List CodePoint × Json) :=
    [(CodePoint.ofString "code", .ofString "+[]"), (CodePoint.ofString "max_steps", .integer 5)]
  let r : RunRequest := ⟨"+[]", "", Tape.defaultSize, 5⟩
  let p : Program := [.act (.apply .increment .one), .loop []]
  have hcodes : Json.codePoints? spinning = some (spinning.toList.map .char) := by
    decide +kernel
  have hread : Json.read spinning = .ok (.object fields) := by
    rw [Json.read, hcodes]
    rfl
  have hcheck : RunRequest.check fields = .ok r := by rfl
  have hp : Program.parse "+[]" = .ok p := by rfl
  have hspells : Spells r.input [] := by rfl
  obtain ⟨i, hc⟩ : ∃ i, Interpreter.create Tape.usualRoom r.memorySize (some r.maxSteps) = .ok i :=
    ⟨_, rfl⟩
  have hgoing : (i.run 5 p.optimize (.ofBytes [])).ending = .unfinished := by
    cases hc
    decide +kernel
  obtain ⟨hruns, hanswers, hrequests⟩ := budget_ends_runs
  obtain ⟨-, haccepted⟩ := hrequests fields r
  have hposted := (haccepted hcheck).2 Tape.usualRoom spinning hread
  obtain ⟨hended, hanswer⟩ := hanswers r Tape.usualRoom p [] i 9 hp hspells hc (by decide)
  have hover := ((hruns i p.optimize (.ofBytes []) 9).2 5 (Interpreter.create_ok hc).budget
    (by decide)).2
  have hnull := (hrequests [(CodePoint.ofString "max_steps", .null)] r).1 (by rfl)
  exact ⟨fields, r, p, i, hread, hcheck, hp, hc, (hruns i p.optimize (.ofBytes []) 5).1 hgoing, hended,
    hover, hposted.trans hanswer, hnull⟩

end Brainfuck.Http
