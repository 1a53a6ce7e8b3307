import Brainfuck.Proofs.CommandLine.Interpret
import Brainfuck.Proofs.Http.Parse
import Brainfuck.Proofs.Parse.LineEnds

/-! The bracket that is blamed, by the answer to a request and by the command line: the position is where the
bracket is in the text that is read, and reading a file unifies the line ends first. -/
namespace Brainfuck

open CommandLine Http

variable {s : String} {e : ParseError} {w : World} {argv : List String} {set : Settings}

theorem pairs_before_le (s : String) (n : Nat) : Text.pairs (s.toList.take n) ≤ n := by
  have hlength := Text.length_unify (s.toList.take n)
  have htake := List.length_take_le n s.toList
  omega

/-- A request is refused with the error of its code. -/
theorem respond_of_unparsed {r : ParseRequest} {body : String}
    {fields : List (List CodePoint × Json)} (room : Nat)
    (hread : Json.read body = .ok (.object fields)) (hcheck : ParseRequest.check fields = .ok r)
    (h : Program.parse r.code = .error e) :
    respond room ⟨"POST", "/api/parse", body⟩ = .ok (refusal 422 e.message) := by
  rw [respond_parse room hread hcheck, ParseRequest.answer_of_unparsed h]

/-- A command line fails with the error of the unified text. -/
theorem run_of_unparsed_file (h : Program.parse s = .error e)
    (hargv : Settings.read argv = .settings set) (hfile : w.read set.source = .ok (Text.utf8 s))
    (rounds : Nat) : run rounds w argv = .failure ("Parse error: " ++
      (e.earlier (Text.pairs (s.toList.take e.position))).message) := by
  have htext : decodeSource set.source (w.read set.source) = .ok (Text.unified s) := by
    rw [hfile, decodeSource_utf8]
  exact run_of_unparsed hargv htext (Brackets.parse_unify h)

/-- A text that is no program has a bracket that its error names, with the place where it is in the text.
A request to show the text is refused with that error. A command line about a file that holds the text
fails with the same complaint, but with a place that is earlier by one for each line end of two characters
before the bracket. So the two say the same if and only if there is none. -/
theorem both_blame_bracket (h : Program.parse s = .error e) :
    Brackets.Judges s.toList (.error e) ∧ s.toList[e.position]? = some e.bracket ∧
    (∀ room body fields r, Json.read body = .ok (.object fields) →
      ParseRequest.check fields = .ok r → r.code = s →
      respond room ⟨"POST", "/api/parse", body⟩ = .ok (refusal 422 e.message)) ∧
    ∃ k, k = Text.pairs (s.toList.take e.position) ∧ k ≤ e.position ∧
      (∀ w argv set, Settings.read argv = .settings set →
        w.read set.source = .ok (Text.utf8 s) → ∀ rounds,
        run rounds w argv = .failure ("Parse error: " ++ (e.earlier k).message)) ∧
      ((e.earlier k).message = e.message ↔ k = 0) := by
  have hjudges := Brackets.parse_error_iff.mp h
  have hle := pairs_before_le s e.position
  refine ⟨hjudges, Brackets.bracket_of_judges hjudges, ?request, _, rfl, hle, ?file,
    ParseError.message_earlier_iff hle⟩
  case request =>
    rintro room body fields r hread hcheck rfl
    exact respond_of_unparsed room hread hcheck h
  case file =>
    intro w argv set hargv hfile rounds
    exact run_of_unparsed_file h hargv hfile rounds

/-- A bracket after a line end of two characters, in a request and in a file. -/
def closing : String := "\r\n]"

def closingRequest : String := "\x7b\"code\":\"\\r\\n]\"\x7d"

def closingFile : World := { emptyFile with read := fun _ => .ok (Text.utf8 closing) }

theorem read_closingRequest : ∃ fields, Json.read closingRequest = .ok (.object fields) ∧
    ParseRequest.check fields = .ok ⟨closing, true⟩ := by
  have hcodes : Json.codePoints? closingRequest = some (closingRequest.toList.map .char) := by
    decide +kernel
  refine ⟨[(CodePoint.ofString "code", .ofString closing)], ?_, rfl⟩
  rw [Json.read, hcodes]
  rfl

theorem parse_closing : Program.parse closing = .error (.unexpectedClose 2) := rfl

theorem both_blame_bracket_apart : Program.parse closing = .error (.unexpectedClose 2) ∧
    respond Tape.usualRoom ⟨"POST", "/api/parse", closingRequest⟩ =
      .ok (refusal 422 "Unexpected ']' at position 2") ∧
    run 0 closingFile ["p.bf"] = .failure "Parse error: Unexpected ']' at position 1" := by
  obtain ⟨fields, hread, hcheck⟩ := read_closingRequest
  obtain ⟨-, -, hrequest, k, hk, -, hfile, -⟩ := both_blame_bracket parse_closing
  have hone : k = 1 := by rw [hk]; decide
  subst hone
  refine ⟨parse_closing, ?_, ?_⟩
  · exact hrequest Tape.usualRoom closingRequest fields _ hread hcheck rfl
  · exact hfile closingFile ["p.bf"] { Settings.start with source := "p.bf" } rfl rfl 0

/-- The place that the command line names is not where the bracket is. -/
theorem blames_differ :
    (∃ fields, Json.read closingRequest = .ok (.object fields) ∧
      ParseRequest.check fields = .ok ⟨closing, true⟩) ∧
    closing.toList[2]? = some ']' ∧ closing.toList[1]? = some '\n' ∧
    respond Tape.usualRoom ⟨"POST", "/api/parse", closingRequest⟩ =
      .ok (refusal 422 "Unexpected ']' at position 2") ∧
    closingFile.read "p.bf" = .ok (Text.utf8 closing) ∧
    ∀ rounds, run rounds closingFile ["p.bf"] =
      .failure "Parse error: Unexpected ']' at position 1" := by
  obtain ⟨fields, hread, hcheck⟩ := read_closingRequest
  have hrespond := respond_of_unparsed Tape.usualRoom hread hcheck parse_closing
  have hargv : Settings.read ["p.bf"] = .settings { Settings.start with source := "p.bf" } := rfl
  refine ⟨⟨fields, hread, hcheck⟩, by decide, by decide, hrespond, rfl, fun rounds => ?_⟩
  exact run_of_unparsed_file (w := closingFile) parse_closing hargv rfl rounds

end Brainfuck
