import Brainfuck.Proofs.Escapes
import Brainfuck.Proofs.Optimize.Canonical
import Brainfuck.Proofs.Parse.Depth
import Brainfuck.Proofs.Program.Nested

/-! The answer to a request to show a program: the nested data, the text and the count of instructions are
those of one tree, which is what the code is read as. -/
namespace Brainfuck.Http

namespace ParseRequest

variable {r : ParseRequest} {p : Program} {a b : String} {d : Nat}

/-- The program that is shown. -/
def shown (r : ParseRequest) (p : Program) : Program := if r.optimize then p.optimize else p

/-- The complaint about loops that nest this deep. -/
def tooDeep (d : Nat) : String :=
  "Loops nest " ++ toString d ++ " levels deep; at most " ++ toString maxDumpDepth ++
    " can be returned as JSON"

theorem isKnown_shown (h : Program.parse r.code = .ok p) : (r.shown p).isKnown = true := by
  have hknown := Program.isKnown_of_parse h
  rw [shown]
  split
  · rwa [Program.isKnown_optimize]
  · exact hknown

theorem symbols_shown (r : ParseRequest) (p : Program) : (r.shown p).symbols = p.symbols := by
  rw [shown]
  split
  · exact Program.symbols_optimize
  · rfl

theorem depth_shown (r : ParseRequest) (p : Program) : (r.shown p).depth = p.depth := by
  rw [shown]
  split
  · rw [Program.depth_eq_nesting, Program.depth_eq_nesting, Program.nesting_optimize]
  · rfl

/-- Merged or not, the program is written as the code without its comments. -/
theorem text_shown (h : Program.parse r.code = .ok p) :
    (r.shown p).text .ample = .ok (Symbol.uncommented r.code) := by
  rw [Program.text_ample (isKnown_shown h), symbols_shown, Program.spell_of_parse h]

theorem answer_of_unparsed {e : ParseError} (h : Program.parse r.code = .error e) :
    r.answer = refusal 422 e.message := by
  rw [answer, h]

theorem answer_of_deep (h : Program.parse r.code = .ok p) (hdeep : maxDumpDepth < p.depth) :
    r.answer = refusal 422 (tooDeep p.depth) := by
  rw [← depth_shown r] at hdeep ⊢
  rw [answer, h]
  exact if_pos hdeep

/-- The three parts of an answer are one tree. -/
theorem answer_of_shallow (h : Program.parse r.code = .ok p) (hshallow : p.depth ≤ maxDumpDepth) :
    ∃ items, r.answer = ⟨200, .ofFields
        [("instructions", .list items), ("source", .ofString (Symbol.uncommented r.code)),
          ("instruction_count", .integer (r.shown p).nodes)]⟩ ∧
      Program.ofNested? items = some (r.shown p) := by
  rw [← depth_shown r] at hshallow
  obtain ⟨items, hdump, hread⟩ := Program.ofNested_dump _ (isKnown_shown h)
  refine ⟨items, ?_, hread⟩
  have hanswer : r.answer = ⟨200, .ofFields
      [("instructions", .list ((r.shown p).dump?.getD [])),
        ("source", .ofString (((r.shown p).text .ample).toOption.getD "")),
        ("instruction_count", .integer (r.shown p).size)]⟩ := by
    rw [answer, h]
    exact if_neg (Nat.not_lt.mpr hshallow)
  rw [hanswer, hdump, text_shown h, Program.size_eq_nodes]
  rfl

theorem refusal_inj (h : refusal 422 a = refusal 422 b) : a = b := by
  simp only [refusal, detail, Json.ofFields, Json.ofString, CodePoint.ofString, Response.mk.injEq,
    Json.object.injEq, List.map_cons, List.cons.injEq, Prod.mk.injEq, Json.text.injEq, true_and,
    and_true] at h
  exact String.toList_injective ((List.map_inj_right fun _ _ => CodePoint.char.inj).mp h)

/-- A complaint about depth is none about the text. -/
theorem tooDeep_ne_message (d : Nat) (e : ParseError) : tooDeep d ≠ e.message := by
  intro h
  have hheads := congrArg (fun s : String => s.toList.head?) h
  cases e <;> simp [tooDeep, ParseError.message, ParseError.cause] at hheads

theorem refusal_ne_shown {answer : Json} : refusal 422 a ≠ ⟨200, answer⟩ := by
  intro h
  cases congrArg Response.status h

end ParseRequest

theorem respond_parse {r : ParseRequest} {body : String} {fields : List (List CodePoint × Json)}
    (room : Nat) (hread : Json.read body = .ok (.object fields))
    (hcheck : ParseRequest.check fields = .ok r) :
    respond room ⟨"POST", "/api/parse", body⟩ = .ok r.answer := by
  have hroute : Route.ofPath? "/api/parse" = some (.endpoint .parse) := by decide
  have hanswer : Endpoint.answer .parse room fields = .ok (.ok r.answer) := by
    rw [Endpoint.answer, hcheck]
    rfl
  exact respond_post hroute hread hanswer

/-- A request to show a program is refused with the reader's complaint if and only if its code is no program,
and with a complaint about depth if and only if more than a hundred brackets are open at once in the code.
Any other is answered with the code without its comments, and with the nested data and the number of nodes
of one tree: what the code is read as, merged if that is asked for. -/
theorem parse_shows_program (r : ParseRequest) :
    (∀ e, Program.parse r.code = .error e → r.answer = refusal 422 e.message) ∧
    ((∃ e : ParseError, r.answer = refusal 422 e.message) ↔ ∃ e, Program.parse r.code = .error e) ∧
    (∀ p, Program.parse r.code = .ok p →
      ∃ d : Nat, IsGreatest {k : Int | ∃ cs, cs <+: r.code.toList ∧ k = cs.count '[' - cs.count ']'} d ∧
        (r.answer = refusal 422 (ParseRequest.tooDeep d) ↔ 100 < d) ∧
        (d ≤ 100 → ∃ items,
          r.answer = ⟨200, .ofFields
            [("instructions", .list items), ("source", .ofString (Symbol.uncommented r.code)),
              ("instruction_count", .integer (r.shown p).nodes)]⟩ ∧
          Program.ofNested? items = some (r.shown p))) ∧
    ∀ (room : Nat) (body : String) (fields : List (List CodePoint × Json)),
      Json.read body = .ok (.object fields) → ParseRequest.check fields = .ok r →
      respond room ⟨"POST", "/api/parse", body⟩ = .ok r.answer := by
  refine ⟨fun e he => ParseRequest.answer_of_unparsed he, ⟨?refused, ?unparsed⟩, ?parsed, ?posted⟩
  case unparsed =>
    rintro ⟨e, he⟩
    exact ⟨e, ParseRequest.answer_of_unparsed he⟩
  case refused =>
    rintro ⟨e, he⟩
    cases hp : Program.parse r.code with
    | error e' => exact ⟨e', rfl⟩
    | ok p =>
      exfalso
      rcases Nat.lt_or_ge maxDumpDepth p.depth with hdeep | hshallow
      · rw [ParseRequest.answer_of_deep hp hdeep] at he
        exact ParseRequest.tooDeep_ne_message _ e (ParseRequest.refusal_inj he)
      · obtain ⟨items, hanswer, -⟩ := ParseRequest.answer_of_shallow hp hshallow
        exact ParseRequest.refusal_ne_shown (he.symm.trans hanswer)
  case parsed =>
    intro p hp
    refine ⟨p.depth, Program.isGreatest_depth hp, ⟨?_, ParseRequest.answer_of_deep hp⟩,
      ParseRequest.answer_of_shallow hp⟩
    intro hrefused
    by_contra hle
    obtain ⟨items, hanswer, -⟩ := ParseRequest.answer_of_shallow hp (Nat.le_of_not_lt hle)
    exact ParseRequest.refusal_ne_shown (hrefused.symm.trans hanswer)
  case posted =>
    intro room body fields hread hcheck
    exact respond_parse room hread hcheck

/-- A request with a comment inside a run, and with a loop inside a loop. -/
def showing : String := "\x7b\"code\":\"+ +[[>]].\"\x7d"

/-- The run is shown merged, and its symbols without the comment. -/
theorem parse_shows_program_merged :
    ∃ fields r p items, Json.read showing = .ok (.object fields) ∧
      ParseRequest.check fields = .ok r ∧ Program.parse r.code = .ok p ∧
      Program.ofNested? items = some p.optimize ∧
      respond Tape.usualRoom ⟨"POST", "/api/parse", showing⟩ = .ok ⟨200, .ofFields
        [("instructions", .list items), ("source", .ofString "++[[>]]."),
          ("instruction_count", .integer 5)]⟩ := by
  let fields : List (List CodePoint × Json) := [(CodePoint.ofString "code", .ofString "+ +[[>]].")]
  let r : ParseRequest := ⟨"+ +[[>]].", true⟩
  let p : Program := [.act (.apply .increment .one), .act (.apply .increment .one),
    .loop [.loop [.act (.apply .moveRight .one)]], .act .output]
  have hcodes : Json.codePoints? showing = some (showing.toList.map .char) := by
    decide +kernel
  have hread : Json.read showing = .ok (.object fields) := by
    rw [Json.read, hcodes]
    rfl
  have hcheck : ParseRequest.check fields = .ok r := by rfl
  have hp : Program.parse "+ +[[>]]." = .ok p := by rfl
  obtain ⟨-, -, hparsed, hposted⟩ := parse_shows_program r
  obtain ⟨d, hgreatest, -, hshown⟩ := hparsed p hp
  have hd : d ≤ 100 := by
    obtain ⟨cs, hprefix, hopen⟩ := hgreatest.1
    have hle : cs.count '[' ≤ "+ +[[>]].".toList.count '[' := hprefix.sublist.count_le '['
    have htwo : "+ +[[>]].".toList.count '[' = 2 := by decide
    omega
  obtain ⟨items, hanswer, hitems⟩ := hshown hd
  have hsource : Symbol.uncommented "+ +[[>]]." = "++[[>]]." := by decide
  have hnodes : (r.shown p).nodes = 5 := by decide
  refine ⟨fields, r, p, items, hread, hcheck, hp, hitems, ?_⟩
  rw [hposted Tape.usualRoom showing fields hread hcheck, hanswer, hsource, hnodes]
  rfl

end Brainfuck.Http
