import Brainfuck.Proofs.Parse.Brackets
import Brainfuck.Proofs.Text.Newline

/-! Reading a text whose line ends have been unified: the same bracket is blamed, at an earlier position if
there are line ends of two characters before it. -/
namespace Brainfuck

namespace ParseError

/-- The kind of bracket that is blamed. -/
def bracket : ParseError → Char
  | unterminatedLoop _ => '['
  | unexpectedClose _ => ']'

/-- The same complaint about a position that is earlier by `k`. -/
def earlier (k : Nat) : ParseError → ParseError
  | unterminatedLoop n => unterminatedLoop (n - k)
  | unexpectedClose n => unexpectedClose (n - k)

theorem toString_inj {n m : Nat} (h : toString n = toString m) : n = m := by
  have hvalue := congrArg (fun s : String => Nat.ofDigitChars 10 s.toList 0) h
  simpa only [Nat.toString_eq_ofList_toDigits, String.toList_ofList, Nat.ofDigitChars_ten_toDigits]
    using hvalue

/-- No two complaints have the same text. -/
theorem message_inj {e e' : ParseError} (h : e.message = e'.message) : e = e' := by
  have hheads := congrArg (fun s : String => s.toList.head?) h
  cases e <;> cases e'
  case unterminatedLoop.unterminatedLoop n m =>
    have hn : n = m := toString_inj ((String.append_right_inj _).mp h)
    rw [hn]
  case unexpectedClose.unexpectedClose n m =>
    have hn : n = m := toString_inj ((String.append_right_inj _).mp h)
    rw [hn]
  all_goals simp [message, cause] at hheads

theorem message_earlier_iff {e : ParseError} {k : Nat} (h : k ≤ e.position) :
    (e.earlier k).message = e.message ↔ k = 0 := by
  constructor
  · intro hmessage
    have hposition := congrArg position (message_inj hmessage)
    cases e <;> simp only [earlier, position] at h hposition <;> omega
  · rintro rfl
    cases e <;> rfl

end ParseError

namespace Brackets

variable {source : String} {xs ys zs : List Char} {n m : Nat} {ps : List Nat} {e : ParseError}

theorem not_covered (h : Balanced ys) : ¬ Covered (ys ++ ']' :: zs) := by
  intro hcovered
  have hle := hcovered (ys ++ [']']) ⟨zs, by simp⟩
  have heven := h.even
  simp at hle
  omega

/-- What is found of the brackets of a text tells what comes of reading it. -/
theorem judges_unique {r r' : ParseError} (h : Judges xs (.error r)) (h' : Judges xs (.error r')) :
    r = r' := by
  cases r with
  | unexpectedClose n =>
    obtain ⟨ys, zs, rfl, rfl, hy⟩ := h
    cases r' with
    | unexpectedClose m =>
      obtain ⟨ys', zs', heq, rfl, hy'⟩ := h'
      have hleast := isLeast_length zs' hy'
      rw [← heq] at hleast
      have hlength := (isLeast_length zs hy).unique hleast
      rw [Nat.succ.inj hlength]
    | unterminatedLoop m =>
      obtain ⟨ps, hnested⟩ := h'
      exact (not_covered hy (covered_of_nested hnested)).elim
  | unterminatedLoop n =>
    obtain ⟨ps, hnested⟩ := h
    cases r' with
    | unexpectedClose m =>
      obtain ⟨ys, zs, rfl, rfl, hy⟩ := h'
      exact (not_covered hy (covered_of_nested hnested)).elim
    | unterminatedLoop m =>
      obtain ⟨ps', hnested'⟩ := h'
      rw [(isGreatest_position hnested).unique (isGreatest_position hnested')]

theorem not_balanced_of_judges (h : Judges xs (.error e)) : ¬ Balanced xs := by
  intro hbalanced
  cases e with
  | unexpectedClose n =>
    obtain ⟨ys, zs, rfl, -, hy⟩ := h
    exact not_covered hy hbalanced.covered
  | unterminatedLoop n =>
    obtain ⟨ps, hnested⟩ := h
    have hcount := count_of_nested hnested
    rw [hbalanced.even, List.length_cons] at hcount
    omega

/-- The brackets of a text alone decide what its error is. -/
theorem parse_error_iff : Program.parse source = .error e ↔ Judges source.toList (.error e) := by
  have hjudges := judges_parse source
  constructor
  · intro h
    rwa [h] at hjudges
  · intro h
    cases hp : Program.parse source with
    | ok p =>
      rw [hp] at hjudges
      exact (not_balanced_of_judges h hjudges).elim
    | error e' =>
      rw [hp] at hjudges
      rw [judges_unique h hjudges]

/-- The blamed bracket is where the complaint says. -/
theorem bracket_of_judges (h : Judges xs (.error e)) : xs[e.position]? = some e.bracket := by
  cases e with
  | unexpectedClose n =>
    obtain ⟨ys, zs, rfl, rfl, -⟩ := h
    simp [ParseError.position, ParseError.bracket]
  | unterminatedLoop n =>
    obtain ⟨ps, hnested⟩ := h
    exact (isGreatest_position hnested).1.1

/-- The brackets of a text, without all else. -/
def brackets (xs : List Char) : List Char := xs.filter fun c => c == '[' || c == ']'

theorem count_open (xs : List Char) : (brackets xs).count '[' = xs.count '[' :=
  List.count_filter (by decide)

theorem count_close (xs : List Char) : (brackets xs).count ']' = xs.count ']' :=
  List.count_filter (by decide)

theorem balanced_of_brackets (h : brackets ys = brackets xs) (hx : Balanced xs) : Balanced ys where
  covered := by
    intro zs hz
    have hprefix : brackets zs <+: brackets xs := h ▸ hz.filter _
    obtain ⟨ws, hw, heq⟩ := List.prefix_filter_iff.mp hprefix
    have hle := hx.covered ws hw
    rw [← count_open zs, ← count_close zs, heq]
    change (brackets ws).count ']' ≤ (brackets ws).count '['
    rwa [count_open, count_close]
  even := by rw [← count_open, ← count_close, h, count_open, count_close, hx.even]

theorem balanced_unify (h : Balanced xs) : Balanced (Text.unifyNewlines xs) :=
  balanced_of_brackets (Text.filter_unify (by decide) (by decide) xs) h

theorem nested_unify (h : Nested xs ps) : ∃ qs, Nested (Text.unifyNewlines xs) qs := by
  induction h with
  | outside closed => exact ⟨[], .outside (balanced_unify closed)⟩
  | inside before closed ih =>
    obtain ⟨qs, hqs⟩ := ih
    rw [Text.unify_append (by decide) (by decide)]
    exact ⟨_, .inside hqs (balanced_unify closed)⟩

/-- As many places are lost before the bracket as there are pairs before it. -/
theorem length_unify_sub (xs ys : List Char) :
    xs.length - Text.pairs ((xs ++ ys).take xs.length) = (Text.unifyNewlines xs).length := by
  have hlength := Text.length_unify xs
  rw [List.take_left]
  omega

theorem judges_unify (h : Judges xs (.error e)) :
    Judges (Text.unifyNewlines xs) (.error (e.earlier (Text.pairs (xs.take e.position)))) := by
  cases e with
  | unexpectedClose n =>
    obtain ⟨ys, zs, rfl, rfl, hy⟩ := h
    refine ⟨Text.unifyNewlines ys, Text.unifyNewlines zs, ?_, ?_, balanced_unify hy⟩
    · exact Text.unify_append (by decide) (by decide) ys zs
    · exact (length_unify_sub ys (']' :: zs)).symm
  | unterminatedLoop n =>
    obtain ⟨ps, hnested⟩ := h
    cases hnested with
    | @inside xs _ body before closed =>
      obtain ⟨qs, hqs⟩ := nested_unify before
      refine ⟨qs, ?_⟩
      rw [ParseError.position, length_unify_sub, Text.unify_append (by decide) (by decide)]
      exact .inside hqs (balanced_unify closed)

/-- A text is blamed for the same bracket with its line ends unified. -/
theorem parse_unify {s : String} (h : Program.parse s = .error e) :
    Program.parse (Text.unified s) =
      .error (e.earlier (Text.pairs (s.toList.take e.position))) := by
  rw [parse_error_iff] at h ⊢
  rw [Text.unified, String.toList_ofList]
  exact judges_unify h

end Brackets

end Brainfuck
