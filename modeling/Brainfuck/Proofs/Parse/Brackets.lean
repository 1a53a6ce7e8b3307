import Mathlib.Order.Bounds.Basic
import Mathlib.Order.Lattice
import Brainfuck.Program.Parse

/-! Which texts are programs, and which bracket is blamed for the others, told by counting brackets. -/
namespace Brainfuck.Brackets

/-- No prefix closes more loops than it opens. -/
def Covered (xs : List Char) : Prop := ∀ ys, ys <+: xs → ys.count ']' ≤ ys.count '['

/-- Every loop that is opened is closed. -/
structure Balanced (xs : List Char) : Prop where
  covered : Covered xs
  even : xs.count '[' = xs.count ']'

/-- A text whose open loops were opened at these positions, innermost first. -/
inductive Nested : List Char → List Nat → Prop
  | outside {xs} (closed : Balanced xs) : Nested xs []
  | inside {xs ps body} (before : Nested xs ps) (closed : Balanced body) :
    Nested (xs ++ '[' :: body) (xs.length :: ps)

variable {xs ys zs body : List Char} {c : Char} {n : Nat} {ps : List Nat}

theorem covered_append (hx : Covered xs) (hy : Covered ys) : Covered (xs ++ ys) := by
  intro zs hz
  rcases List.prefix_or_prefix_of_prefix hz (List.prefix_append xs ys) with h | ⟨ws, rfl⟩
  · exact hx zs h
  · have hw := hy ws ((List.prefix_append_right_inj xs).mp hz)
    have hx' := hx xs List.prefix_rfl
    simp only [List.count_append]
    omega

theorem covered_open (h : Covered body) : Covered ('[' :: body) := by
  intro ys hy
  rcases List.prefix_cons_iff.mp hy with rfl | ⟨zs, rfl, hz⟩
  · simp
  · have := h zs hz
    simp
    omega

theorem balanced_append (hx : Balanced xs) (hy : Balanced ys) : Balanced (xs ++ ys) where
  covered := covered_append hx.covered hy.covered
  even := by simp only [List.count_append, hx.even, hy.even]

theorem balanced_nil : Balanced [] where
  covered := by
    intro ys hy
    simp [List.prefix_nil.mp hy]
  even := rfl

theorem balanced_singleton (ho : c ≠ '[') (hc : c ≠ ']') : Balanced [c] where
  covered := by
    intro ys hy
    rcases List.prefix_cons_iff.mp hy with rfl | ⟨zs, rfl, hz⟩
    · simp
    · simp [List.prefix_nil.mp hz, ho, hc]
  even := by simp [ho, hc]

theorem balanced_loop (h : Balanced body) : Balanced ('[' :: body ++ [']']) where
  covered := by
    intro ys hy
    rcases List.prefix_concat_iff.mp hy with rfl | hy
    · simp [h.even]
    · exact covered_open h.covered ys hy
  even := by simp [h.even]

theorem nested_append (h : Nested xs ps) (hy : Balanced ys) : Nested (xs ++ ys) ps := by
  cases h with
  | outside closed => exact .outside (balanced_append closed hy)
  | inside before closed =>
    rw [List.append_assoc, List.cons_append]
    exact .inside before (balanced_append closed hy)

theorem nested_open (h : Nested xs ps) : Nested (xs ++ ['[']) (xs.length :: ps) :=
  .inside h balanced_nil

theorem nested_close (h : Nested xs (n :: ps)) : Nested (xs ++ [']']) ps := by
  cases h with
  | inside before closed =>
    rw [List.append_assoc]
    exact nested_append before (balanced_loop closed)

theorem covered_of_nested (h : Nested xs ps) : Covered xs := by
  induction h with
  | outside closed => exact closed.covered
  | inside _ closed ih => exact covered_append ih (covered_open closed.covered)

theorem count_of_nested (h : Nested xs ps) : xs.count '[' = xs.count ']' + ps.length := by
  induction h with
  | outside closed => simpa using closed.even
  | inside _ closed ih =>
    have := closed.even
    simp
    omega

/-- What the brackets of a text have to do with the result of reading it. -/
def Judges (xs : List Char) : Except ParseError Program → Prop
  | .ok _ => Balanced xs
  | .error (.unexpectedClose n) => ∃ ys zs, xs = ys ++ ']' :: zs ∧ ys.length = n ∧ Balanced ys
  | .error (.unterminatedLoop n) => ∃ ps, Nested xs (n :: ps)

/-- The positions that the reader keeps are those of the loops that are open. -/
theorem judges_parseFrom {done : List Instruction} {loops : List OpenLoop}
    (h : Nested ys (loops.map OpenLoop.position)) :
    Judges (ys ++ xs) (Program.parseFrom xs ys.length done loops) := by
  induction xs generalizing ys done loops with
  | nil =>
    rw [List.append_nil]
    cases loops with
    | nil =>
      cases h with
      | outside closed => exact closed
    | cons l loops => exact ⟨_, h⟩
  | cons c xs ih =>
    -- reading goes on after a text that is longer by one character
    have step {done loops} (h : Nested (ys ++ [c]) (loops.map OpenLoop.position)) :
        Judges (ys ++ c :: xs) (Program.parseFrom xs (ys.length + 1) done loops) := by
      have hread : Judges (ys ++ [c] ++ xs)
          (Program.parseFrom xs (ys ++ [c]).length done loops) := ih h
      simpa using hread
    have plain (ho : Symbol.ofChar? c ≠ some .loopStart) (hc : Symbol.ofChar? c ≠ some .loopEnd) :
        Nested (ys ++ [c]) (loops.map OpenLoop.position) := by
      apply nested_append h (balanced_singleton _ _)
      · rintro rfl
        exact ho rfl
      · rintro rfl
        exact hc rfl
    unfold Program.parseFrom
    split
    next hs => exact step (plain (by simp [hs]) (by simp [hs]))
    next hs => exact step (plain (by simp [hs]) (by simp [hs]))
    next hs => exact step (plain (by simp [hs]) (by simp [hs]))
    next hs => exact step (plain (by simp [hs]) (by simp [hs]))
    next hs =>
      obtain rfl := Symbol.ofChar?_eq_some_iff.mp hs
      exact step (nested_open h)
    next hs =>
      obtain rfl := Symbol.ofChar?_eq_some_iff.mp hs
      cases loops with
      | nil =>
        cases h with
        | outside closed => exact ⟨ys, xs, rfl, rfl, closed⟩
      | cons l loops => exact step (nested_close h)

theorem judges_parse (source : String) : Judges source.toList (Program.parse source) := by
  rw [← List.nil_append source.toList]
  exact judges_parseFrom (.outside balanced_nil)

/-- The shortest prefix that closes too many loops ends with the first bracket that closes none. -/
theorem isLeast_length (zs : List Char) (h : Balanced ys) :
    IsLeast {k | ∃ xs, xs <+: ys ++ ']' :: zs ∧ xs.count '[' < xs.count ']' ∧ xs.length = k}
      (ys.length + 1) := by
  constructor
  · refine ⟨ys ++ [']'], ⟨zs, by simp⟩, ?_, by simp⟩
    simp [h.even]
  · rintro k ⟨xs, hx, hlt, rfl⟩
    by_contra hk
    have hxy : xs <+: ys :=
      List.prefix_of_prefix_length_le hx (List.prefix_append ys _) (by omega)
    have := h.covered xs hxy
    omega

/-- The innermost open loop starts at the last bracket after which no prefix closes it. -/
theorem isGreatest_position (h : Nested xs (n :: ps)) :
    IsGreatest {i | xs[i]? = some '[' ∧
      ∀ ys, ys <+: xs.drop i → ys ≠ [] → ys.count ']' < ys.count '['} n := by
  cases h with
  | @inside xs _ body before closed =>
    constructor
    · refine ⟨by simp, ?_⟩
      intro ys hy hne
      rw [List.drop_left] at hy
      obtain rfl | ⟨zs, rfl, hz⟩ := List.prefix_cons_iff.mp hy
      · exact (hne rfl).elim
      · have := closed.covered zs hz
        simp
        omega
    · rintro i ⟨hi, hopen⟩
      by_contra hlt
      -- the rest from a later position is a rest of the closed body
      obtain ⟨j, rfl⟩ := Nat.exists_eq_add_of_lt (Nat.lt_of_not_le hlt)
      have hdrop : (xs ++ '[' :: body).drop (xs.length + j + 1) = body.drop j := by
        rw [Nat.add_assoc, List.drop_length_add_append]
        rfl
      have hne : body.drop j ≠ [] := by
        intro hnil
        rw [← hdrop, List.drop_eq_nil_iff] at hnil
        rw [List.getElem?_eq_none hnil] at hi
        cases hi
      have hrest := hopen (body.drop j) (hdrop ▸ List.prefix_rfl) hne
      have hbefore := closed.covered (body.take j) (List.take_prefix j body)
      have heven := closed.even
      rw [← List.take_append_drop j body, List.count_append, List.count_append] at heven
      omega

/-- A text is a program exactly if its brackets are balanced. Of the others, one with a prefix that
closes too many loops is blamed on the end of the shortest such prefix, and any other on the innermost
loop that is still open at its end. -/
theorem parse_balanced_or_blames (source : String) :
    let cs := source.toList
    ((∃ p, Program.parse source = .ok p) ↔
      (∀ xs, xs <+: cs → xs.count ']' ≤ xs.count '[') ∧ cs.count '[' = cs.count ']') ∧
    ((∃ xs, xs <+: cs ∧ xs.count '[' < xs.count ']') →
      ∃ n, Program.parse source = .error (.unexpectedClose n) ∧
        IsLeast {k | ∃ xs, xs <+: cs ∧ xs.count '[' < xs.count ']' ∧ xs.length = k} (n + 1)) ∧
    ((∀ xs, xs <+: cs → xs.count ']' ≤ xs.count '[') → cs.count ']' < cs.count '[' →
      ∃ n, Program.parse source = .error (.unterminatedLoop n) ∧
        IsGreatest {i | cs[i]? = some '[' ∧
          ∀ xs, xs <+: cs.drop i → xs ≠ [] → xs.count ']' < xs.count '['} n) := by
  intro cs
  have hj : Judges cs (Program.parse source) := judges_parse source
  match hp : Program.parse source with
  | .ok p =>
    rw [hp] at hj
    have hb : Balanced cs := hj
    refine ⟨⟨fun _ => ⟨hb.covered, hb.even⟩, fun _ => ⟨p, rfl⟩⟩, ?_, ?_⟩
    · rintro ⟨xs, hx, hlt⟩
      have := hb.covered xs hx
      omega
    · intro _ hlt
      have := hb.even
      omega
  | .error (.unexpectedClose n) =>
    rw [hp] at hj
    obtain ⟨ys, zs, hcs, rfl, hb⟩ := hj
    have hleast := isLeast_length zs hb
    rw [← hcs] at hleast
    obtain ⟨xs, hx, hlt, -⟩ := hleast.1
    have hnot : ¬ ∀ xs, xs <+: cs → xs.count ']' ≤ xs.count '[' := fun h => by
      have := h xs hx
      omega
    refine ⟨⟨?_, fun h => (hnot h.1).elim⟩, fun _ => ⟨ys.length, rfl, hleast⟩,
      fun h => (hnot h).elim⟩
    rintro ⟨p, hok⟩
    cases hok
  | .error (.unterminatedLoop n) =>
    rw [hp] at hj
    obtain ⟨ps, hn⟩ := hj
    have hcount := count_of_nested hn
    simp only [List.length_cons] at hcount
    refine ⟨⟨?_, ?_⟩, ?_, fun _ _ => ⟨n, rfl, isGreatest_position hn⟩⟩
    · rintro ⟨p, hok⟩
      cases hok
    · rintro ⟨-, heven⟩
      omega
    · rintro ⟨xs, hx, hlt⟩
      have := covered_of_nested hn xs hx
      omega

end Brainfuck.Brackets
