import Mathlib.Data.List.Count
import Brainfuck.Text.Newline

/-! What unifying line ends leaves of a text: every other character, earlier by one place for each carriage
return before it that has a line feed of its own. -/
namespace Brainfuck.Text

/-- How often a carriage return comes right before a line feed. -/
def pairs (cs : List Char) : Nat := (cs.zip cs.tail).count ('\r', '\n')

/-- A text as it is read from a file. -/
def unified (s : String) : String := .ofList (unifyNewlines s.toList)

/-- Not the first half of a line end of two characters. -/
def StandsAlone (c : Char) (rest : List Char) : Prop := c = '\r' → rest.head? ≠ some '\n'

variable {c : Char} {cs xs ys : List Char} {keep : Char → Bool}

/-- A text ends, or goes on with a line end of two characters or with one character by itself. -/
theorem line_induction {P : List Char → Prop} (nil : P [])
    (pair : ∀ cs, P cs → P ('\r' :: '\n' :: cs))
    (single : ∀ c cs, StandsAlone c cs → P cs → P (c :: cs)) : ∀ cs, P cs
  | [] => nil
  | [c] => single c [] (fun _ => by simp) nil
  | c :: d :: cs => by
    by_cases h : c = '\r' ∧ d = '\n'
    · obtain ⟨rfl, rfl⟩ := h
      exact pair cs (line_induction nil pair single cs)
    · refine single c (d :: cs) ?_ (line_induction nil pair single (d :: cs))
      rintro rfl hd
      exact h ⟨rfl, by simpa using hd⟩

theorem unifyFrom_single (done : List Char) (h : StandsAlone c cs) :
    unifyFrom done (c :: cs) = unifyFrom ((if c = '\r' then '\n' else c) :: done) cs := by
  rw [unifyFrom]
  rintro ds rfl rfl
  exact h rfl rfl

theorem unifyFrom_eq (cs : List Char) :
    ∀ done, unifyFrom done cs = done.reverse ++ unifyNewlines cs := by
  induction cs using line_induction with
  | nil => exact fun done => (List.append_nil _).symm
  | pair cs ih =>
    intro done
    change unifyFrom ('\n' :: done) cs = done.reverse ++ unifyFrom ['\n'] cs
    rw [ih, ih, List.reverse_cons, List.append_assoc]
    rfl
  | single c cs h ih =>
    intro done
    change _ = done.reverse ++ unifyFrom [] (c :: cs)
    rw [unifyFrom_single done h, unifyFrom_single [] h, ih, ih, List.reverse_cons, List.append_assoc]
    rfl

theorem unify_pair (cs : List Char) :
    unifyNewlines ('\r' :: '\n' :: cs) = '\n' :: unifyNewlines cs :=
  unifyFrom_eq cs ['\n']

theorem unify_single (h : StandsAlone c cs) :
    unifyNewlines (c :: cs) = (if c = '\r' then '\n' else c) :: unifyNewlines cs := by
  rw [unifyNewlines, unifyFrom_single [] h, unifyFrom_eq]
  rfl

theorem pairs_pair (cs : List Char) : pairs ('\r' :: '\n' :: cs) = pairs cs + 1 := by
  cases cs <;> simp [pairs]

theorem pairs_single (h : StandsAlone c cs) : pairs (c :: cs) = pairs cs := by
  cases cs with
  | nil => simp [pairs]
  | cons d cs =>
    have hne : (c, d) ≠ ('\r', '\n') := by
      rintro ⟨⟩
      exact h rfl rfl
    simp [pairs, hne]

/-- Each pair becomes one character, and every other character stays one. -/
theorem length_unify (cs : List Char) : (unifyNewlines cs).length + pairs cs = cs.length := by
  induction cs using line_induction with
  | nil => rfl
  | pair cs ih =>
    rw [unify_pair, pairs_pair, List.length_cons, List.length_cons, List.length_cons]
    omega
  | single c cs h ih =>
    rw [unify_single h, pairs_single h, List.length_cons, List.length_cons]
    omega

/-- What is no part of a line end stays, in order. -/
theorem filter_unify (hr : keep '\r' = false) (hn : keep '\n' = false) (cs : List Char) :
    (unifyNewlines cs).filter keep = cs.filter keep := by
  induction cs using line_induction with
  | nil => rfl
  | pair cs ih => simp [unify_pair, hr, hn, ih]
  | single c cs h ih =>
    rw [unify_single h]
    by_cases hc : c = '\r'
    · simp [hc, hr, hn, ih]
    · simp only [hc, if_false, List.filter_cons, ih]

/-- A character that is no part of a line end keeps the texts on both sides of it apart. -/
theorem unify_append (hr : c ≠ '\r') (hn : c ≠ '\n') (xs ys : List Char) :
    unifyNewlines (xs ++ c :: ys) = unifyNewlines xs ++ c :: unifyNewlines ys := by
  induction xs using line_induction with
  | nil =>
    have hc : StandsAlone c ys := fun h => (hr h).elim
    rw [List.nil_append, unify_single hc, if_neg hr]
    rfl
  | pair cs ih => rw [List.cons_append, List.cons_append, unify_pair, ih, unify_pair]; rfl
  | single d cs h ih =>
    have hd : StandsAlone d (cs ++ c :: ys) := by
      intro hd
      cases cs with
      | nil => simpa using hn
      | cons e cs => exact h hd
    rw [List.cons_append, unify_single hd, ih, unify_single h]
    rfl

end Brainfuck.Text
