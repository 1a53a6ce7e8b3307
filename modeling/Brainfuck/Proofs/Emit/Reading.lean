import Brainfuck.Emit
import Brainfuck.Program.Text

/-! Reading a generated program back: its lines, the statements on them, and the blocks they form. -/
namespace Brainfuck.Emit

/-- A call of one of the functions that a generated program opens with. -/
inductive Call
  | allocate (size : Nat)
  | apply (op : TapeOp) (count : Nat)
  | output
  | input
  deriving DecidableEq

/-- A statement of the main function: a call, or a loop for as long as the cell is not zero. -/
inductive Code
  | call (c : Call)
  | loop (body : List Code)

namespace Reading

/-- The number between a call's opening parenthesis and its end. A decimal number does not start with a
zero, unless it is zero. -/
def literal? (cs : List Char) : Option Nat :=
  let n := Nat.ofDigitChars 10 (cs.takeWhile Char.isDigit) 0
  if cs = (toString n ++ "u);").toList then some n else none

/-- The functions that take a number, by name. -/
def callee? (name : List Char) : Option (Nat → Statement) :=
  if name = "tape_init".toList then some fun n => .allocate n
  else
    ([.moveRight, .moveLeft, .increment, .decrement].find? fun op =>
      (function op).toList == name).map .apply

def statement? (cs : List Char) : Option Statement :=
  match callee? (cs.takeWhile (· != '(')), literal? ((cs.dropWhile (· != '(')).drop 1) with
  | some f, some n => some (f n)
  | _, _ => [.output, .input, .openLoop, .closeLoop].find? fun s => s.text.toList == cs

/-- Indentation means nothing. -/
def line? (cs : List Char) : Option Statement := statement? (cs.dropWhile (· == ' '))

/-- The statements of lines that all end; after the last end of line nothing follows. -/
def lines? : List (List Char) → Option (List Statement)
  | [] => none
  | [[]] => some []
  | cs :: ls => do
    let s ← line? cs
    let ss ← lines? ls
    return s :: ss

/-- The blocks that statements form; `done` is the innermost open one, last statement first, and `outer`
the ones around it. -/
def blocks? : List Statement → List Code → List (List Code) → Option (List Code)
  | [], done, [] => some done.reverse
  | [], _, _ :: _ => none
  | .allocate n :: ss, done, outer => blocks? ss (.call (.allocate n.toNat) :: done) outer
  | .apply op n :: ss, done, outer => blocks? ss (.call (.apply op n) :: done) outer
  | .output :: ss, done, outer => blocks? ss (.call .output :: done) outer
  | .input :: ss, done, outer => blocks? ss (.call .input :: done) outer
  | .openLoop :: ss, done, outer => blocks? ss [] (done :: outer)
  | .closeLoop :: ss, done, before :: outer => blocks? ss (.loop done.reverse :: before) outer
  | .closeLoop :: _, _, [] => none

/-- What stands between an opening and a closing. -/
def between? (before after text : List Char) : Option (List Char) :=
  let rest := text.drop before.length
  let k := rest.length - after.length
  if text.take before.length = before ∧ rest.drop k = after then some (rest.take k) else none

/-- The statements of the main function, if the text around them is that of a generated program. -/
def main? (text : String) : Option (List Code) := do
  let body ← between? opening.toList closing.toList text.toList
  let ss ← lines? (body.splitOn '\n')
  blocks? ss [] []

variable {n : Nat} {op : TapeOp} {x : Statement} {xs : List Statement} {l : Line}

theorem isDigit_of_mem_toString {c : Char} (h : c ∈ (toString n).toList) : c.isDigit := by
  rw [Nat.toString_eq_ofList_toDigits, String.toList_ofList] at h
  exact Nat.isDigit_of_mem_toDigits (by decide) (by decide) h

theorem literal?_toString : literal? (toString n ++ "u);").toList = some n := by
  have hn : Nat.ofDigitChars 10 ((toString n ++ "u);").toList.takeWhile Char.isDigit) 0 = n := by
    rw [String.toList_append, List.takeWhile_append_of_pos fun _ => isDigit_of_mem_toString]
    have hclose : "u);".toList.takeWhile Char.isDigit = [] := rfl
    rw [hclose, List.append_nil, Nat.toString_eq_ofList_toDigits, String.toList_ofList]
    exact Nat.ofDigitChars_ten_toDigits
  simp only [literal?, hn, if_true]

/-- A call is read as its name and its number. -/
theorem statement?_call {name : String} {f : Nat → Statement} (hname : '(' ∉ name.toList)
    (hf : callee? name.toList = some f) :
    statement? (name ++ "(" ++ toString n ++ "u);").toList = some (f n) := by
  have hopen : (name ++ "(" ++ toString n ++ "u);").toList =
      name.toList ++ '(' :: (toString n ++ "u);").toList := by
    simp
  have hne : ∀ c ∈ name.toList, (c != '(') = true := by
    intro c hc
    rw [bne_iff_ne]
    rintro rfl
    exact hname hc
  have hbefore : (name.toList ++ '(' :: (toString n ++ "u);").toList).takeWhile (· != '(') =
      name.toList := by
    rw [List.takeWhile_append_of_pos hne]
    simp
  have hafter : (name.toList ++ '(' :: (toString n ++ "u);").toList).dropWhile (· != '(') =
      '(' :: (toString n ++ "u);").toList := by
    rw [List.dropWhile_append_of_pos hne]
    simp
  rw [statement?, hopen, hbefore, hafter, List.drop_succ_cons, List.drop_zero, hf,
    literal?_toString]

/-- A statement with a negative number cannot be written. -/
def Writable : Statement → Prop
  | .allocate size => 0 ≤ size
  | _ => True

theorem statement?_text (hx : Writable x) : statement? x.text.toList = some x := by
  cases x with
  | allocate size =>
    obtain ⟨k, rfl⟩ := Int.eq_ofNat_of_zero_le hx
    exact @statement?_call _ "tape_init" (fun k => .allocate k) (by decide) rfl
  | apply op k =>
    cases op with
    | moveRight => exact statement?_call (by decide) rfl
    | moveLeft => exact statement?_call (by decide) rfl
    | increment => exact statement?_call (by decide) rfl
    | decrement => exact statement?_call (by decide) rfl
  | output => rfl
  | input => rfl
  | openLoop => rfl
  | closeLoop => rfl

/-- A statement's text starts with what is no blank. -/
theorem dropWhile_text (x : Statement) : x.text.toList.dropWhile (· == ' ') = x.text.toList := by
  cases x with
  | apply op k => cases op <;> simp [Statement.text, function]
  | allocate size => simp [Statement.text]
  | output => rfl
  | input => rfl
  | openLoop => rfl
  | closeLoop => rfl

theorem line?_text (hl : Writable l.statement) : line? l.text.toList = some l.statement := by
  have hblank : ∀ c ∈ List.replicate (4 * l.depth) ' ', (c == ' ') = true := by
    intro c hc
    rw [List.eq_of_mem_replicate hc]
    rfl
  have htext : l.text.toList = List.replicate (4 * l.depth) ' ' ++ l.statement.text.toList := by
    simp [Line.text, Text.toList_pushn]
  rw [line?, htext, List.dropWhile_append_of_pos hblank, dropWhile_text, statement?_text hl]

theorem text_ne_nil (l : Line) : l.text.toList ≠ [] := by
  rw [Line.text, String.toList_append]
  cases hx : l.statement with
  | apply op k => cases op <;> simp [Statement.text, function]
  | allocate size => simp [Statement.text]
  | output => simp [Statement.text]
  | input => simp [Statement.text]
  | openLoop => simp [Statement.text]
  | closeLoop => simp [Statement.text]

theorem lines?_texts {ls : List Line} (hls : ∀ l ∈ ls, Writable l.statement) :
    lines? ((ls.map fun l => l.text.toList) ++ [[]]) = some (ls.map Line.statement) := by
  induction ls with
  | nil => rfl
  | cons l ls ih =>
    have hl : line? l.text.toList = some l.statement := line?_text (hls l (by simp))
    have hrest := ih fun k hk => hls k (by simp [hk])
    rw [List.map_cons, List.cons_append, lines?]
    · simp [hl, hrest]
    · intro hnil
      exact absurd hnil (text_ne_nil l)

theorem newline_notMem_toDigits : '\n' ∉ Nat.toDigits 10 n := by
  intro h
  have hdigit : Char.isDigit '\n' := Nat.isDigit_of_mem_toDigits (by decide) (by decide) h
  exact absurd hdigit (by decide)

theorem newline_notMem_text (hx : Writable x) : '\n' ∉ x.text.toList := by
  cases x with
  | allocate size =>
    obtain ⟨k, rfl⟩ := Int.eq_ofNat_of_zero_le hx
    have htext : (Statement.allocate k).text = "tape_init(" ++ toString k ++ "u);" := rfl
    simp [htext, newline_notMem_toDigits]
  | apply op k => cases op <;> simp [Statement.text, function, newline_notMem_toDigits]
  | output => decide
  | input => decide
  | openLoop => decide
  | closeLoop => decide

theorem newline_notMem_line (hl : Writable l.statement) : '\n' ∉ l.text.toList := by
  simp [Line.text, Text.toList_pushn, newline_notMem_text hl]

/-- Lines without an end of line inside are found again. -/
theorem splitOn_unlines {ls : List String} (hls : ∀ l ∈ ls, '\n' ∉ l.toList) :
    (Text.unlines ls).toList.splitOn '\n' = ls.map String.toList ++ [[]] := by
  induction ls with
  | nil => rfl
  | cons l ls ih =>
    have htext : (Text.unlines (l :: ls)).toList = l.toList ++ '\n' :: (Text.unlines ls).toList := by
      simp [Text.unlines, String.join_cons]
    rw [htext, List.splitOn_append_cons_self_of_not_mem (hls l (by simp)),
      ih fun k hk => hls k (by simp [hk])]
    rfl

theorem between?_append {before after text : List Char} :
    between? before after (before ++ text ++ after) = some text := by
  simp [between?]

theorem unlines_append (xs ys : List String) :
    Text.unlines (xs ++ ys) = Text.unlines xs ++ Text.unlines ys := by
  simp [Text.unlines, String.join_append]

/-- A generated program is read as the blocks that its lines form. -/
theorem main?_unlines {ls : List Line} (hls : ∀ l ∈ ls, Writable l.statement) :
    main? (Text.unlines (openingLines ++ ls.map Line.text ++ closingLines)) =
      blocks? (ls.map Line.statement) [] [] := by
  have hclean : ∀ t ∈ ls.map Line.text, '\n' ∉ t.toList := by
    intro t ht
    obtain ⟨l, hl, rfl⟩ := List.mem_map.mp ht
    exact newline_notMem_line (hls l hl)
  have hsplit : (Text.unlines (ls.map Line.text)).toList.splitOn '\n' =
      (ls.map fun l => l.text.toList) ++ [[]] := by
    rw [splitOn_unlines hclean, List.map_map]
    rfl
  rw [main?, unlines_append, unlines_append, String.toList_append, String.toList_append, opening,
    closing, between?_append]
  simp [hsplit, lines?_texts hls]

end Reading

end Brainfuck.Emit
