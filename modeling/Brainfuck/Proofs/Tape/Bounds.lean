import Brainfuck.Proofs.Execution.Outcome
import Brainfuck.Proofs.Tape.Same

/-! Where operations leave the cursor: on a cell, but for a move to the right that the tape cannot follow. -/
namespace Brainfuck.Tape

variable {t u : Tape} {n : Count} {e : TapeError} {α : Type}

/-- The cursor is on a cell, and the tape is as long as before or has grown up to there. -/
structure Advances (t u : Tape) : Prop where
  inBounds : u.InBounds
  length : u.length = t.length ∨ t.length < u.length ∧ u.cursor + 1 = u.length

/-- The tape is as long as before, and the cursor is to the right of every cell. -/
structure Overruns (t u : Tape) : Prop where
  length : u.length = t.length
  cursor : u.length ≤ u.cursor

/-- What an operation may leave of a tape with its cursor on a cell: only where there is no room for a cell
does the cursor go where there is none. -/
def Bounded (t : Tape) : EStateM.Result TapeError Tape α → Prop
  | .ok _ u => t.Advances u
  | .error e u => e.IsShortage ∧ t.Overruns u ∨ ¬ e.IsShortage ∧ u = t

theorem exists_create {room : Nat} {size : Int} (hpos : 1 ≤ size) (hindex : size ≤ maxIndex)
    (hroom : size ≤ room) : ∃ t, create room size = .ok t := by
  rw [create, dif_neg (by omega), if_neg (by omega), dif_neg (by omega)]
  exact ⟨_, rfl⟩

theorem create_outOfMemory {room : Nat} {size : Int} (hpos : 1 ≤ size) (hindex : size ≤ maxIndex)
    (hroom : room < size) : create room size = .error .outOfMemory := by
  rw [create, dif_neg (by omega), if_neg (by omega), dif_pos (by omega)]

theorem advances_refl (h : t.InBounds) : t.Advances t := ⟨h, Or.inl rfl⟩

/-- A cursor on a cell addresses that cell, if the cell has an index. -/
theorem place_eq (h : t.InBounds) :
    t.place = if maxIndex < t.cursor then .error .unaddressable else .ok t.cursor.toNat := by
  have hnonneg := h.nonneg
  have hlt := h.lt_length
  rw [place, address]
  by_cases hfar : maxIndex < t.cursor
  · rw [if_pos (Or.inr hfar), if_pos hfar]
    rfl
  · rw [if_neg (by omega), dif_pos ⟨hnonneg, hlt⟩, if_neg hfar]
    rfl

theorem place_of_inBounds (h : t.InBounds) (hl : t.length ≤ maxIndex) :
    t.place = .ok t.cursor.toNat := by
  have hlt := h.lt_length
  rw [place_eq h, if_neg (by omega)]

theorem not_isShortage_of_place (h : t.place = .error e) : ¬ e.IsShortage := by
  unfold place address at h
  split at h
  · cases h
    exact id
  · split at h
    · cases h
    · split at h
      · cases h
      · cases h
        exact id

/-- A move to the right either has the room for the cells it needs, or moves the cursor only. -/
theorem moveRight_cases (h : t.InBounds) (n : Nat) :
    (∃ e, moveRight n t = .error e { t with cursor := t.cursor + n } ∧ e.IsShortage ∧
      t.length ≤ t.cursor + n) ∨
      ∃ u, moveRight n t = .ok () u ∧ u.room = t.room ∧ u.cells = t.cells ∧
        u.cursor = t.cursor + n ∧ (u.length : Int) = max (t.length : Int) (t.cursor + n + 1) := by
  have hnonneg := h.nonneg
  unfold moveRight
  dsimp only
  split
  next => exact Or.inr ⟨_, rfl, rfl, rfl, rfl, by dsimp only; omega⟩
  next =>
    split
    next => exact Or.inl ⟨_, rfl, trivial, by omega⟩
    next =>
      split
      next => exact Or.inl ⟨_, rfl, trivial, by omega⟩
      next =>
        split
        next => exact Or.inl ⟨_, rfl, trivial, by omega⟩
        next => exact Or.inr ⟨_, rfl, rfl, rfl, rfl, by dsimp only; omega⟩

/-- A move to the right goes through exactly if one block has the new cells and memory has room for all. -/
theorem moveRight_ok_iff (h : t.InBounds) (n : Nat) : (∃ u, moveRight n t = .ok () u) ↔
    t.cursor + n + 1 - t.length ≤ maxBlock ∧ t.cursor + n + 1 ≤ t.room := by
  have hnonneg := h.nonneg
  have hlength := t.length_le
  have hindex : maxBlock ≤ maxIndex := Nat.sub_le _ _
  unfold moveRight
  dsimp only
  split
  next => exact iff_of_true ⟨_, rfl⟩ ⟨by omega, by omega⟩
  next =>
    split
    next => exact iff_of_false (by simp) (by omega)
    next =>
      split
      next => exact iff_of_false (by simp) (by omega)
      next =>
        split
        next => exact iff_of_false (by simp) (by omega)
        next => exact iff_of_true ⟨_, rfl⟩ ⟨by omega, by omega⟩

/-- A move that needs no more new cells than a block has goes through where there is room. -/
theorem moveRight_grows (h : t.InBounds) (hblock : t.cursor + n.val + 1 - t.length ≤ maxBlock)
    (hroom : t.cursor + n.val + 1 ≤ t.room) :
    ∃ u, moveRight n.val t = .ok () u ∧ u.room = t.room ∧ u.cells = t.cells ∧
      u.cursor = t.cursor + n.val ∧ u.length = max (t.length : Int) (t.cursor + n.val + 1) := by
  obtain ⟨u, hu⟩ := (moveRight_ok_iff h n.val).mpr ⟨hblock, hroom⟩
  rcases moveRight_cases h n.val with ⟨e, he, -⟩ | hok
  · rw [hu] at he
    cases he
  · exact hok

theorem moveRight_fits (h : t.InBounds) (hn : n.val ≤ maxBlock)
    (hroom : t.cursor + n.val + 1 ≤ t.room) :
    ∃ u, moveRight n.val t = .ok () u ∧ u.room = t.room ∧ u.cells = t.cells ∧
      u.cursor = t.cursor + n.val ∧ u.length = max (t.length : Int) (t.cursor + n.val + 1) := by
  have hlt := h.lt_length
  exact moveRight_grows h (by omega) hroom

theorem moveRight_exhausts {n : Nat} (hblock : t.cursor + n + 1 - t.length ≤ maxBlock)
    (hroom : t.room < t.cursor + n + 1) :
    moveRight n t = .error .outOfMemory { t with cursor := t.cursor + n } := by
  have hlength := t.length_le
  have hindex : maxBlock ≤ maxIndex := Nat.sub_le _ _
  unfold moveRight
  dsimp only
  rw [dif_neg (by omega), if_neg (by omega), if_neg (by omega), dif_pos (by omega)]

theorem moveRight_outOfMemory (h : t.InBounds) (hn : n.val ≤ maxBlock)
    (hroom : t.room < t.cursor + n.val + 1) :
    moveRight n.val t = .error .outOfMemory { t with cursor := t.cursor + n.val } := by
  have hlt := h.lt_length
  exact moveRight_exhausts (by omega) hroom

theorem moveRight_bounded (h : t.InBounds) (n : Nat) : t.Bounded (moveRight n t) := by
  have hnonneg := h.nonneg
  rcases moveRight_cases h n with ⟨e, hu, he, hfar⟩ | ⟨u, hu, -, -, hcursor, hlength⟩
  · rw [hu]
    exact Or.inl ⟨he, rfl, hfar⟩
  · rw [hu]
    exact ⟨⟨by omega, by omega⟩, by omega⟩

theorem moveLeft_bounded (h : t.InBounds) (n : Nat) : t.Bounded (moveLeft n t) := by
  have hlt := h.lt_length
  unfold moveLeft
  split
  · exact Or.inr ⟨id, rfl⟩
  · exact ⟨⟨by dsimp only; omega, by dsimp only; omega⟩, Or.inl rfl⟩

theorem update_bounded (h : t.InBounds) (f : UInt8 → UInt8) : t.Bounded (update f t) := by
  cases hp : t.place with
  | ok j =>
    obtain ⟨u, hu, hw⟩ := update_of_place hp f
    rw [hu]
    exact ⟨inBounds_of_writes h hw, Or.inl hw.length⟩
  | error e =>
    rw [update_of_no_place hp]
    exact Or.inr ⟨not_isShortage_of_place hp, rfl⟩

theorem apply_bounded (h : t.InBounds) (op : TapeOp) (n : Count) :
    t.Bounded (apply op n.val t) := by
  cases op with
  | moveRight => exact moveRight_bounded h _
  | moveLeft => exact moveLeft_bounded h _
  | increment =>
    simp only [apply, increment]
    exact update_bounded h _
  | decrement =>
    simp only [apply, decrement]
    exact update_bounded h _

end Brainfuck.Tape
