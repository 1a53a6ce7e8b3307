import Brainfuck.Proofs.Tape.Bounds

/-! Tapes of any two lengths on which the cursor stands at the same place, among the same cells. -/
namespace Brainfuck.Tape

variable {t t' : Tape} {k : Nat} {n : Count}

/-- The same room, cursor and cells, of which those past the end are zero; the lengths may differ. Moves go up
to `k` places, and a block holds as many, or else all that there is room for. -/
structure Beside (k : Nat) (t t' : Tape) : Prop where
  index : k ≤ maxIndex
  block : k ≤ maxBlock ∨ t.room ≤ maxBlock
  room : t.room = t'.room
  cursor : t.cursor = t'.cursor
  cell : ∀ j, t.cell j = t'.cell j
  left : t.InBounds
  right : t'.InBounds

/-- Failures at the same place, among the same cells. Where there is no room the errors may differ, but only
if one is that memory gave out. -/
structure FailsBeside (e : TapeError) (t : Tape) (e' : TapeError) (t' : Tape) : Prop where
  error : e = e' ∨ e.IsShortage ∧ e'.IsShortage ∧ (e = .outOfMemory ∨ e' = .outOfMemory)
  cursor : t.cursor = t'.cursor
  cell : ∀ j, t.cell j = t'.cell j

theorem failsBeside_of_beside (e : TapeError) (h : Beside k t t') : FailsBeside e t e t' :=
  ⟨Or.inl rfl, h.cursor, h.cell⟩

theorem place_of_beside (h : Beside k t t') : t.place = t'.place := by
  rw [place_eq h.left, place_eq h.right, h.cursor]

theorem read_beside (h : Beside k t t') :
    Related (Beside k) FailsBeside (read t) (read t') := by
  have hplace := place_of_beside h
  cases hp : t.place with
  | ok j =>
    rw [read_of_place hp, read_of_place (hplace ▸ hp), h.cell]
    exact ⟨rfl, h⟩
  | error e =>
    rw [read_of_no_place hp, read_of_no_place (hplace ▸ hp)]
    exact failsBeside_of_beside e h

theorem update_beside (h : Beside k t t') (f : UInt8 → UInt8) :
    Related (Beside k) FailsBeside (update f t) (update f t') := by
  have hplace := place_of_beside h
  cases hp : t.place with
  | ok j =>
    obtain ⟨u, hu, hw⟩ := update_of_place hp f
    obtain ⟨u', hu', hw'⟩ := update_of_place (hplace ▸ hp) f
    rw [hu, hu']
    refine ⟨rfl, h.index, hw.room ▸ h.block, ?_, ?_, ?_, inBounds_of_writes h.left hw,
      inBounds_of_writes h.right hw'⟩
    · rw [hw.room, hw'.room, h.room]
    · rw [hw.cursor, hw'.cursor, h.cursor]
    · intro i
      rw [hw.cell, hw'.cell, h.cell, h.cell]
  | error e =>
    rw [update_of_no_place hp, update_of_no_place (hplace ▸ hp)]
    exact failsBeside_of_beside e h

/-- A move that there is no room for asks for more than a block, or memory gives out. -/
theorem moveRight_short (h : t.InBounds) (hn : n.val ≤ maxIndex)
    (hroom : t.room < t.cursor + n.val + 1) :
    ∃ e, moveRight n.val t = .error e { t with cursor := t.cursor + n.val } ∧
      (e = .blockTooLarge ∨ e = .outOfMemory) := by
  have hlt := h.lt_length
  have hlength := t.length_le
  unfold moveRight
  dsimp only
  rw [dif_neg (by omega), if_neg (by omega)]
  split
  · exact ⟨_, rfl, Or.inl rfl⟩
  · exact ⟨_, rfl, Or.inr rfl⟩

theorem shortage_told {e e' : TapeError} (he : e = .blockTooLarge ∨ e = .outOfMemory)
    (he' : e' = .blockTooLarge ∨ e' = .outOfMemory) :
    e = e' ∨ e.IsShortage ∧ e'.IsShortage ∧ (e = .outOfMemory ∨ e' = .outOfMemory) := by
  rcases he with rfl | rfl <;> rcases he' with rfl | rfl
  · exact Or.inl rfl
  · exact Or.inr ⟨trivial, trivial, Or.inr rfl⟩
  · exact Or.inr ⟨trivial, trivial, Or.inl rfl⟩
  · exact Or.inl rfl

theorem moveRight_beside (h : Beside k t t') (hn : n.val ≤ k) :
    Related (Beside k) FailsBeside (moveRight n.val t) (moveRight n.val t') := by
  have hindex := h.index
  have hblock := h.block
  have hcursor := h.cursor
  have hroom := h.room
  have hnonneg := h.left.nonneg
  by_cases hfits : t.cursor + n.val + 1 ≤ t.room
  · obtain ⟨u, hu, hur, huc, hup, hul⟩ := moveRight_fits (n := n) h.left (by omega) hfits
    obtain ⟨u', hu', hur', huc', hup', hul'⟩ :=
      moveRight_fits (n := n) h.right (by omega) (by omega)
    rw [hu, hu']
    refine ⟨rfl, hindex, by omega, by omega, by omega, fun j => ?_, ⟨by omega, by omega⟩,
      ⟨by omega, by omega⟩⟩
    have hj := h.cell j
    simpa only [cell, huc, huc'] using hj
  · obtain ⟨e, hu, he⟩ := moveRight_short (n := n) h.left (by omega) (by omega)
    obtain ⟨e', hu', he'⟩ := moveRight_short (n := n) h.right (by omega) (by omega)
    rw [hu, hu']
    exact ⟨shortage_told he he', by dsimp only; omega, h.cell⟩

theorem moveLeft_beside (h : Beside k t t') :
    Related (Beside k) FailsBeside (moveLeft n.val t) (moveLeft n.val t') := by
  have hcursor := h.cursor
  have hlt := h.left.lt_length
  have hlt' := h.right.lt_length
  unfold moveLeft
  rw [← hcursor]
  split
  · exact failsBeside_of_beside _ h
  · exact ⟨rfl, h.index, h.block, h.room, by simp, h.cell, ⟨by dsimp only; omega, by dsimp only; omega⟩,
      ⟨by dsimp only; omega, by dsimp only; omega⟩⟩

theorem apply_beside (op : TapeOp) (hn : op = .moveRight → n.val ≤ k) (h : Beside k t t') :
    Related (Beside k) FailsBeside (apply op n.val t) (apply op n.val t') := by
  cases op with
  | moveRight => exact moveRight_beside h (hn rfl)
  | moveLeft => exact moveLeft_beside h
  | increment =>
    simp only [apply, increment]
    exact update_beside h _
  | decrement =>
    simp only [apply, decrement]
    exact update_beside h _

/-- Zeros at the end of a list are dropped, however many there are. -/
theorem dropZeros_eq {vs vs' : List UInt8} (h : ∀ j : Nat, vs[j]?.getD 0 = vs'[j]?.getD 0)
    (hle : vs.length ≤ vs'.length) :
    (vs.reverse.dropWhile (· == 0)).reverse = (vs'.reverse.dropWhile (· == 0)).reverse := by
  have htake : vs'.take vs.length = vs := by
    apply List.ext_getElem
    · simp [hle]
    · intro j hj hj'
      have hcell := h j
      rw [List.getElem?_eq_getElem hj',
        List.getElem?_eq_getElem (Nat.lt_of_lt_of_le hj' hle)] at hcell
      simpa using hcell.symm
  have hdrop : ∀ v ∈ (vs'.drop vs.length).reverse, (v == 0) = true := by
    intro v hv
    obtain ⟨j, hj, rfl⟩ := List.getElem_of_mem (List.mem_reverse.mp hv)
    have hcell := h (vs.length + j)
    rw [List.length_drop] at hj
    rw [List.getElem?_eq_none (Nat.le_add_right _ _), List.getElem?_eq_getElem (by omega)] at hcell
    simpa using hcell.symm
  calc (vs.reverse.dropWhile (· == 0)).reverse
      = ((vs'.take vs.length).reverse.dropWhile (· == 0)).reverse := by rw [htake]
    _ = ((vs'.take vs.length ++ vs'.drop vs.length).reverse.dropWhile (· == 0)).reverse := by
      rw [List.reverse_append, List.dropWhile_append_of_pos hdrop]
    _ = (vs'.reverse.dropWhile (· == 0)).reverse := by rw [List.take_append_drop]

/-- Tapes with the same cells, where those past the end count as zero, have the same contents. -/
theorem contents_eq (h : ∀ j, t.cell j = t'.cell j) : t.contents = t'.contents := by
  have hstored : ∀ j : Nat,
      t.cells.stored.toList[j]?.getD 0 = t'.cells.stored.toList[j]?.getD 0 := by
    intro j
    rw [Array.getElem?_toList, Array.getElem?_toList]
    exact h j
  rcases Nat.le_total t.cells.stored.toList.length t'.cells.stored.toList.length with hle | hle
  · exact dropZeros_eq hstored hle
  · exact (dropZeros_eq (fun j => (hstored j).symm) hle).symm

end Brainfuck.Tape
