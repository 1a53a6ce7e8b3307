import Brainfuck.Proofs.Tape.Bounds

/-! One tape operation with a summed count against two of the same kind in a row. -/
namespace Brainfuck.Tape

variable {t t' : Tape} {op : TapeOp} {a b n : Count}

/-- Two operations of one kind, the second only if the first succeeds. -/
def applyBoth (op : TapeOp) (a b : Count) : EStateM TapeError Tape Unit := fun t =>
  match apply op a.val t with
  | .ok _ t => apply op b.val t
  | .error e t => .error e t

/-- Failures that leave the same cells. A tape that ran out of memory may have another length and cursor,
and one that ran off its left end another cursor. -/
structure FailsLike (e : TapeError) (t : Tape) (e' : TapeError) (t' : Tape) : Prop where
  error : e = e' ∨ e.IsUnderflow ∧ e'.IsUnderflow
  cell : ∀ j, t.cell j = t'.cell j
  length : e ≠ .outOfMemory → t.length = t'.length
  cursor : e ≠ .outOfMemory → ¬ e.IsUnderflow → t.cursor = t'.cursor

theorem failsLike_of_same {e e' : TapeError} (h : FailsSame e t e' t') : FailsLike e t e' t' :=
  ⟨Or.inl h.1, h.2.cell, fun _ => h.2.length, fun _ _ => h.2.cursor⟩

theorem alike_symm (h : Alike t t') : Alike t' t := ⟨same_symm h.1, inBounds_of_same h.1 h.2⟩

theorem failsLike_symm {e e' : TapeError} (h : FailsLike e t e' t') : FailsLike e' t' e t := by
  rcases h.error with rfl | ⟨hu, hu'⟩
  · exact ⟨Or.inl rfl, fun j => (h.cell j).symm, fun hne => (h.length hne).symm,
      fun hne hnu => (h.cursor hne hnu).symm⟩
  · refine ⟨Or.inr ⟨hu', hu⟩, fun j => (h.cell j).symm, fun _ => (h.length ?_).symm,
      fun _ hnu => (hnu hu').elim⟩
    rintro rfl
    exact hu

theorem moveRight_both (h : Alike t t') (hab : a.val + b.val ≤ maxBlock) :
    Related Alike FailsLike (applyBoth .moveRight a b t) (apply .moveRight (a + b).val t') := by
  have h' := inBounds_of_same h.1 h.2
  have hnonneg := h.2.nonneg
  have hcursor := h.1.cursor
  have hlength := h.1.length
  have hval : (((a + b).val : Nat) : Int) = a.val + b.val := by simp
  have hroom' := h.1.room
  simp only [applyBoth, apply]
  by_cases hroom : t.cursor + a.val + b.val + 1 ≤ t.room
  · obtain ⟨u, hu, hur, huc, hup, hul⟩ :=
      moveRight_fits (n := a) h.2 (by omega) (by omega)
    have huIn : u.InBounds := ⟨by omega, by omega⟩
    obtain ⟨v, hv, hvr, hvc, hvp, hvl⟩ := moveRight_fits (n := b) huIn (by omega) (by omega)
    obtain ⟨w, hw, hwr, hwc, hwp, hwl⟩ :=
      moveRight_fits (n := a + b) h' (by simpa using hab) (by omega)
    rw [hu, hw]
    dsimp only
    rw [hv]
    refine ⟨rfl, ⟨by omega, by omega, by omega, fun j => ?_⟩, by omega, by omega⟩
    have hj := h.1.cell j
    simpa only [cell, hvc, huc, hwc] using hj
  · rw [moveRight_outOfMemory (n := a + b) h' (by simpa using hab) (by omega)]
    by_cases ha : t.cursor + a.val + 1 ≤ t.room
    · obtain ⟨u, hu, hur, huc, hup, hul⟩ := moveRight_fits (n := a) h.2 (by omega) ha
      have huIn : u.InBounds := ⟨by omega, by omega⟩
      rw [hu]
      dsimp only
      rw [moveRight_outOfMemory (n := b) huIn (by omega) (by omega)]
      refine ⟨Or.inl rfl, fun j => ?_, fun hne => (hne rfl).elim, fun hne => (hne rfl).elim⟩
      have hj := h.1.cell j
      simpa only [cell, huc] using hj
    · rw [moveRight_outOfMemory (n := a) h.2 (by omega) (by omega)]
      exact ⟨Or.inl rfl, h.1.cell, fun hne => (hne rfl).elim, fun hne => (hne rfl).elim⟩

theorem moveLeft_both (h : Alike t t') :
    Related Alike FailsLike (applyBoth .moveLeft a b t) (apply .moveLeft (a + b).val t') := by
  have hcursor := h.1.cursor
  have hval : (((a + b).val : Nat) : Int) = a.val + b.val := by simp
  have hpos := b.pos
  have hlt := h.2.lt_length
  simp only [applyBoth, apply, moveLeft, hval]
  by_cases ha : t.cursor < a.val
  · rw [if_pos ha, if_pos (by omega)]
    exact ⟨Or.inr ⟨trivial, trivial⟩, h.1.cell, fun _ => h.1.length,
      fun _ hne => (hne trivial).elim⟩
  · rw [if_neg ha]
    dsimp only
    by_cases hb : t.cursor - a.val < b.val
    · rw [if_pos hb, if_pos (by omega)]
      exact ⟨Or.inr ⟨trivial, trivial⟩, h.1.cell, fun _ => h.1.length,
        fun _ hne => (hne trivial).elim⟩
    · rw [if_neg hb, if_neg (by omega)]
      exact ⟨rfl, ⟨h.1.room, h.1.length, by dsimp only; omega, h.1.cell⟩,
        by dsimp only; omega, by dsimp only; omega⟩

/-- Changing a cell twice changes it once by both. -/
theorem update_both (h : Alike t t') (f g : UInt8 → UInt8) :
    Related Alike FailsLike
      (match update f t with
        | .ok _ t => update g t
        | .error e t => .error e t)
      (update (fun v => g (f v)) t') := by
  have hplace := place_congr h.1.length h.1.cursor
  cases hp : t.place with
  | ok j =>
    obtain ⟨u, hu, hw⟩ := update_of_place hp f
    have hpu : u.place = .ok j := (place_congr hw.length hw.cursor).trans hp
    obtain ⟨v, hv, hx⟩ := update_of_place hpu g
    obtain ⟨u', hu', hw'⟩ := update_of_place (hplace ▸ hp) fun v => g (f v)
    rw [hu, hu']
    dsimp only
    rw [hv]
    -- the second change sees the value of the first and overwrites it
    have hboth : Writes t j (g (f (t.cell j))) v := by
      rw [hw.cell, if_pos rfl] at hx
      exact writes_trans hw hx
    rw [← h.1.cell] at hw'
    exact ⟨rfl, same_of_writes h.1 hboth hw', inBounds_of_writes h.2 hboth⟩
  | error e =>
    rw [update_of_no_place hp, update_of_no_place (hplace ▸ hp)]
    exact ⟨Or.inl rfl, h.1.cell, fun _ => h.1.length, fun _ _ => h.1.cursor⟩

/-- Two operations of one kind do what one with the summed count does. -/
theorem apply_both (h : Alike t t') (hab : op = .moveRight → a.val + b.val ≤ maxBlock) :
    Related Alike FailsLike (applyBoth op a b t) (apply op (a + b).val t') := by
  cases op with
  | moveRight => exact moveRight_both h (hab rfl)
  | moveLeft => exact moveLeft_both h
  | increment =>
    have hsum : (fun v : UInt8 => v + .ofInt ((a + b).val : Nat)) =
        fun v => v + .ofInt a.val + .ofInt b.val := by
      funext v
      rw [Count.val_add, Int.natCast_add, UInt8.ofInt_add, UInt8.add_assoc]
    simp only [applyBoth, apply, increment, hsum]
    exact update_both h _ _
  | decrement =>
    have hsum : (fun v : UInt8 => v - .ofInt ((a + b).val : Nat)) =
        fun v => v - .ofInt a.val - .ofInt b.val := by
      funext v
      rw [Count.val_add, Int.natCast_add, UInt8.ofInt_add]
      grind
    simp only [applyBoth, apply, decrement, hsum]
    exact update_both h _ _

end Brainfuck.Tape
