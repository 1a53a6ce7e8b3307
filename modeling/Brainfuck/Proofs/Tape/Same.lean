import Brainfuck.Proofs.Execution.Related

/-! Tapes that look alike, and what each operation does to them. -/
namespace Brainfuck.Tape

variable {t t' u : Tape} {op : TapeOp} {n : Count} {α : Type}

/-- The same room, cells and cursor; the cells may be stored in another way. -/
structure Same (t t' : Tape) : Prop where
  room : t.room = t'.room
  length : t.length = t'.length
  cursor : t.cursor = t'.cursor
  cell : ∀ j, t.cell j = t'.cell j

/-- The cursor is on a cell. -/
structure InBounds (t : Tape) : Prop where
  nonneg : 0 ≤ t.cursor
  lt_length : t.cursor < t.length

/-- A fresh tape has the cells asked for, all zero, and its cursor on the first. -/
theorem create_ok {room : Nat} {size : Int} (h : create room size = .ok t) :
    t.InBounds ∧ t.room = room ∧ (t.length : Int) = size ∧ t.cursor = 0 ∧ t.cells = .zero := by
  unfold create at h
  split at h
  · cases h
  · split at h
    · cases h
    · split at h
      · cases h
      · cases h
        exact ⟨⟨Int.le_refl _, by dsimp only; omega⟩, rfl, by dsimp only; omega, rfl, rfl⟩

theorem create_error {room : Nat} {size : Int} {e : SizeError} (h : create room size = .error e)
    (hsize : 1 ≤ size) : e = .tooLarge ∨ e = .outOfMemory := by
  unfold create at h
  split at h
  · omega
  · split at h
    · cases h
      exact Or.inl rfl
    · split at h
      · cases h
        exact Or.inr rfl
      · cases h

theorem same_refl (t : Tape) : Same t t := ⟨rfl, rfl, rfl, fun _ => rfl⟩

theorem same_symm (h : Same t t') : Same t' t :=
  ⟨h.room.symm, h.length.symm, h.cursor.symm, fun j => (h.cell j).symm⟩

theorem same_trans (h : Same t t') (h' : Same t' u) : Same t u :=
  ⟨h.room.trans h'.room, h.length.trans h'.length, h.cursor.trans h'.cursor,
    fun j => (h.cell j).trans (h'.cell j)⟩

theorem inBounds_of_same (h : Same t t') (ht : t.InBounds) : t'.InBounds :=
  ⟨h.cursor ▸ ht.nonneg, h.cursor ▸ h.length ▸ ht.lt_length⟩

/-- Same tapes with the cursor on a cell. -/
def Alike (t t' : Tape) : Prop := Same t t' ∧ t.InBounds

/-- The same error on same tapes. -/
def FailsSame (e : TapeError) (t : Tape) (e' : TapeError) (t' : Tape) : Prop := e = e' ∧ Same t t'

/-- The place of the cell under the cursor. -/
def place (t : Tape) : Except TapeError Nat := t.address.map Fin.val

/-- One cell gets a new value and nothing else changes. -/
structure Writes (t : Tape) (j : Nat) (v : UInt8) (u : Tape) : Prop where
  room : u.room = t.room
  length : u.length = t.length
  cursor : u.cursor = t.cursor
  cell : ∀ k, u.cell k = if j = k then v else t.cell k

theorem place_congr (hl : t.length = t'.length) (hc : t.cursor = t'.cursor) :
    t.place = t'.place := by
  obtain ⟨room, length, cursor, cells, _, _, _⟩ := t
  obtain ⟨room', length', cursor', cells', _, _, _⟩ := t'
  dsimp only at hl hc
  subst hl hc
  rfl

theorem read_of_place {j : Nat} (h : t.place = .ok j) : read t = .ok (t.cell j) t := by
  unfold place at h
  unfold read
  cases ha : t.address with
  | ok i =>
    rw [ha] at h
    cases h
    rfl
  | error e =>
    rw [ha] at h
    cases h

theorem read_of_no_place {e : TapeError} (h : t.place = .error e) : read t = .error e t := by
  unfold place at h
  unfold read
  cases ha : t.address with
  | ok i =>
    rw [ha] at h
    cases h
  | error e =>
    rw [ha] at h
    cases h
    rfl

theorem update_of_place {j : Nat} (h : t.place = .ok j) (f : UInt8 → UInt8) :
    ∃ u, update f t = .ok () u ∧ Writes t j (f (t.cell j)) u := by
  unfold place at h
  unfold update
  cases ha : t.address with
  | ok i =>
    rw [ha] at h
    cases h
    exact ⟨_, rfl, rfl, rfl, rfl, fun _ => cell_put⟩
  | error e =>
    rw [ha] at h
    cases h

theorem toNat_ofInt (n : Int) : ((UInt8.ofInt n).toNat : Int) = n % 256 := by
  have hnonneg := Int.emod_nonneg n (show (256 : Int) ≠ 0 by decide)
  have hlt := Int.emod_lt_of_pos n (show (0 : Int) < 256 by decide)
  rw [UInt8.ofInt, UInt8.toNat_ofNat']
  simp only [Nat.reducePow, Int.reducePow]
  omega

theorem ofInt_natCast (n : Nat) : UInt8.ofInt n = UInt8.ofNat n := by
  have hmod : ((n : Int) % 2 ^ 8).toNat = n % 2 ^ 8 := by omega
  rw [UInt8.ofInt, hmod, UInt8.ofNat_mod_size]

theorem ofInt_toNat (v : UInt8) : UInt8.ofInt v.toNat = v := by
  rw [ofInt_natCast, UInt8.ofNat_toNat]

/-- A byte is written unchanged. -/
theorem write_of_place {j : Nat} (h : t.place = .ok j) (v : UInt8) :
    ∃ u, write v.toNat t = .ok () u ∧ Writes t j v u := by
  obtain ⟨u, hu, hw⟩ := update_of_place h fun _ => .ofInt v.toNat
  rw [ofInt_toNat] at hw
  exact ⟨u, hu, hw⟩

theorem update_of_no_place {e : TapeError} (h : t.place = .error e) (f : UInt8 → UInt8) :
    update f t = .error e t := by
  unfold place at h
  unfold update
  cases ha : t.address with
  | ok i =>
    rw [ha] at h
    cases h
  | error e =>
    rw [ha] at h
    cases h
    rfl

theorem same_of_writes {u' : Tape} {j : Nat} {v : UInt8} (h : Same t t') (hu : Writes t j v u)
    (hu' : Writes t' j v u') : Same u u' where
  room := by rw [hu.room, hu'.room, h.room]
  length := by rw [hu.length, hu'.length, h.length]
  cursor := by rw [hu.cursor, hu'.cursor, h.cursor]
  cell := by
    intro k
    rw [hu.cell, hu'.cell, h.cell]

/-- The second value written to a cell is the one that stays. -/
theorem writes_trans {j : Nat} {v w : UInt8} (h : Writes t j v t') (h' : Writes t' j w u) :
    Writes t j w u where
  room := h'.room.trans h.room
  length := h'.length.trans h.length
  cursor := h'.cursor.trans h.cursor
  cell := by
    intro k
    rw [h'.cell, h.cell]
    split <;> rfl

theorem inBounds_of_writes {j : Nat} {v : UInt8} (h : t.InBounds) (hu : Writes t j v u) :
    u.InBounds := by
  have hlt := h.lt_length
  exact ⟨hu.cursor ▸ h.nonneg, by rw [hu.cursor, hu.length]; exact hlt⟩

theorem read_related (h : Alike t t') : Related Alike FailsSame (read t) (read t') := by
  have hplace := place_congr h.1.length h.1.cursor
  cases hp : t.place with
  | ok j =>
    rw [read_of_place hp, read_of_place (hplace ▸ hp), h.1.cell]
    exact ⟨rfl, h⟩
  | error e =>
    rw [read_of_no_place hp, read_of_no_place (hplace ▸ hp)]
    exact ⟨rfl, h.1⟩

theorem update_related (h : Alike t t') (f : UInt8 → UInt8) :
    Related Alike FailsSame (update f t) (update f t') := by
  have hplace := place_congr h.1.length h.1.cursor
  cases hp : t.place with
  | ok j =>
    obtain ⟨u, hu, hw⟩ := update_of_place hp f
    obtain ⟨u', hu', hw'⟩ := update_of_place (hplace ▸ hp) f
    rw [hu, hu']
    rw [← h.1.cell] at hw'
    exact ⟨rfl, same_of_writes h.1 hw hw', inBounds_of_writes h.2 hw⟩
  | error e =>
    rw [update_of_no_place hp, update_of_no_place (hplace ▸ hp)]
    exact ⟨rfl, h.1⟩

theorem moveRight_related (h : Alike t t') :
    Related Alike FailsSame (moveRight n.val t) (moveRight n.val t') := by
  obtain ⟨room, length, cursor, cells, _, _, _⟩ := t
  obtain ⟨room', length', cursor', cells', _, _, _⟩ := t'
  obtain ⟨⟨hroom, hlength, hcursor, hcell⟩, hnonneg, hlt⟩ := h
  dsimp only at hroom hlength hcursor hnonneg hlt
  subst hroom hlength hcursor
  unfold moveRight
  dsimp only
  split
  · exact ⟨rfl, ⟨rfl, rfl, rfl, hcell⟩, by dsimp only; omega, by dsimp only; omega⟩
  · split
    · exact ⟨rfl, rfl, rfl, rfl, hcell⟩
    · split
      · exact ⟨rfl, rfl, rfl, rfl, hcell⟩
      · split
        · exact ⟨rfl, rfl, rfl, rfl, hcell⟩
        · exact ⟨rfl, ⟨rfl, rfl, rfl, hcell⟩, by dsimp only; omega, by dsimp only; omega⟩

theorem moveLeft_related (h : Alike t t') :
    Related Alike FailsSame (moveLeft n.val t) (moveLeft n.val t') := by
  unfold moveLeft
  rw [h.1.cursor]
  have hnonneg := h.2.nonneg
  have hlt := h.2.lt_length
  have hcursor := h.1.cursor
  split
  · exact ⟨rfl, h.1⟩
  · exact ⟨rfl, ⟨h.1.room, h.1.length, by simp, h.1.cell⟩, by dsimp only; omega,
      by dsimp only; omega⟩

/-- Alike tapes stay alike. -/
theorem apply_related (h : Alike t t') :
    Related Alike FailsSame (apply op n.val t) (apply op n.val t') := by
  cases op with
  | moveRight => exact moveRight_related h
  | moveLeft => exact moveLeft_related h
  | increment =>
    simp only [apply, increment]
    exact update_related h _
  | decrement =>
    simp only [apply, decrement]
    exact update_related h _

end Brainfuck.Tape
