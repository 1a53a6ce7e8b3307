import Brainfuck.Proofs.Emit.Runtime
import Brainfuck.Proofs.Emit.Translation
import Brainfuck.Proofs.Tape.Bounds

/-! A machine and a generated program that stand at the same place, and what one instruction does to
both. -/
namespace Brainfuck

namespace Emit

variable {t : Tape} {st : Streams} {m : Machine} {s : Native} {n : Nat} {v : UInt8}
  {junk : Nat → Nat → UInt8}

/-- The program's tape is this one, of at most as many cells as an index can number. -/
structure Holds (t : Tape) (s : Native) : Prop where
  inBounds : t.InBounds
  room : t.room ≤ maxIndex
  length : s.length.toNat = t.length
  size : s.cells.size = t.length
  index : (s.index.toNat : Int) = t.cursor
  byte : ∀ j, j < t.length → s.cells.byte j = t.cell j

/-- The program's streams are these: bytes held in memory, and an output that never fails. -/
structure Carries (st : Streams) (s : Native) : Prop where
  unread : st.supplies = s.unread.map fun b => .bytes [b]
  written : st.written.toList = s.written ++ s.pending
  writeFault : ∀ n, st.output.writeFault n = none
  flushFault : ∀ n, st.output.flushFault n = none

/-- The two have left their streams alone. -/
structure Native.Quiet (s s' : Native) : Prop where
  unread : s'.unread = s.unread
  pending : s'.pending = s.pending
  written : s'.written = s.written

theorem carries_of_quiet {s' : Native} (h : Carries st s) (hq : s.Quiet s') : Carries st s' where
  unread := by rw [hq.unread, h.unread]
  written := by rw [hq.pending, hq.written, h.written]
  writeFault := h.writeFault
  flushFault := h.flushFault

theorem holds_congr {s' : Native} (h : Holds t s) (hc : s'.cells = s.cells)
    (hl : s'.length = s.length) (hi : s'.index = s.index) : Holds t s' where
  inBounds := h.inBounds
  room := h.room
  length := by rw [hl, h.length]
  size := by rw [hc, h.size]
  index := by rw [hi, h.index]
  byte := by rw [hc]; exact h.byte

theorem write_carries (h : Carries st s) (v : UInt8) :
    ∃ st', Streams.write v st = .ok () st' ∧ Carries st' { s with pending := s.pending ++ [v] } := by
  obtain ⟨out, supplies, written, calls, writes, flushes⟩ := st
  have hfault : out.writeFault writes = none := h.writeFault writes
  refine ⟨⟨out, supplies, written.push v, calls.push .write, writes + 1, flushes⟩, ?_, h.unread, ?_,
    h.writeFault, h.flushFault⟩
  · simp only [Streams.write, hfault]
  · have hwritten : written.toList = s.written ++ s.pending := h.written
    simp [hwritten]

theorem carries_flushed (h : Carries st s) : Carries st s.flushed where
  unread := h.unread
  written := by
    rw [h.written]
    simp [Native.flushed]
  writeFault := h.writeFault
  flushFault := h.flushFault

theorem flush_carries (h : Carries st s) :
    ∃ st', Streams.flush st = .ok () st' ∧ Carries st' s.flushed := by
  have hflushed := carries_flushed h
  obtain ⟨out, supplies, written, calls, writes, flushes⟩ := st
  have hfault : out.flushFault flushes = none := h.flushFault flushes
  by_cases hcan : out.canFlush = true
  · refine ⟨⟨out, supplies, written, calls.push .flush, writes, flushes + 1⟩, ?_, hflushed.unread,
      hflushed.written, hflushed.writeFault, hflushed.flushFault⟩
    simp only [Streams.flush, hcan, hfault, if_true]
  · refine ⟨⟨out, supplies, written, calls, writes, flushes⟩, ?_, hflushed⟩
    simp only [Streams.flush, hcan, Bool.false_eq_true, if_false]

theorem read_carries_end (h : Carries st s) (hs : s.unread = []) :
    ∃ st', Streams.read st = .ok none st' ∧ Carries st' s := by
  obtain ⟨out, supplies, written, calls, writes, flushes⟩ := st
  have hsupplies : supplies = s.unread.map fun b => .bytes [b] := h.unread
  have hnil : supplies = [] := by
    rw [hsupplies, hs]
    rfl
  subst hnil
  exact ⟨_, rfl, h.unread, h.written, h.writeFault, h.flushFault⟩

theorem read_carries {rest : List UInt8} (h : Carries st s) (hs : s.unread = v :: rest) :
    ∃ st', Streams.read st = .ok (some v) st' ∧ Carries st' { s with unread := rest } := by
  obtain ⟨out, supplies, written, calls, writes, flushes⟩ := st
  have hsupplies : supplies = s.unread.map fun b => .bytes [b] := h.unread
  have hcons : supplies = .bytes [v] :: rest.map fun b => .bytes [b] := by
    rw [hsupplies, hs]
    rfl
  subst hcons
  exact ⟨_, rfl, rfl, h.written, h.writeFault, h.flushFault⟩

theorem length_le (h : Holds t s) : t.length ≤ maxIndex := Nat.le_trans t.length_le h.room

theorem index_eq (h : Holds t s) : s.index.toNat = t.cursor.toNat := by
  have hindex := h.index
  omega

theorem index_lt (h : Holds t s) : s.index.toNat < s.cells.size := by
  have hlt := h.inBounds.lt_length
  have hindex := h.index
  have hsize := h.size
  omega

theorem read_load (h : Holds t s) :
    Tape.read t = .ok (t.cell t.cursor.toNat) t ∧
      Native.load s.index s = .ok (t.cell t.cursor.toNat) s := by
  have hindex := index_eq h
  have hlt := index_lt h
  have hsize := h.size
  refine ⟨Tape.read_of_place (Tape.place_of_inBounds h.inBounds (length_le h)), ?_⟩
  rw [Native.load, if_pos hlt, h.byte _ (by omega), hindex]

/-- A cell that is updated in the tape and stored in the block. -/
theorem update_store (h : Holds t s) {f : UInt8 → UInt8} (hv : f (t.cell t.cursor.toNat) = v) :
    ∃ u s', Tape.update f t = .ok () u ∧ Native.store s.index v s = .ok () s' ∧ Holds u s' ∧
      s.Quiet s' := by
  obtain ⟨u, hu, hw⟩ :=
    Tape.update_of_place (Tape.place_of_inBounds h.inBounds (length_le h)) f
  have hstore : Native.store s.index v s = .ok () { s with
      cells := { s.cells with byte := fun j => if s.index.toNat = j then v else s.cells.byte j } } := by
    rw [Native.store, if_pos (index_lt h)]
  refine ⟨u, _, hu, hstore, ?_, rfl, rfl, rfl⟩
  refine ⟨Tape.inBounds_of_writes h.inBounds hw, hw.room ▸ h.room, hw.length ▸ h.length,
    hw.length ▸ h.size, hw.cursor ▸ h.index, ?_⟩
  intro j hj
  rw [hw.length] at hj
  rw [hw.cell, hv, ← index_eq h]
  dsimp only
  rw [h.byte j hj]

theorem ofNat_mod (n : Nat) : UInt8.ofNat (n % 256) = UInt8.ofInt n := by
  rw [Tape.ofInt_natCast]
  exact UInt8.ofNat_mod_size

/-- A reduced count adds as the whole count does. -/
theorem ofInt_add_mod (v : UInt8) (n : Nat) :
    UInt8.ofInt (v.toNat + (UInt8.ofNat (n % 256)).toNat) = v + UInt8.ofInt n := by
  rw [UInt8.ofInt_add, Tape.ofInt_toNat, Tape.ofInt_toNat, ofNat_mod]

theorem ofInt_sub_mod (v : UInt8) (n : Nat) :
    UInt8.ofInt (v.toNat - (UInt8.ofNat (n % 256)).toNat) = v - UInt8.ofInt n := by
  rw [Int.sub_eq_add_neg, UInt8.ofInt_add, UInt8.ofInt_neg, Tape.ofInt_toNat, Tape.ofInt_toNat, ofNat_mod,
    UInt8.sub_eq_add_neg]

theorem toNat_ofNat (hn : n < 0x1_0000_0000_0000_0000) : (UInt64.ofNat n).toNat = n :=
  UInt64.toNat_ofNat_of_lt' hn

/-- How far the index can move. -/
theorem toNat_distance (h : Holds t s) :
    (-1 - s.index - 1).toNat = 0xFFFF_FFFF_FFFF_FFFE - s.index.toNat := by
  have hlt := index_lt h
  have hsize := h.size
  have hlength := length_le h
  have hmost : (-1 : UInt64).toNat = 0xFFFF_FFFF_FFFF_FFFF := rfl
  have hone : (1 : UInt64).toNat = 1 := rfl
  have hmax : maxIndex = 0x7FFF_FFFF_FFFF_FFFF := rfl
  rw [UInt64.toNat_sub, UInt64.toNat_sub, hmost, hone]
  omega

/-- Numbers do not wrap around where the index stays among those that can number a cell. -/
theorem toNat_index_add (h : Holds t s) (hmost : s.index.toNat + n < maxIndex) :
    ¬ -1 - s.index - 1 < UInt64.ofNat n ∧
      (s.index + UInt64.ofNat n).toNat = s.index.toNat + n := by
  have hmax : maxIndex = 0x7FFF_FFFF_FFFF_FFFF := rfl
  have hof : (UInt64.ofNat n).toNat = n := toNat_ofNat (by omega)
  rw [UInt64.lt_iff_toNat_lt, toNat_distance h, UInt64.toNat_add, hof]
  omega

/-- The index moves over cells that there are. -/
theorem moveRight_stays (junk : Nat → Nat → UInt8) (h : Holds t s)
    (hlt : s.index.toNat + n < t.length) :
    ∃ s', Native.moveRight junk (.ofNat n) s = .ok () s' ∧ s'.index.toNat = s.index.toNat + n ∧
      s'.length = s.length ∧ s'.cells = s.cells ∧ s.Quiet s' := by
  have hlength := h.length
  have hle := length_le h
  obtain ⟨hnear, hadd⟩ := toNat_index_add (n := n) h (by omega)
  have hinside : s.index + UInt64.ofNat n < s.length := by
    rw [UInt64.lt_iff_toNat_lt, hadd]
    omega
  refine ⟨{ s with index := s.index + UInt64.ofNat n }, ?_, hadd, rfl, rfl, rfl, rfl, rfl⟩
  rw [Native.moveRight, if_neg hnear]
  dsimp only
  rw [if_pos hinside]

/-- A block that grows and is filled from its old end on has zeros there, whatever it had before. -/
theorem memset_realloc (junk : Nat → Nat → UInt8) {b : Block} {start needed : UInt64}
    (hstart : start.toNat = b.size) (hle : b.size ≤ needed.toNat) :
    ∃ grown cells, b.realloc junk needed = some grown ∧
      grown.memset start 0 (needed - start) = some cells ∧ cells.size = needed.toNat ∧
      ∀ j, j < needed.toNat → cells.byte j = if b.size ≤ j then 0 else b.byte j := by
  have hsub : (needed - start).toNat = needed.toNat - b.size := by
    rw [← hstart]
    exact UInt64.toNat_sub_of_le _ _ (UInt64.le_iff_toNat_le.mpr (by omega))
  have hwithin : start.toNat + (needed - start).toNat ≤ needed.toNat := by omega
  refine ⟨_, _, rfl, if_pos hwithin, rfl, ?_⟩
  intro j hj
  dsimp only
  by_cases hold : b.size ≤ j
  · rw [if_pos ⟨by omega, by omega⟩, if_pos hold]
  · rw [if_neg (by omega), if_pos (by omega), if_neg hold]

/-- The index moves past the cells that there are, and zeros are added up to it. -/
theorem moveRight_grows (junk : Nat → Nat → UInt8) (h : Holds t s)
    (hge : t.length ≤ s.index.toNat + n) (hmost : s.index.toNat + n < maxIndex) :
    ∃ s', Native.moveRight junk (.ofNat n) s = .ok () s' ∧ s'.index.toNat = s.index.toNat + n ∧
      s'.length.toNat = s.index.toNat + n + 1 ∧ s'.cells.size = s.index.toNat + n + 1 ∧
      (∀ j, j < s.index.toNat + n + 1 →
        s'.cells.byte j = if t.length ≤ j then 0 else s.cells.byte j) ∧ s.Quiet s' := by
  have hlength := h.length
  have hsize := h.size
  have hmax : maxIndex = 0x7FFF_FFFF_FFFF_FFFF := rfl
  obtain ⟨hnear, hadd⟩ := toNat_index_add h hmost
  have houtside : ¬ s.index + UInt64.ofNat n < s.length := by
    rw [UInt64.lt_iff_toNat_lt, hadd]
    omega
  have hone : (1 : UInt64).toNat = 1 := rfl
  have hneeded : (s.index + UInt64.ofNat n + 1).toNat = s.index.toNat + n + 1 := by
    rw [UInt64.toNat_add, hadd, hone]
    omega
  have hstart : s.length.toNat = s.cells.size := by omega
  have hle : s.cells.size ≤ (s.index + UInt64.ofNat n + 1).toNat := by omega
  obtain ⟨grown, cells, hgrown, hcells, hcellsSize, hbyte⟩ := memset_realloc junk hstart hle
  refine ⟨{ s with
    cells, length := s.index + UInt64.ofNat n + 1, index := s.index + UInt64.ofNat n }, ?_, hadd,
    hneeded, hcellsSize.trans hneeded, ?_, rfl, rfl, rfl⟩
  · rw [Native.moveRight, if_neg hnear]
    dsimp only
    rw [if_neg houtside, hgrown]
    dsimp only
    rw [hcells]
  · intro j hj
    rw [← hsize]
    exact hbyte j (by omega)

/-- A move to the right keeps the two together, unless the host runs short. -/
theorem moveRight_holds (junk : Nat → Nat → UInt8) (h : Holds t s) (n : Nat) :
    (∃ e u, Tape.moveRight n t = .error e u ∧ e.IsShortage) ∨
      ∃ u s', Tape.moveRight n t = .ok () u ∧ Native.moveRight junk (.ofNat n) s = .ok () s' ∧
        Holds u s' ∧ s.Quiet s' := by
  have hnonneg := h.inBounds.nonneg
  have hindex := h.index
  have hroom := h.room
  obtain ⟨e, hu, he, -⟩ | ⟨u, hu, huroom, hucells, hucursor, hulength⟩ :=
    Tape.moveRight_cases h.inBounds n
  · exact Or.inl ⟨e, _, hu, he⟩
  right
  have hcell : ∀ j, u.cell j = t.cell j := by
    intro j
    rw [Tape.cell, Tape.cell, hucells]
  have hule := u.length_le
  have huIn : u.InBounds := ⟨by omega, by omega⟩
  by_cases hstay : s.index.toNat + n < t.length
  · obtain ⟨s', hs', hindex', hlength', hcells', hquiet⟩ := moveRight_stays junk h hstay
    have hsame : u.length = t.length := by omega
    refine ⟨u, s', hu, hs', ⟨huIn, by omega, ?_, ?_, by omega, ?_⟩, hquiet⟩
    · rw [hlength', hsame, h.length]
    · rw [hcells', hsame, h.size]
    · intro j hj
      rw [hcells', hcell, h.byte j (by omega)]
  · obtain ⟨s', hs', hindex', hlength', hsize', hbyte', hquiet⟩ :=
      moveRight_grows (n := n) junk h (by omega) (by omega)
    refine ⟨u, s', hu, hs', ⟨huIn, by omega, by omega, by omega, by omega, ?_⟩, hquiet⟩
    intro j hj
    rw [hbyte' j (by omega), hcell]
    by_cases hold : t.length ≤ j
    · rw [if_pos hold, Tape.cell_of_length_le hold]
    · rw [if_neg hold, h.byte j (by omega)]

/-- A move to the left fails on both sides or keeps the two together. -/
theorem moveLeft_holds (h : Holds t s) (hn : n < 0x1_0000_0000_0000_0000) :
    (Tape.moveLeft n t = .error (.negativeAddress n t.cursor) t ∧
      Native.moveLeft (.ofNat n) s =
        Native.fail "negative memory addresses are invalid" s) ∨
      ∃ u s', Tape.moveLeft n t = .ok () u ∧ Native.moveLeft (.ofNat n) s = .ok () s' ∧
        Holds u s' ∧ s.Quiet s' := by
  have hlt := h.inBounds.lt_length
  have hindex := h.index
  have hof := toNat_ofNat hn
  by_cases hfar : t.cursor < n
  · left
    have hfar' : s.index < UInt64.ofNat n := by
      rw [UInt64.lt_iff_toNat_lt, hof]
      omega
    rw [Tape.moveLeft, if_pos hfar, Native.moveLeft, if_pos hfar']
    exact ⟨rfl, rfl⟩
  · right
    have hnear : ¬ s.index < UInt64.ofNat n := by
      rw [UInt64.lt_iff_toNat_lt, hof]
      omega
    have hsub : (s.index - UInt64.ofNat n).toNat = s.index.toNat - n := by
      rw [UInt64.toNat_sub_of_le _ _ (UInt64.le_iff_toNat_le.mpr (by omega)), hof]
    refine ⟨{ t with cursor := t.cursor - n }, { s with index := s.index - UInt64.ofNat n }, ?_, ?_,
      ⟨⟨by dsimp only; omega, by dsimp only; omega⟩, h.room, h.length, h.size,
        by dsimp only; omega, h.byte⟩, rfl, rfl, rfl⟩
    · rw [Tape.moveLeft, if_neg hfar]
    · rw [Native.moveLeft, if_neg hnear]

end Emit

end Brainfuck
