import Brainfuck.Proofs.Execution.Progress
import Brainfuck.Proofs.Tape.Bounds

/-! Operations of one kind in a row, and the one operation with the sum of their counts. -/
namespace Brainfuck

namespace Count

/-- The sum of some counts. -/
def total : List Count → Nat
  | [] => 0
  | n :: ns => n.val + total ns

theorem total_append (ms ns : List Count) : total (ms ++ ns) = total ms + total ns := by
  induction ms with
  | nil => exact (Nat.zero_add _).symm
  | cons m ms ih =>
    rw [List.cons_append, total, total, ih, Nat.add_assoc]

end Count

namespace Tape

open Brainfuck.Count (total)

/-- Operations of one kind, one for each count; the first that fails is the last. -/
def applyAll (op : TapeOp) (ns : List Count) : EStateM TapeError Tape Unit :=
  forM ns fun n => apply op n.val

/-- What a move to the right does where it goes through. -/
structure Reaches (t : Tape) (n : Nat) (u : Tape) : Prop where
  room : u.room = t.room
  cells : u.cells = t.cells
  cursor : u.cursor = t.cursor + n
  length : (u.length : Int) = max (t.length : Int) (t.cursor + n + 1)

/-- The operation changes the cell under the cursor, and two changes are one by the sum of their
counts. -/
structure Adds (op : TapeOp) (f : Nat → UInt8 → UInt8) : Prop where
  change : ∀ n : Nat, apply op n = update (f n)
  zero : ∀ x, f 0 x = x
  add : ∀ a b x, f (a + b) x = f b (f a x)

/-- Both would leave the first cell behind, and the cells and the length stay as they were. Of moves to the
left one fails, after some that have moved the cursor; the one move by their sum moves nothing. -/
inductive Underruns (t : Tape) (ns : List Count) : TapeError → Tape → TapeError → Tape → Prop
  | intro {before n after} (split : ns = before ++ n :: after) (early : total before ≤ t.cursor) :
    Underruns t ns (.negativeAddress n.val (t.cursor - total before))
      { t with cursor := t.cursor - total before } (.negativeAddress (total ns) t.cursor) t

variable {t u v : Tape} {op : TapeOp} {n : Count} {ns : List Count} {e : TapeError} {a b j : Nat}
  {m : Int} {f : Nat → UInt8 → UInt8}

theorem applyAll_nil (op : TapeOp) (t : Tape) : applyAll op [] t = .ok () t := rfl

theorem applyAll_cons_ok (h : apply op n.val t = .ok () u) :
    applyAll op (n :: ns) t = applyAll op ns u := by
  simp only [applyAll, List.forM_cons, bind, EStateM.bind, h]

theorem applyAll_cons_error (h : apply op n.val t = .error e u) :
    applyAll op (n :: ns) t = .error e u := by
  simp only [applyAll, List.forM_cons, bind, EStateM.bind, h]

theorem exists_of_applyAll_cons (h : applyAll op (n :: ns) t = .ok () v) :
    ∃ u, apply op n.val t = .ok () u ∧ applyAll op ns u = .ok () v := by
  cases hn : apply op n.val t with
  | ok x u => exact ⟨u, rfl, (applyAll_cons_ok hn).symm.trans h⟩
  | error e u =>
    rw [applyAll_cons_error hn] at h
    cases h

/-- Operations go through, all of them or those before the first that fails. -/
theorem applyAll_cases (op : TapeOp) (ns : List Count) (t : Tape) :
    (∃ u, applyAll op ns t = .ok () u) ∨
      ∃ before n after w e u, ns = before ++ n :: after ∧ applyAll op before t = .ok () w ∧
        apply op n.val w = .error e u ∧ applyAll op ns t = .error e u := by
  induction ns generalizing t with
  | nil => exact Or.inl ⟨t, applyAll_nil op t⟩
  | cons n ns ih =>
    cases hn : apply op n.val t with
    | error e u => exact Or.inr ⟨[], n, ns, t, e, u, rfl, rfl, hn, applyAll_cons_error hn⟩
    | ok x u =>
      rw [applyAll_cons_ok hn]
      obtain hok | ⟨before, m, after, w, e, v, rfl, hw, hm, hv⟩ := ih u
      · exact Or.inl hok
      · exact Or.inr ⟨n :: before, m, after, w, e, v, rfl, (applyAll_cons_ok hn).trans hw, hm, hv⟩

/-! Moves to the right. -/

theorem reaches_zero (h : t.InBounds) : t.Reaches 0 t := by
  have hlt := h.lt_length
  exact ⟨rfl, rfl, by omega, by omega⟩

theorem reaches_trans (hu : t.Reaches a u) (hv : u.Reaches b v) : t.Reaches (a + b) v := by
  have hcursor := hu.cursor
  have hlength := hu.length
  have hcursor' := hv.cursor
  have hlength' := hv.length
  exact ⟨hv.room.trans hu.room, hv.cells.trans hu.cells, by omega, by omega⟩

theorem inBounds_of_reaches (h : t.InBounds) (hu : t.Reaches a u) : u.InBounds := by
  have hnonneg := h.nonneg
  have hcursor := hu.cursor
  have hlength := hu.length
  exact ⟨by omega, by omega⟩

theorem same_of_reaches (hu : t.Reaches a u) (hv : t.Reaches a v) : Same u v where
  room := hu.room.trans hv.room.symm
  length := by
    have hlength := hu.length
    have hlength' := hv.length
    omega
  cursor := hu.cursor.trans hv.cursor.symm
  cell := by
    intro j
    rw [cell, cell, hu.cells, hv.cells]

theorem reaches_of_ok (h : t.InBounds) (hu : apply .moveRight a t = .ok () u) :
    t.Reaches a u := by
  change moveRight a t = .ok () u at hu
  obtain ⟨e, he, -⟩ | ⟨w, hw, hroom, hcells, hcursor, hlength⟩ := moveRight_cases h a
  · rw [hu] at he
    cases he
  · rw [hu] at hw
    cases hw
    exact ⟨hroom, hcells, hcursor, hlength⟩

/-- Moves to the right that go through get where their sum leads. -/
theorem reaches_of_applyAll (h : t.InBounds) (hu : applyAll .moveRight ns t = .ok () u) :
    t.Reaches (total ns) u := by
  induction ns generalizing t with
  | nil =>
    cases hu
    exact reaches_zero h
  | cons n ns ih =>
    obtain ⟨w, hn, hrest⟩ := exists_of_applyAll_cons hu
    have hfirst := reaches_of_ok h hn
    rw [total]
    exact reaches_trans hfirst (ih (inBounds_of_reaches h hfirst) hrest)

/-- A move that asks for no more cells than a block has can only lack memory. -/
theorem outOfMemory_of_moveRight (h : t.InBounds)
    (hblock : t.cursor + a + 1 - t.length ≤ maxBlock)
    (he : apply .moveRight a t = .error e u) : e = .outOfMemory := by
  by_cases hroom : t.cursor + a + 1 ≤ t.room
  · obtain ⟨v, hv⟩ : ∃ v, apply .moveRight a t = .ok () v :=
      (moveRight_ok_iff h a).mpr ⟨hblock, hroom⟩
    rw [hv] at he
    cases he
  · have hstop : apply .moveRight a t = _ := moveRight_exhausts hblock (Int.not_le.mp hroom)
    rw [hstop] at he
    cases he
    rfl

/-- Nor can one of several moves lack anything else, if their sum asks for no more. -/
theorem outOfMemory_of_applyAll (h : t.InBounds)
    (hblock : t.cursor + total ns + 1 - t.length ≤ maxBlock)
    (he : applyAll .moveRight ns t = .error e u) : e = .outOfMemory := by
  obtain ⟨v, hv⟩ | ⟨before, n, after, w, e', v, hsplit, hw, hn, hv⟩ :=
    applyAll_cases .moveRight ns t
  · rw [hv] at he
    cases he
  · rw [hv] at he
    cases he
    have hreach := reaches_of_applyAll h hw
    have hcursor := hreach.cursor
    have hlength := hreach.length
    have htotal : total ns = total before + (n.val + total after) := by
      rw [hsplit, Count.total_append, total]
    exact outOfMemory_of_moveRight (inBounds_of_reaches h hreach) (by omega) hn

/-- Moves to the right go through where there is room for the place that their sum leads to. -/
theorem applyAll_goes (h : t.InBounds) (hblock : t.cursor + total ns + 1 - t.length ≤ maxBlock)
    (hroom : t.cursor + total ns + 1 ≤ t.room) : ∃ u, applyAll .moveRight ns t = .ok () u := by
  induction ns generalizing t with
  | nil => exact ⟨t, applyAll_nil .moveRight t⟩
  | cons n ns ih =>
    rw [total] at hblock hroom
    obtain ⟨w, hw⟩ : ∃ w, apply .moveRight n.val t = .ok () w :=
      (moveRight_ok_iff h n.val).mpr ⟨by omega, by omega⟩
    have hreach := reaches_of_ok h hw
    have hcursor := hreach.cursor
    have hlength := hreach.length
    have hsame := hreach.room
    obtain ⟨u, hu⟩ := ih (inBounds_of_reaches h hreach) (by omega) (by omega)
    exact ⟨u, (applyAll_cons_ok hw).trans hu⟩

theorem same_of_applyAll (h : t.InBounds) (hu : applyAll .moveRight ns t = .ok () u)
    (hv : apply .moveRight (total ns) t = .ok () v) : Same u v :=
  same_of_reaches (reaches_of_applyAll h hu) (reaches_of_ok h hv)

/-! Changes of the cell under the cursor. -/

theorem adds_increment : Adds .increment fun n x => x + .ofInt n where
  change _ := rfl
  zero x := UInt8.add_zero x
  add a b x := by
    rw [Int.natCast_add, UInt8.ofInt_add]
    exact (UInt8.add_assoc _ _ _).symm

theorem adds_decrement : Adds .decrement fun n x => x - .ofInt n where
  change _ := rfl
  zero x := UInt8.sub_zero x
  add a b x := by
    rw [Int.natCast_add, UInt8.ofInt_add]
    grind

/-- Changes that add up leave in the cell what their sum leaves there. -/
theorem applyAll_writes (h : Adds op f) (hp : t.place = .ok j) (ns : List Count) :
    ∃ u, applyAll op ns t = .ok () u ∧ Writes t j (f (total ns) (t.cell j)) u := by
  induction ns generalizing t with
  | nil =>
    refine ⟨t, applyAll_nil op t, rfl, rfl, rfl, fun k => ?_⟩
    rw [total, h.zero]
    split
    next hk => rw [hk]
    next => rfl
  | cons n ns ih =>
    obtain ⟨u, hu, hw⟩ := update_of_place hp (f n.val)
    have hpu : u.place = .ok j := (place_congr hw.length hw.cursor).trans hp
    obtain ⟨v, hv, hx⟩ := ih hpu
    rw [hw.cell, if_pos rfl, ← h.add] at hx
    rw [← h.change] at hu
    exact ⟨v, (applyAll_cons_ok hu).trans hv, writes_trans hw hx⟩

theorem change_summed (h : Adds op f) (hp : t.place = .ok j) :
    ∃ u v, applyAll op ns t = .ok () u ∧ apply op (total ns) t = .ok () v ∧ Same u v := by
  obtain ⟨u, hu, hw⟩ := applyAll_writes h hp ns
  obtain ⟨v, hv, hx⟩ := update_of_place hp (f (total ns))
  rw [← h.change] at hv
  exact ⟨u, v, hu, hv, same_of_writes (same_refl t) hw hx⟩

/-! Moves to the left. -/

theorem moveLeft_eq_ok_iff : apply .moveLeft m t = .ok () u ↔
    m ≤ t.cursor ∧ u = { t with cursor := t.cursor - m } := by
  change moveLeft m t = .ok () u ↔ _
  unfold moveLeft
  split
  next h => exact iff_of_false (by simp) (by omega)
  next h =>
    rw [EStateM.Result.ok.injEq]
    exact ⟨fun hu => ⟨Int.not_lt.mp h, hu.2.symm⟩, fun hu => ⟨rfl, hu.2.symm⟩⟩

theorem moveLeft_eq_error_iff : apply .moveLeft m t = .error e u ↔
    t.cursor < m ∧ e = .negativeAddress m t.cursor ∧ u = t := by
  change moveLeft m t = .error e u ↔ _
  unfold moveLeft
  split
  next h =>
    rw [EStateM.Result.error.injEq]
    exact ⟨fun he => ⟨h, he.1.symm, he.2.symm⟩, fun he => ⟨he.2.1.symm, he.2.2.symm⟩⟩
  next h => exact iff_of_false (by simp) (fun he => h he.1)

/-- Moves to the left that go through move the cursor by their sum and do nothing else. -/
theorem moved_of_applyAll (h : t.InBounds) (hu : applyAll .moveLeft ns t = .ok () u) :
    total ns ≤ t.cursor ∧ u = { t with cursor := t.cursor - total ns } := by
  induction ns generalizing t with
  | nil =>
    cases hu
    exact ⟨h.nonneg, by simp only [total, Int.natCast_zero, Int.sub_zero]⟩
  | cons n ns ih =>
    obtain ⟨w, hn, hrest⟩ := exists_of_applyAll_cons hu
    obtain ⟨hle, rfl⟩ := moveLeft_eq_ok_iff.mp hn
    have hlt := h.lt_length
    have hin : InBounds { t with cursor := t.cursor - n.val } :=
      ⟨by dsimp only; omega, by dsimp only; omega⟩
    obtain ⟨hle', rfl⟩ := ih hin hrest
    dsimp only at hle' ⊢
    rw [total, Int.natCast_add, Int.sub_sub]
    exact ⟨by omega, rfl⟩

theorem moveLeft_summed (h : t.InBounds) :
    Related Same (Underruns t ns) (applyAll .moveLeft ns t) (apply .moveLeft (total ns) t) := by
  obtain ⟨u, hu⟩ | ⟨before, n, after, w, e, u, hsplit, hw, hn, hu⟩ :=
    applyAll_cases .moveLeft ns t
  · have hmoved := moved_of_applyAll h hu
    rw [hu, moveLeft_eq_ok_iff.mpr hmoved]
    exact ⟨rfl, same_refl u⟩
  · obtain ⟨hle, rfl⟩ := moved_of_applyAll h hw
    obtain ⟨hshort, rfl, rfl⟩ := moveLeft_eq_error_iff.mp hn
    have htotal : total ns = total before + (n.val + total after) := by
      rw [hsplit, Count.total_append, total]
    have hlt : t.cursor < total ns := by
      dsimp only at hshort
      omega
    rw [hu, moveLeft_eq_error_iff.mpr ⟨hlt, rfl, rfl⟩]
    exact .intro hsplit hle

/-- Operations of one kind in a row do what one of the summed count does. Moves to the right do as long as
one block has the cells that are missing: then memory is all that either can lack, and if both go through
they leave the same; beyond one block the one move fails. Moves to the left go through or fail together, and
where they fail the cells and the length are what they were. -/
theorem applyAll_summed (h : t.InBounds) (hlength : t.length ≤ maxIndex) (ns : List Count) :
    (∀ v, apply .moveRight (total ns) t = .ok () v →
      t.cursor + total ns + 1 - t.length ≤ maxBlock) ∧
    (t.cursor + total ns + 1 - t.length ≤ maxBlock →
      (∀ e u, applyAll .moveRight ns t = .error e u → e = .outOfMemory) ∧
      (∀ e v, apply .moveRight (total ns) t = .error e v → e = .outOfMemory) ∧
      (∀ u v, applyAll .moveRight ns t = .ok () u → apply .moveRight (total ns) t = .ok () v →
        Same u v) ∧
      (t.cursor + total ns + 1 ≤ t.room → (∃ u, applyAll .moveRight ns t = .ok () u) ∧
        ∃ v, apply .moveRight (total ns) t = .ok () v)) ∧
    (∀ op, op = .increment ∨ op = .decrement → ∃ u v, applyAll op ns t = .ok () u ∧
      apply op (total ns) t = .ok () v ∧ Same u v) ∧
    ((∃ v, apply .moveLeft (total ns) t = .ok () v) ↔ total ns ≤ t.cursor) ∧
    Related Same (Underruns t ns) (applyAll .moveLeft ns t) (apply .moveLeft (total ns) t) := by
  have hp := place_of_inBounds h hlength
  refine ⟨?_, fun hblock => ⟨?_, ?_, ?_, fun hroom => ⟨?_, ?_⟩⟩, ?_, ?_, moveLeft_summed h⟩
  · intro v hv
    exact ((moveRight_ok_iff h (total ns)).mp ⟨v, hv⟩).1
  · intro e u
    exact outOfMemory_of_applyAll h hblock
  · intro e v
    exact outOfMemory_of_moveRight h hblock
  · intro u v
    exact same_of_applyAll h
  · exact applyAll_goes h hblock hroom
  · exact (moveRight_ok_iff h (total ns)).mpr ⟨hblock, hroom⟩
  · rintro op (rfl | rfl)
    · exact change_summed adds_increment hp
    · exact change_summed adds_decrement hp
  · constructor
    · rintro ⟨v, hv⟩
      exact (moveLeft_eq_ok_iff.mp hv).1
    · intro hle
      exact ⟨_, moveLeft_eq_ok_iff.mpr ⟨hle, rfl⟩⟩

/-- From the third of four cells, with room for eight: moves to the right that grow the tape twice,
changes that wrap, and moves to the left of which only the first goes through. -/
theorem applyAll_summed_from_third :
    ∃ t : Tape, t.InBounds ∧ t.length ≤ maxIndex ∧
      t.cursor + (total [⟨2, by decide⟩, ⟨3, by decide⟩] : Nat) + 1 - t.length ≤ maxBlock ∧
      (∃ u v, applyAll .moveRight [⟨2, by decide⟩, ⟨3, by decide⟩] t = .ok () u ∧
        apply .moveRight 5 t = .ok () v ∧ Same u v ∧ v.length = 8) ∧
      (∃ u v, applyAll .increment [⟨200, by decide⟩, ⟨100, by decide⟩] t = .ok () u ∧
        apply .increment 300 t = .ok () v ∧ Same u v ∧ v.cell 2 = 44) ∧
      ∃ e u e' v, applyAll .moveLeft [.one, ⟨2, by decide⟩] t = .error e u ∧
        apply .moveLeft 3 t = .error e' v ∧ Underruns t [.one, ⟨2, by decide⟩] e u e' v ∧
        u.cursor = 1 := by
  have hbounds : InBounds ⟨8, 4, 2, .zero, by decide, by decide, by decide⟩ :=
    ⟨by decide, by decide⟩
  have hblock : (2 : Int) + (total [⟨2, by decide⟩, ⟨3, by decide⟩] : Nat) + 1 - (4 : Nat) ≤
      maxBlock := by decide
  obtain ⟨-, hright, -⟩ :=
    applyAll_summed hbounds (by decide) [⟨2, by decide⟩, ⟨3, by decide⟩]
  obtain ⟨-, -, hchange, -⟩ :=
    applyAll_summed hbounds (by decide) [⟨200, by decide⟩, ⟨100, by decide⟩]
  obtain ⟨-, -, -, -, hleft⟩ := applyAll_summed hbounds (by decide) [.one, ⟨2, by decide⟩]
  refine ⟨_, hbounds, by decide, hblock, ?_, ?_, ?_⟩
  · obtain ⟨-, -, hsame, hgoes⟩ := hright hblock
    obtain ⟨⟨u, hu⟩, v, hv⟩ := hgoes (by decide)
    cases hv
    exact ⟨u, _, hu, rfl, hsame _ _ hu rfl, rfl⟩
  · obtain ⟨u, v, hu, hv, hsame⟩ := hchange .increment (.inl rfl)
    cases hv
    exact ⟨u, _, hu, rfl, hsame, by decide +kernel⟩
  · obtain ⟨e, u, hu, hunder⟩ := related_error_right hleft rfl
    cases hu
    exact ⟨_, _, _, _, rfl, rfl, hunder, rfl⟩

/-- One move may find no memory where the first of two does, and may ask for more than a block where
neither of two does. -/
theorem summed_move_differs :
    (∃ t, create usualRoom 1 = .ok t ∧
      total [.one, ⟨0x4000_0000_0000_0000, by decide⟩] ≤ maxIndex ∧
      (leaves (applyAll .moveRight [.one, ⟨0x4000_0000_0000_0000, by decide⟩] t)).length = 2 ∧
      (leaves (apply .moveRight 0x4000_0000_0000_0001 t)).length = 1) ∧
    ∃ t, create maxIndex 1 = .ok t ∧
      total [⟨0x4000_0000_0000_0000, by decide⟩, ⟨0x3FFF_FFFF_FFFF_FFF5, by decide⟩] ≤
        maxIndex ∧
      failure (applyAll .moveRight
        [⟨0x4000_0000_0000_0000, by decide⟩, ⟨0x3FFF_FFFF_FFFF_FFF5, by decide⟩] t) = none ∧
      failure (apply .moveRight 0x7FFF_FFFF_FFFF_FFF5 t) = some .blockTooLarge := by
  refine ⟨⟨_, rfl, ?_, ?_, ?_⟩, _, rfl, ?_, ?_, ?_⟩
  all_goals decide +kernel

end Tape

end Brainfuck
