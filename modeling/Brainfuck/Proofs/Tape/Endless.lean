import Brainfuck.Proofs.Tape.Bounds
import Mathlib.Data.ZMod.Basic

/-! The tape beside one without end, on which every cell is there from the start: a number modulo 256. A move
too far to the left names its count, at any length (see `Text.maxDigits`). -/
namespace Brainfuck

/-- What can be asked of a tape. Moves go one cell at least; amounts and values are any numbers. -/
inductive Operation
  | moveRight (n : Count)
  | moveLeft (n : Count)
  | increment (n : Int)
  | decrement (n : Int)
  | write (value : Int)
  | read

/-- What an operation shows. -/
inductive Reply
  | done
  | value (v : Nat)
  | failed (e : TapeError)
  deriving DecidableEq

/-- A cursor among cells that are numbers modulo 256. -/
structure EndlessTape where
  cursor : Nat
  cell : Nat → ZMod 256

namespace EndlessTape

def start : EndlessTape := ⟨0, fun _ => 0⟩

/-- Changes the cell under the cursor. -/
def update (z : EndlessTape) (f : ZMod 256 → ZMod 256) : EndlessTape :=
  { z with cell := Function.update z.cell z.cursor (f (z.cell z.cursor)) }

/-- A move to the left of the first cell is skipped. -/
def step (z : EndlessTape) : Operation → EndlessTape
  | .moveRight n => { z with cursor := z.cursor + n.val }
  | .moveLeft n => if z.cursor < n.val then z else { z with cursor := z.cursor - n.val }
  | .increment n => z.update (· + n)
  | .decrement n => z.update (· - n)
  | .write v => z.update fun _ => v
  | .read => z

def reply (z : EndlessTape) : Operation → Reply
  | .moveLeft n => if z.cursor < n.val then .failed (.negativeAddress n.val z.cursor) else .done
  | .read => .value (z.cell z.cursor).val
  | _ => .done

/-- The tape after some operations. -/
def after (z : EndlessTape) (ops : List Operation) : EndlessTape := ops.foldl step z

/-- What some operations in a row show. -/
def replies (z : EndlessTape) : List Operation → List Reply
  | [] => []
  | op :: ops => z.reply op :: (z.step op).replies ops

/-- The largest cursor that some operations come to. -/
def reach (z : EndlessTape) : List Operation → Nat
  | [] => z.cursor
  | op :: ops => max z.cursor ((z.step op).reach ops)

/-- From so many cells on, the operations stay where there is room for the cells, and no move asks for more
new cells than a block has. -/
def Fits (room : Nat) : Nat → EndlessTape → List Operation → Prop
  | _, _, [] => True
  | length, z, op :: ops =>
    (z.step op).cursor < room ∧ (z.step op).cursor + 1 - length ≤ maxBlock ∧
      Fits room (max length ((z.step op).cursor + 1)) (z.step op) ops

instance decidableFits (room length : Nat) (z : EndlessTape) :
    (ops : List Operation) → Decidable (Fits room length z ops)
  | [] => inferInstanceAs (Decidable True)
  | op :: ops =>
    have := decidableFits room (max length ((z.step op).cursor + 1)) (z.step op) ops
    inferInstanceAs (Decidable (_ ∧ _ ∧ Fits _ _ _ ops))

end EndlessTape

namespace Tape

/-- An operation on the tape, with the byte that a read gives. -/
def perform : Operation → EStateM TapeError Tape (Option UInt8)
  | .moveRight n => do
    moveRight n.val
    return none
  | .moveLeft n => do
    moveLeft n.val
    return none
  | .increment n => do
    increment n
    return none
  | .decrement n => do
    decrement n
    return none
  | .write v => do
    write v
    return none
  | .read => return some (← read)

/-- What an operation shows, and the tape it leaves, also where it fails. -/
def respond (t : Tape) (op : Operation) : Reply × Tape :=
  match perform op t with
  | .ok none u => (.done, u)
  | .ok (some b) u => (.value b.toNat, u)
  | .error e u => (.failed e, u)

/-- The tape after some operations, whether or not they fail. -/
def after (t : Tape) (ops : List Operation) : Tape := ops.foldl (fun t op => (t.respond op).2) t

def replies (t : Tape) : List Operation → List Reply
  | [] => []
  | op :: ops => (t.respond op).1 :: (t.respond op).2.replies ops

end Tape

/-- A byte as a number modulo 256. -/
def residue (v : UInt8) : ZMod 256 := (v.toNat : ZMod 256)

theorem residue_val (v : UInt8) : (residue v).val = v.toNat :=
  ZMod.val_natCast_of_lt v.toNat_lt

theorem residue_add (a b : UInt8) : residue (a + b) = residue a + residue b := by
  rw [residue, UInt8.toNat_add, ZMod.natCast_mod, Nat.cast_add]
  rfl

theorem residue_sub (a b : UInt8) : residue (a - b) = residue a - residue b := by
  rw [eq_sub_iff_add_eq, ← residue_add, UInt8.sub_add_cancel]

theorem residue_ofInt (n : Int) : residue (.ofInt n) = n := by
  have hval : ((UInt8.ofInt n).toNat : Int) = n % (256 : Nat) := Tape.toNat_ofInt n
  rw [residue, ← Int.cast_natCast, hval, ZMod.intCast_mod]

namespace EndlessTape

variable {z : EndlessTape} {room length : Nat} {early ops : List Operation}

theorem cell_update (z : EndlessTape) (g : ZMod 256 → ZMod 256) (j : Nat) :
    (z.update g).cell j = if z.cursor = j then g (z.cell z.cursor) else z.cell j := by
  simp only [update, Function.update_apply, eq_comm]

theorem cursor_le_reach (z : EndlessTape) : ∀ ops, z.cursor ≤ z.reach ops
  | [] => Nat.le_refl _
  | _ :: _ => Nat.le_max_left _ _

theorem fits_of_prefix (h : early <+: ops) (hfits : Fits room length z ops) :
    Fits room length z early := by
  induction early generalizing z length ops with
  | nil => trivial
  | cons op early ih =>
    obtain ⟨rest, rfl⟩ := h
    obtain ⟨hroom, hblock, hrest⟩ := hfits
    exact ⟨hroom, hblock, ih (List.prefix_append _ _) hrest⟩

end EndlessTape

namespace Tape

variable {t u : Tape} {z : EndlessTape} {op : Operation} {n : Count} {early ops : List Operation}

/-- The same cursor among cells of the same values, where those past the end count as zero. -/
structure Represents (t : Tape) (z : EndlessTape) : Prop where
  cursor : t.cursor = z.cursor
  cell : ∀ j, residue (t.cell j) = z.cell j
  inBounds : t.InBounds

/-- The tape shows what the endless one shows, and has grown up to the cursor if it was shorter. -/
structure Refines (t : Tape) (z : EndlessTape) (op : Operation) : Prop where
  reply : (t.respond op).1 = z.reply op
  represents : (t.respond op).2.Represents (z.step op)
  room : (t.respond op).2.room = t.room
  length : (t.respond op).2.length = max t.length ((z.step op).cursor + 1)

theorem moveRight_refines (h : t.Represents z) (hroom : z.cursor + n.val < t.room)
    (hblock : z.cursor + n.val + 1 - t.length ≤ maxBlock) : t.Refines z (.moveRight n) := by
  have hcursor := h.cursor
  obtain ⟨u, hu, hur, hcells, huc, hlength⟩ :=
    moveRight_grows (n := n) h.inBounds (by omega) (by omega)
  have hrespond : t.respond (.moveRight n) = (.done, u) := by
    simp only [respond, perform, bind, EStateM.bind, hu, pure, EStateM.pure]
  have hnonneg := h.inBounds.nonneg
  refine ⟨?_, ?_, ?_, ?_⟩
  · rw [hrespond]
    rfl
  · rw [hrespond]
    refine ⟨?_, fun j => ?_, by dsimp only; omega, by dsimp only; omega⟩
    · simp only [EndlessTape.step]
      omega
    · rw [cell, hcells]
      exact h.cell j
  · rw [hrespond]
    exact hur
  · rw [hrespond]
    simp only [EndlessTape.step]
    omega

/-- A move that would pass the first cell fails on both tapes and leaves them. -/
theorem moveLeft_refines (h : t.Represents z) : t.Refines z (.moveLeft n) := by
  have hcursor := h.cursor
  have hlt := h.inBounds.lt_length
  by_cases hshort : z.cursor < n.val
  · have hrespond : t.respond (.moveLeft n) = (.failed (.negativeAddress n.val z.cursor), t) := by
      simp only [respond, perform, bind, EStateM.bind, moveLeft]
      rw [if_pos (by omega), hcursor]
    have hstep : z.step (.moveLeft n) = z := if_pos hshort
    refine ⟨?_, ?_, ?_, ?_⟩
    · rw [hrespond]
      exact (if_pos hshort).symm
    · rw [hrespond, hstep]
      exact h
    · rw [hrespond]
    · rw [hrespond, hstep]
      dsimp only
      omega
  · have hrespond : t.respond (.moveLeft n) = (.done, { t with cursor := t.cursor - n.val }) := by
      simp only [respond, perform, bind, EStateM.bind, moveLeft]
      rw [if_neg (by omega)]
      rfl
    have hstep : z.step (.moveLeft n) = { z with cursor := z.cursor - n.val } := if_neg hshort
    refine ⟨?_, ?_, ?_, ?_⟩
    · rw [hrespond]
      exact (if_neg hshort).symm
    · rw [hrespond, hstep]
      exact ⟨by dsimp only; omega, h.cell, by dsimp only; omega, by dsimp only; omega⟩
    · rw [hrespond]
    · rw [hrespond, hstep]
      dsimp only
      omega

theorem place_of_represents (h : t.Represents z) (hindex : t.room ≤ maxIndex) :
    t.place = .ok z.cursor := by
  have hlength := t.length_le
  have hcursor := h.cursor
  rw [place_of_inBounds h.inBounds (by omega), hcursor]
  rfl

/-- A change of a byte that is the same change modulo 256. -/
theorem update_represents {f : UInt8 → UInt8} {g : ZMod 256 → ZMod 256} (h : t.Represents z)
    (hindex : t.room ≤ maxIndex) (hf : ∀ v, residue (f v) = g (residue v)) :
    ∃ u, update f t = .ok () u ∧ u.Represents (z.update g) ∧ u.room = t.room ∧
      u.length = t.length := by
  obtain ⟨u, hu, hw⟩ := update_of_place (place_of_represents h hindex) f
  refine ⟨u, hu, ⟨?_, fun j => ?_, inBounds_of_writes h.inBounds hw⟩, hw.room, hw.length⟩
  · rw [hw.cursor, h.cursor]
    rfl
  · rw [hw.cell, EndlessTape.cell_update]
    by_cases hj : z.cursor = j
    · rw [if_pos hj, if_pos hj, hf, h.cell]
    · rw [if_neg hj, if_neg hj, h.cell]

/-- The operations that change the cell under the cursor. -/
theorem update_refines {f : UInt8 → UInt8} {g : ZMod 256 → ZMod 256} (h : t.Represents z)
    (hindex : t.room ≤ maxIndex) (hf : ∀ v, residue (f v) = g (residue v))
    (hperform : perform op = (do update f; return none)) (hstep : z.step op = z.update g)
    (hreply : z.reply op = .done) : t.Refines z op := by
  obtain ⟨u, hu, hrep, hroom, hlength⟩ := update_represents h hindex hf
  have hrespond : t.respond op = (.done, u) := by
    simp only [respond, hperform, bind, EStateM.bind, hu, pure, EStateM.pure]
  have hcursor := hrep.cursor
  have hlt := hrep.inBounds.lt_length
  refine ⟨?_, ?_, ?_, ?_⟩
  · rw [hrespond, hreply]
  · rw [hrespond, hstep]
    exact hrep
  · rw [hrespond]
    exact hroom
  · rw [hrespond, hstep]
    dsimp only
    omega

theorem read_refines (h : t.Represents z) (hindex : t.room ≤ maxIndex) : t.Refines z .read := by
  have hcursor := h.cursor
  have hlt := h.inBounds.lt_length
  have hread := read_of_place (place_of_represents h hindex)
  have hrespond : t.respond .read = (.value (t.cell z.cursor).toNat, t) := by
    simp only [respond, perform, bind, EStateM.bind, hread, pure, EStateM.pure]
  refine ⟨?_, ?_, ?_, ?_⟩
  · rw [hrespond, EndlessTape.reply, ← h.cell, residue_val]
  · rw [hrespond]
    exact h
  · rw [hrespond]
  · rw [hrespond]
    simp only [EndlessTape.step]
    omega

theorem respond_refines (h : t.Represents z) (hindex : t.room ≤ maxIndex)
    (hroom : (z.step op).cursor < t.room) (hblock : (z.step op).cursor + 1 - t.length ≤ maxBlock) :
    t.Refines z op := by
  cases op with
  | moveRight n => exact moveRight_refines h hroom hblock
  | moveLeft n => exact moveLeft_refines h
  | increment n =>
    have hbyte (v : UInt8) : residue (v + .ofInt n) = residue v + n := by
      rw [residue_add, residue_ofInt]
    exact update_refines (g := (· + (n : ZMod 256))) h hindex hbyte rfl rfl rfl
  | decrement n =>
    have hbyte (v : UInt8) : residue (v - .ofInt n) = residue v - n := by
      rw [residue_sub, residue_ofInt]
    exact update_refines (g := (· - (n : ZMod 256))) h hindex hbyte rfl rfl rfl
  | write v =>
    exact update_refines (g := fun _ => (v : ZMod 256)) h hindex (fun _ => residue_ofInt v) rfl
      rfl rfl
  | read => exact read_refines h hindex

/-- Operations in a row show what they show on the endless tape, and the tape grows to where they come. -/
theorem after_represents (h : t.Represents z) (hindex : t.room ≤ maxIndex)
    (hfits : EndlessTape.Fits t.room t.length z ops) :
    t.replies ops = z.replies ops ∧ (t.after ops).Represents (z.after ops) ∧
      (t.after ops).length = max t.length (z.reach ops + 1) := by
  induction ops generalizing t z with
  | nil =>
    have hcursor := h.cursor
    have hlt := h.inBounds.lt_length
    refine ⟨rfl, h, ?_⟩
    simp only [after, List.foldl_nil, EndlessTape.reach]
    omega
  | cons op ops ih =>
    obtain ⟨hroom, hblock, hrest⟩ := hfits
    have hop := respond_refines h hindex hroom hblock
    rw [← hop.room, ← hop.length] at hrest
    obtain ⟨hreplies, hafter, hlength⟩ := ih hop.represents (hop.room ▸ hindex) hrest
    have hcursor := h.cursor
    have hlt := h.inBounds.lt_length
    have hreach := (z.step op).cursor_le_reach ops
    refine ⟨?_, hafter, ?_⟩
    · rw [replies, EndlessTape.replies, hop.reply, hreplies]
    · have hgrown := hop.length
      change ((t.respond op).2.after ops).length = _
      rw [hlength, hgrown, EndlessTape.reach]
      omega

theorem represents_start {room : Nat} {size : Int} (h : create room size = .ok t) :
    t.Represents .start := by
  obtain ⟨hinBounds, -, -, hcursor, hcells⟩ := create_ok h
  refine ⟨hcursor, fun j => ?_, hinBounds⟩
  rw [cell, hcells]
  rfl

/-- As long as the cells an operation needs are those of one block and find room in memory, the tape is
the one without end: what each operation shows, the cursor, and the cells, of which the endless tape has
only zeros past the last that the tape has. The tape is as long as it was made or as the cursor has come. -/
theorem refines_endless (room : Nat) (size : Int) (ops : List Operation) (hpos : 1 ≤ size)
    (hsize : size ≤ room) (hindex : room ≤ maxIndex)
    (hfits : EndlessTape.Fits room size.toNat .start ops) :
    ∃ t, create room size = .ok t ∧ ∀ early, early <+: ops →
      t.replies early = EndlessTape.start.replies early ∧
      (t.after early).cursor = (EndlessTape.start.after early).cursor ∧
      (∀ j < (t.after early).length,
        ((t.after early).cell j).toNat = ((EndlessTape.start.after early).cell j).val) ∧
      (∀ j, (t.after early).length ≤ j → (EndlessTape.start.after early).cell j = 0) ∧
      ((t.after early).length : Int) = max size (EndlessTape.start.reach early + 1) := by
  obtain ⟨t, ht⟩ := exists_create hpos (by omega) hsize
  obtain ⟨-, hroom, hlength, -, -⟩ := create_ok ht
  refine ⟨t, ht, fun early hearly => ?_⟩
  have hstart : EndlessTape.Fits t.room t.length .start early := by
    rw [hroom, show t.length = size.toNat by omega]
    exact EndlessTape.fits_of_prefix hearly hfits
  obtain ⟨hreplies, hafter, hgrown⟩ :=
    after_represents (represents_start ht) (hroom ▸ hindex) hstart
  refine ⟨hreplies, hafter.cursor, fun j _ => ?_, fun j hj => ?_, by omega⟩
  · rw [← hafter.cell, residue_val]
  · rw [← hafter.cell, cell_of_length_le hj]
    rfl

/-- A move past the first cell fails between a value that wraps below zero and a move that grows the tape,
where a number beyond the values of a byte is added to a negative one. -/
theorem refines_endless_growing :
    ∃ t, create 8 2 = .ok t ∧
      t.replies [.decrement 1, .read, .moveLeft .one, .moveRight ⟨4, by decide⟩, .write (-3),
        .increment (2 ^ 65 + 1), .read] =
        [.done, .value 255, .failed (.negativeAddress 1 0), .done, .done, .done, .value 254] ∧
      ((t.after [.decrement 1, .read, .moveLeft .one, .moveRight ⟨4, by decide⟩]).length : Int) = 5 := by
  obtain ⟨t, ht, hall⟩ := refines_endless 8 2
    [.decrement 1, .read, .moveLeft .one, .moveRight ⟨4, by decide⟩, .write (-3),
      .increment (2 ^ 65 + 1), .read] (by decide) (by decide) (by decide) (by decide +kernel)
  obtain ⟨hreplies, -⟩ := hall _ (List.prefix_refl _)
  obtain ⟨-, -, -, -, hlength⟩ :=
    hall [.decrement 1, .read, .moveLeft .one, .moveRight ⟨4, by decide⟩] ⟨_, rfl⟩
  exact ⟨t, ht, hreplies.trans (by decide +kernel), hlength.trans (by decide +kernel)⟩

/-- A move for fewer cells than can be numbered, but for more than one block has, fails where the endless
tape lets it through. -/
theorem far_move_not_refined :
    ∃ t, create maxIndex 1 = .ok t ∧
      (0x7FFF_FFFF_FFFF_FFEC : Int) ≤ maxIndex ∧
      t.replies [.moveRight ⟨0x7FFF_FFFF_FFFF_FFEC, by decide⟩] = [.failed .blockTooLarge] ∧
      EndlessTape.start.replies [.moveRight ⟨0x7FFF_FFFF_FFFF_FFEC, by decide⟩] = [.done] ∧
      (t.after [.moveRight ⟨0x7FFF_FFFF_FFFF_FFEC, by decide⟩]).length = 1 ∧
      EndlessTape.start.reach [.moveRight ⟨0x7FFF_FFFF_FFFF_FFEC, by decide⟩] =
        0x7FFF_FFFF_FFFF_FFEC := by
  refine ⟨_, rfl, ?_, ?_, ?_, ?_, ?_⟩
  all_goals decide +kernel

end Tape

end Brainfuck
