import Brainfuck.Proofs.Execution.Bounds

/-! What an operation leaves alone, whatever integer it is given: the cursor may be below zero or beyond the
cells. -/
namespace Brainfuck

/-- What can be asked of a tape, with any integers. -/
inductive Command
  | apply (op : TapeOp) (n : Int)
  | write (value : Int)
  | read

/-- What the cell under the cursor becomes, up to multiples of 256, by what it is. A command that changes no
cell has no such rule. -/
def Command.change? : Command → Option (Int → Int)
  | .apply .increment n => some (· + n)
  | .apply .decrement n => some (· - n)
  | .write v => some fun _ => v
  | _ => none

/-- The cursor has no cell, or it has not even an index. -/
def TapeError.IsIndex : TapeError → Prop
  | .outOfRange => True
  | .unaddressable => True
  | _ => False

namespace Tape

def obey : Command → EStateM TapeError Tape Unit
  | .apply op n => apply op n
  | .write v => write v
  | .read => do
    let _ ← read

/-- The tape after some commands, whether or not they fail. -/
def obeying (t : Tape) (cs : List Command) : Tape := cs.foldl (fun t c => leaves (obey c t)) t

/-- All cells, first to last. -/
def bytes (t : Tape) : List UInt8 := (List.range t.length).map t.cell

/-- The cell under the cursor, which counts from the end where it is negative. -/
def Addresses (t : Tape) (j : Nat) : Prop :=
  0 ≤ t.cursor ∧ t.cursor < t.length ∧ (j : Int) = t.cursor ∨
    -(t.length : Int) ≤ t.cursor ∧ t.cursor < 0 ∧ (j : Int) = t.length + t.cursor

/-- The one cell that a command may change. -/
def Changes (t : Tape) (c : Command) (j : Nat) : Prop := c.change? ≠ none ∧ t.Addresses j

/-- Whatever a command does: what it fails with, if it does, and the tape it leaves. -/
inductive Effect (t : Tape) : Command → Option TapeError → Tape → Prop
  | grown {n k u} (bytes : u.bytes = t.bytes ++ List.replicate k 0) :
    Effect t (.apply .moveRight n) none u
  | short {n e u} (shortage : e.IsShortage) (bytes : u.bytes = t.bytes) :
    Effect t (.apply .moveRight n) (some e) u
  | kept {c u} (rule : c.change? = none) (bytes : u.bytes = t.bytes) : Effect t c none u
  | failed {c e} (rule : c.change? = none) : Effect t c (some e) t
  | changed {c f j v u} (rule : c.change? = some f) (address : t.Addresses j)
    (value : (v.toNat : Int) = f (t.cell j).toNat % 256) (bytes : u.bytes = t.bytes.set j v)
    (cursor : u.cursor = t.cursor) : Effect t c none u
  | refused {c f e} (rule : c.change? = some f) (nowhere : ∀ j, ¬ t.Addresses j)
    (index : e.IsIndex) : Effect t c (some e) t

/-- The tape gets no shorter, and only a move to the right makes it longer, by zero cells at its end. A change is
one of the cell under the cursor, and there is an index error exactly if there is no such cell. What fails
leaves all cells, and the cursor too unless a move to the right finds no room for the cells it needs. -/
structure Framed (t : Tape) (c : Command) (failed : Option TapeError) (u : Tape) : Prop where
  length_le : t.length ≤ u.length
  grown : u.length ≠ t.length →
    ∃ n k, c = .apply .moveRight n ∧ u.bytes = t.bytes ++ List.replicate k 0
  byte : ∀ v ∈ u.bytes, v.toNat ≤ 255
  changed : ∀ f, c.change? = some f → failed = none → ∃ j v, t.Addresses j ∧
    u.bytes = t.bytes.set j v ∧ (v.toNat : Int) = f (t.cell j).toNat % 256 ∧ u.cursor = t.cursor
  refused : c.change? ≠ none → ((∃ e, failed = some e ∧ e.IsIndex) ↔ ∀ j, ¬ t.Addresses j)
  failing : ∀ e, failed = some e → u.bytes = t.bytes ∧
    (u.cursor = t.cursor ∨ e.IsShortage ∧ ∃ n, c = .apply .moveRight n)

variable {t u : Tape} {c : Command} {e : TapeError} {f : Int → Int} {j k : Nat} {n : Int}
  {failed : Option TapeError}

theorem length_bytes (t : Tape) : t.bytes.length = t.length := by
  rw [bytes, List.length_map, List.length_range]

/-- Cells past the end are zero, so a tape that has only grown has more zeros. -/
theorem bytes_of_grown (hcells : u.cells = t.cells) (hlength : u.length = t.length + k) :
    u.bytes = t.bytes ++ List.replicate k 0 := by
  have hcell (j : Nat) : u.cell j = t.cell j := by rw [cell, hcells, ← cell]
  rw [bytes, hlength, List.range_add, List.map_append, List.map_map]
  congr 1
  · exact List.map_congr_left fun j _ => hcell j
  · apply List.eq_replicate_iff.mpr
    refine ⟨by simp, ?_⟩
    intro v hv
    obtain ⟨j, -, rfl⟩ := List.mem_map.mp hv
    rw [Function.comp_apply, hcell]
    exact cell_of_length_le (Nat.le_add_right _ _)

theorem bytes_of_writes {v : UInt8} (h : Writes t j v u) : u.bytes = t.bytes.set j v := by
  apply List.ext_getElem
  · rw [List.length_set, length_bytes, length_bytes, h.length]
  · intro i hi hi'
    rw [List.getElem_set]
    simp only [bytes, List.getElem_map, List.getElem_range]
    exact h.cell i

/-- There is an index for every cell, so the cell under the cursor is found. -/
theorem place_eq_ok_iff (hroom : t.room ≤ maxIndex) : t.place = .ok j ↔ t.Addresses j := by
  have hlength := t.length_le
  unfold place address Addresses
  split
  next hfar => simp [Except.map]; omega
  next =>
    split
    next hin => simp [Except.map]; omega
    next =>
      split
      next hin => simp [Except.map]; omega
      next => simp [Except.map]; omega

theorem isIndex_of_place (h : t.place = .error e) : e.IsIndex := by
  unfold place address at h
  split at h
  · cases h
    trivial
  · split at h
    · cases h
    · split at h
      · cases h
      · cases h
        trivial

theorem place_eq_error_iff (hroom : t.room ≤ maxIndex) :
    (∃ e, t.place = .error e) ↔ ∀ j, ¬ t.Addresses j := by
  constructor
  · rintro ⟨e, he⟩ j hj
    rw [(place_eq_ok_iff hroom).mpr hj] at he
    cases he
  · intro hno
    cases hp : t.place with
    | ok j => exact (hno j ((place_eq_ok_iff hroom).mp hp)).elim
    | error e => exact ⟨e, rfl⟩

/-- A change of the cell is arithmetic modulo 256 on the byte in it. -/
theorem obey_of_change (h : c.change? = some f) :
    ∃ g, obey c = update g ∧ ∀ v, ((g v).toNat : Int) = f v.toNat % 256 := by
  have hbyte := toNat_ofInt
  rcases c with ⟨_ | _ | _ | _, n⟩ | v | _ <;> cases h
  · refine ⟨fun v => v + .ofInt n, by simp only [obey, apply, increment], fun v => ?_⟩
    have hn := hbyte n
    simp only [UInt8.toNat_add, Nat.reducePow]
    omega
  · refine ⟨fun v => v - .ofInt n, by simp only [obey, apply, decrement], fun v => ?_⟩
    have hn := hbyte n
    have hlt := (UInt8.ofInt n).toNat_lt
    simp only [UInt8.toNat_sub, Nat.reducePow]
    omega
  · exact ⟨fun _ => .ofInt v, by simp only [obey, write], fun _ => hbyte v⟩

theorem moveRight_effect (t : Tape) (n : Int) :
    t.Effect (.apply .moveRight n) (failure (moveRight n t)) (leaves (moveRight n t)) := by
  unfold moveRight
  dsimp only
  split
  · exact .kept rfl rfl
  · split
    · exact .short trivial rfl
    · split
      · exact .short trivial rfl
      · split
        · exact .short trivial rfl
        · refine .grown (k := (t.cursor + n + 1).toNat - t.length) (bytes_of_grown rfl ?_)
          dsimp only [leaves]
          omega

theorem change_effect (hroom : t.room ≤ maxIndex) (hf : c.change? = some f) :
    t.Effect c (failure (obey c t)) (leaves (obey c t)) := by
  obtain ⟨g, hobey, hg⟩ := obey_of_change hf
  rw [hobey]
  cases hp : t.place with
  | ok j =>
    have haddress : t.Addresses j := (place_eq_ok_iff hroom).mp hp
    obtain ⟨u, hu, hw⟩ := update_of_place hp g
    rw [hu]
    exact .changed hf haddress (hg _) (bytes_of_writes hw) hw.cursor
  | error e =>
    have hno : ∀ j, ¬ t.Addresses j := (place_eq_error_iff hroom).mp ⟨e, hp⟩
    rw [update_of_no_place hp]
    exact .refused hf hno (isIndex_of_place hp)

/-- One command, on any tape whatever its cursor. -/
theorem obey_effect (hroom : t.room ≤ maxIndex) (c : Command) :
    t.Effect c (failure (obey c t)) (leaves (obey c t)) := by
  rcases c with ⟨_ | _ | _ | _, n⟩ | v | _
  · exact moveRight_effect t n
  · change t.Effect _ (failure (moveLeft n t)) (leaves (moveLeft n t))
    unfold moveLeft
    split
    · exact .failed rfl
    · exact .kept rfl rfl
  · exact change_effect hroom rfl
  · exact change_effect hroom rfl
  · exact change_effect hroom rfl
  · change t.Effect _ (failure (EStateM.bind read _ t)) (leaves (EStateM.bind read _ t))
    unfold EStateM.bind
    cases hp : t.place with
    | ok j =>
      rw [read_of_place hp]
      exact .kept rfl rfl
    | error e =>
      rw [read_of_no_place hp]
      exact .failed rfl

theorem length_of_bytes (h : u.bytes = t.bytes) : u.length = t.length := by
  rw [← length_bytes, h, length_bytes]

theorem length_of_effect (h : t.Effect c failed u) : t.length ≤ u.length ∧ (u.length ≠ t.length →
    ∃ n k, c = .apply .moveRight n ∧ u.bytes = t.bytes ++ List.replicate k 0) := by
  cases h with
  | @grown n k _ bytes =>
    have hlength : u.length = t.length + k := by
      rw [← length_bytes, bytes, List.length_append, length_bytes, List.length_replicate]
    exact ⟨by omega, fun _ => ⟨n, k, rfl, bytes⟩⟩
  | short _ bytes => exact ⟨(length_of_bytes bytes).ge, fun h => (h (length_of_bytes bytes)).elim⟩
  | kept _ bytes => exact ⟨(length_of_bytes bytes).ge, fun h => (h (length_of_bytes bytes)).elim⟩
  | changed _ _ _ bytes =>
    have hlength : u.length = t.length := by
      rw [← length_bytes, bytes, List.length_set, length_bytes]
    exact ⟨hlength.ge, fun h => (h hlength).elim⟩
  | failed | refused => exact ⟨Nat.le_refl _, fun h => (h rfl).elim⟩

/-- A change of a cell finds its cell, or there is none and the change fails. -/
theorem change_of_effect (h : t.Effect c failed u) (hf : c.change? = some f) :
    (failed = none ∧ ∃ j v, t.Addresses j ∧ u.bytes = t.bytes.set j v ∧
      (v.toNat : Int) = f (t.cell j).toNat % 256 ∧ u.cursor = t.cursor) ∨
    (∃ e, failed = some e ∧ e.IsIndex) ∧ ∀ j, ¬ t.Addresses j := by
  cases h with
  | grown | short => cases hf
  | kept rule | failed rule =>
    rw [rule] at hf
    cases hf
  | @changed _ _ j v _ rule address value bytes cursor =>
    rw [rule] at hf
    cases hf
    exact Or.inl ⟨rfl, j, v, address, bytes, value, cursor⟩
  | @refused _ _ e _ nowhere index => exact Or.inr ⟨⟨e, rfl, index⟩, nowhere⟩

theorem failure_of_effect (h : t.Effect c failed u) (he : failed = some e) :
    u.bytes = t.bytes ∧ (u.cursor = t.cursor ∨ e.IsShortage ∧ ∃ n, c = .apply .moveRight n) := by
  cases h with
  | grown | kept | changed => cases he
  | @short n _ _ shortage bytes =>
    cases he
    exact ⟨bytes, Or.inr ⟨shortage, n, rfl⟩⟩
  | failed | refused => exact ⟨rfl, Or.inl rfl⟩

theorem framed_of_effect (h : t.Effect c failed u) : t.Framed c failed u where
  length_le := (length_of_effect h).1
  grown := (length_of_effect h).2
  byte v _ := Nat.le_of_lt_succ v.toNat_lt
  changed f hf hnone := by
    rcases change_of_effect h hf with ⟨-, hchanged⟩ | ⟨⟨e, he, -⟩, -⟩
    · exact hchanged
    · rw [hnone] at he
      cases he
  refused hne := by
    obtain ⟨f, hf⟩ := Option.ne_none_iff_exists'.mp hne
    rcases change_of_effect h hf with ⟨hnone, j, -, hj, -⟩ | ⟨he, hno⟩
    · constructor
      · rintro ⟨e, he, -⟩
        rw [hnone] at he
        cases he
      · intro hno
        exact (hno j hj).elim
    · exact ⟨fun _ => hno, fun _ => he⟩
  failing _ he := failure_of_effect h he

theorem cell_eq (t : Tape) (j : Nat) : t.cell j = t.bytes[j]?.getD 0 := by
  by_cases hj : j < t.length
  · simp [bytes, hj]
  · have hnone : t.bytes[j]? = none := List.getElem?_eq_none (by rw [length_bytes]; omega)
    rw [hnone]
    exact cell_of_length_le (Nat.le_of_not_lt hj)

/-- A cell that a command does not change keeps its byte; cells past the end count as zero. -/
theorem cell_of_effect (h : t.Effect c failed u) (hj : ¬ t.Changes c j) : u.cell j = t.cell j := by
  rw [cell_eq, cell_eq]
  cases h with
  | @grown n k _ bytes =>
    rw [bytes, List.getElem?_append]
    split
    · rfl
    · rw [List.getElem?_replicate]
      split <;> simp_all
  | short _ bytes | kept _ bytes => rw [bytes]
  | @changed _ _ i v _ rule address _ bytes =>
    have hne : i ≠ j := by
      rintro rfl
      exact hj ⟨by simp [rule], address⟩
    rw [bytes, List.getElem?_set_ne hne]
  | failed | refused => rfl

theorem obeying_append (t : Tape) (early late : List Command) :
    t.obeying (early ++ late) = (t.obeying early).obeying late :=
  List.foldl_append

theorem room_obey (t : Tape) (c : Command) : (leaves (obey c t)).room = t.room := by
  cases c with
  | apply op n => exact apply_room op n t
  | write v => exact update_room (fun _ => .ofInt v) t
  | read =>
    have hread := read_room t
    change (leaves (EStateM.bind read _ t)).room = t.room
    unfold EStateM.bind
    cases hr : read t <;> rw [hr] at hread <;> exact hread

theorem room_obeying (t : Tape) (cs : List Command) : (t.obeying cs).room = t.room := by
  induction cs generalizing t with
  | nil => rfl
  | cons c cs ih => exact (ih _).trans (room_obey t c)

/-- Commands in a row make no tape shorter, and leave the cells that none of them changes. -/
theorem obeying_framed (hroom : t.room ≤ maxIndex) (cs : List Command) :
    t.length ≤ (t.obeying cs).length ∧ ∀ j,
      (∀ before c after, cs = before ++ c :: after → ¬ (t.obeying before).Changes c j) →
        (t.obeying cs).cell j = t.cell j := by
  induction cs generalizing t with
  | nil => exact ⟨Nat.le_refl _, fun _ _ => rfl⟩
  | cons c cs ih =>
    have heffect := obey_effect hroom c
    obtain ⟨hle, hcell⟩ := ih (Nat.le_trans (Nat.le_of_eq (room_obey t c)) hroom)
    refine ⟨Nat.le_trans (length_of_effect heffect).1 hle, fun j hj => ?_⟩
    have hfirst := cell_of_effect heffect (hj [] c cs rfl)
    refine (hcell j fun before c' after hcs => ?_).trans hfirst
    exact hj (c :: before) c' after (by rw [hcs, List.cons_append])

/-- Whatever integers a tape is given, and whatever fails on the way: each command keeps to its cell, and a cell
keeps its byte until a command changes it. -/
theorem commands_framed (room : Nat) (size : Int) (hpos : 1 ≤ size) (hsize : size ≤ room)
    (hindex : room ≤ maxIndex) : ∃ t, create room size = .ok t ∧ ∀ early,
      (∀ c, (t.obeying early).Framed c (failure (obey c (t.obeying early)))
        (leaves (obey c (t.obeying early)))) ∧
      ∀ late, (t.obeying early).length ≤ (t.obeying (early ++ late)).length ∧ ∀ j,
        (∀ before c after, late = before ++ c :: after →
          ¬ (t.obeying (early ++ before)).Changes c j) →
            (t.obeying (early ++ late)).cell j = (t.obeying early).cell j := by
  obtain ⟨t, ht⟩ := exists_create hpos (by omega) hsize
  obtain ⟨-, hroom, -⟩ := create_ok ht
  refine ⟨t, ht, fun early => ?_⟩
  have hbound : (t.obeying early).room ≤ maxIndex := by
    rw [room_obeying, hroom]
    exact hindex
  refine ⟨fun c => framed_of_effect (obey_effect hbound c), fun late => ?_⟩
  simp only [obeying_append]
  exact obeying_framed hbound late

/-- A cursor below zero is on a cell for as long as the tape is that long, and the byte written there stays when
the tape grows; a cursor that a move to the left took past the end has no cell until a move to the right. -/
theorem commands_framed_outside :
    ∃ t, create 8 2 = .ok t ∧
      (∃ j v, (t.obeying [.apply .moveRight (-1)]).Addresses j ∧
        (t.obeying [.apply .moveRight (-1), .write 300]).bytes = [0, 0].set j v ∧
        (v.toNat : Int) = 300 % 256) ∧
      (t.obeying [.apply .moveRight (-1), .write 300, .apply .moveRight 7]).cell 1 = 44 ∧
      ∃ e, failure (obey (.apply .increment 1) (t.obeying [.apply .moveLeft (-5)])) = some e ∧
        e.IsIndex := by
  obtain ⟨t, ht, hall⟩ := commands_framed 8 2 (by decide) (by decide) (by decide)
  have hfresh : t = ⟨8, 2, 0, .zero, Nat.zero_le _, by decide, by decide⟩ :=
    (Except.ok.inj ht).symm
  have hwrite := ((hall [.apply .moveRight (-1)]).1 (.write 300)).changed _ rfl
  have hgrow := ((hall [.apply .moveRight (-1), .write 300]).2 [.apply .moveRight 7]).2 1
  have hfar := ((hall [.apply .moveLeft (-5)]).1 (.apply .increment 1)).refused
  refine ⟨t, ht, ?_, ?_, ?_⟩
  · have hdone : failure (obey (.write 300) (t.obeying [.apply .moveRight (-1)])) = none := by
      rw [hfresh]
      decide +kernel
    have hzeros : (t.obeying [.apply .moveRight (-1)]).bytes = [0, 0] := by
      rw [hfresh]
      decide +kernel
    rw [hzeros] at hwrite
    obtain ⟨j, v, hj, hbytes, hv, -⟩ := hwrite hdone
    exact ⟨j, v, hj, hbytes, hv⟩
  · have hbyte : (t.obeying [.apply .moveRight (-1), .write 300]).cell 1 = 44 := by
      rw [hfresh]
      decide +kernel
    rw [← hbyte]
    apply hgrow
    rintro (_ | ⟨_, before⟩) c after h ⟨hc, -⟩
    · cases h
      exact hc rfl
    · simp at h
  · apply (hfar (by simp [Command.change?])).mpr
    have hplace : (t.obeying [.apply .moveLeft (-5)]).cursor = 5 ∧
        (t.obeying [.apply .moveLeft (-5)]).length = 2 := by
      rw [hfresh]
      decide +kernel
    rintro j (⟨-, hlt, -⟩ | ⟨-, hneg, -⟩)
    · omega
    · omega

/-- A move for which there is no memory, though its cells could be numbered, leaves the cursor moved. -/
theorem cursor_moves_without_memory :
    ∃ t, create usualRoom 1 = .ok t ∧
      failure (obey (.apply .moveRight 0x4000_0000_0000_0000) t) = some .outOfMemory ∧
      (leaves (obey (.apply .moveRight 0x4000_0000_0000_0000) t)).cursor ≠ t.cursor := by
  refine ⟨_, rfl, ?_, ?_⟩
  all_goals decide +kernel

end Tape

end Brainfuck
