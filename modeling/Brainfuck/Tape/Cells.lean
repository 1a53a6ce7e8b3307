/-! Byte cells, numbered from zero, of which all but finitely many are zero. -/
namespace Brainfuck

/-- The cells up to the last one written; those after them are zero. -/
structure Cells where
  stored : Array UInt8

namespace Cells

variable {c : Cells} {i j : Nat} {v : UInt8}

def zero : Cells := ⟨#[]⟩

def get (c : Cells) (i : Nat) : UInt8 := c.stored[i]?.getD 0

/-- Every cell from here on is zero. -/
def extent (c : Cells) : Nat := c.stored.size

/-- Zero is not written past the stored cells, so that a distant zero takes no room. -/
def set (c : Cells) (i : Nat) (v : UInt8) : Cells :=
  if h : i < c.stored.size then ⟨c.stored.set i v h⟩
  else if v = 0 then c
  else ⟨(c.stored ++ Array.replicate (i - c.stored.size) 0).push v⟩

@[simp] theorem get_zero : zero.get i = 0 := by simp [get, zero]

@[simp] theorem extent_zero : zero.extent = 0 := rfl

theorem get_of_extent_le (h : c.extent ≤ i) : c.get i = 0 := by
  simp only [extent] at h
  simp [get, h]

theorem extent_set_le : (c.set i v).extent ≤ max c.extent (i + 1) := by
  unfold set extent
  split
  · simp only [Array.size_set]; omega
  · split
    · omega
    · simp only [Array.size_push, Array.size_append, Array.size_replicate]; omega

theorem get_set : (c.set i v).get j = if i = j then v else c.get j := by
  unfold set get
  split
  · grind
  · split
    · grind
    · simp only [Array.getElem?_push, Array.getElem?_append, Array.getElem?_replicate]
      grind

end Cells

end Brainfuck
