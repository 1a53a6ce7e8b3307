/-! The largest numbers that can serve as an index or a length. -/
namespace Brainfuck

def maxIndex : Nat := 0x7FFF_FFFF_FFFF_FFFF

/-- The most bytes that can be asked for at once. -/
def maxBlock : Nat := maxIndex - 33

def indexMessage : String := "cannot fit 'int' into an index-sized integer"

end Brainfuck
