/-! Lines of text. -/
namespace Brainfuck.Text

/-- The text of some lines, each with its end of line. -/
def unlines (lines : List String) : String :=
  String.join (lines.map (· ++ "\n"))

end Brainfuck.Text
