/-! Line ends: a carriage return, with or without a line feed after it, becomes one line feed. -/
namespace Brainfuck.Text

/-- Goes on after the characters of `done`, which holds the last one first. -/
def unifyFrom : List Char → List Char → List Char
  | done, [] => done.reverse
  | done, '\r' :: '\n' :: cs => unifyFrom ('\n' :: done) cs
  | done, c :: cs => unifyFrom ((if c = '\r' then '\n' else c) :: done) cs

def unifyNewlines (cs : List Char) : List Char := unifyFrom [] cs

end Brainfuck.Text
