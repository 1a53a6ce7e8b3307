import Brainfuck.Text.Printable

/-! Quoted text, as error messages show it. -/
namespace Brainfuck.Text

/-- Two, four or eight hexadecimal digits, after the letter that announces them. -/
def escapeCode (c : Char) : List Char :=
  let hex (width : Nat) := (Nat.toDigits 16 c.toNat).leftpad width '0'
  if c.toNat < 0x100 then '\\' :: 'x' :: hex 2
  else if c.toNat < 0x10000 then '\\' :: 'u' :: hex 4
  else '\\' :: 'U' :: hex 8

def escapeChar (quote c : Char) : List Char :=
  if c = quote ∨ c = '\\' then ['\\', c]
  else if c = '\n' then ['\\', 'n']
  else if c = '\r' then ['\\', 'r']
  else if c = '\t' then ['\\', 't']
  else if isPrintable c then [c]
  else escapeCode c

/-- Apostrophes quote, unless the text holds some and no double quote. -/
def quoteOf (cs : List Char) : Char :=
  if cs.contains '\'' && !cs.contains '"' then '"' else '\''

def quoted (text : String) : String :=
  let cs := text.toList
  let quote := quoteOf cs
  String.ofList (quote :: cs.flatMap (escapeChar quote) ++ [quote])

end Brainfuck.Text
