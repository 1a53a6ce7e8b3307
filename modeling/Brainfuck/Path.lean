/-! Slash-separated paths. Empty components and `.` vanish, `..` stays; two leading slashes are a root
of their own, one or more than two are the plain root. -/
namespace Brainfuck

inductive Root
  | none
  | slash
  | twoSlashes
  deriving DecidableEq

def Root.text : Root → String
  | .none => ""
  | .slash => "/"
  | .twoSlashes => "//"

structure Path where
  root : Root
  parts : List String
  deriving DecidableEq

namespace Path

/-- The pieces of a text between its slashes. -/
def pieces : List Char → List (List Char)
  | [] => [[]]
  | c :: cs =>
    if c = '/' then [] :: pieces cs
    else
      match pieces cs with
      | [] => [[c]]
      | p :: ps => (c :: p) :: ps

def rootOf : List Char → Root
  | '/' :: '/' :: '/' :: _ => .slash
  | '/' :: '/' :: _ => .twoSlashes
  | '/' :: _ => .slash
  | _ => .none

def ofString (text : String) : Path :=
  let cs := text.toList
  let parts := (pieces cs).filterMap fun p =>
    if p = [] ∨ p = ['.'] then none else some (String.ofList p)
  ⟨rootOf cs, parts⟩

/-- A path without root and components is written as a single dot. -/
def text (p : Path) : String :=
  if p.root = .none ∧ p.parts = [] then "."
  else p.root.text ++ "/".intercalate p.parts

/-- A path with a root replaces the one it is joined to. -/
def join (p q : Path) : Path :=
  if q.root = .none then ⟨p.root, p.parts ++ q.parts⟩ else q

/-- The last component, or nothing. -/
def name (p : Path) : String := p.parts.getLast?.getD ""

/-- A name up to its last dot, unless that dot comes first or last in it. -/
def stemOf (name : List Char) : List Char :=
  let ending := name.reverse.takeWhile (· != '.')
  let stem := name.take (name.length - ending.length - 1)
  if ending = [] ∨ ending.length = name.length ∨ stem = [] then name else stem

def stem (p : Path) : String := .ofList (stemOf p.name.toList)

end Path

end Brainfuck
