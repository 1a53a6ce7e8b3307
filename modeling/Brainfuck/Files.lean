import Brainfuck.Path

/-! A tree of files, as seen from its top directory. Nothing is known of the directories above it but
that they are there. -/
namespace Brainfuck

inductive FileEntry
  | directory
  | file (bytes : List UInt8)

inductive ReadError
  | missing
  | isDirectory
  | nameTooLong
  | refused (reason : String)
  deriving DecidableEq

/-- Every directory on the way to an entry exists too. -/
structure Files where
  entries : List (List String × FileEntry)

namespace Files

/-- Where a lookup stands: in the tree or above it. -/
inductive Place
  | inside (parts : List String)
  | above

def maxName : Nat := 255

def maxPath : Nat := 4095

def ofList (entries : List (String × FileEntry)) : Files :=
  ⟨entries.map fun e => ((Path.ofString e.1).parts, e.2)⟩

def entryAt? (files : Files) (parts : List String) : Option FileEntry :=
  match files.entries.find? fun e => e.1 == parts with
  | some e => some e.2
  | none =>
    if parts = [] ∨ files.entries.any fun e => parts.isPrefixOf e.1 then some .directory else none

def entryOf (files : Files) : Place → Option FileEntry
  | .inside parts => files.entryAt? parts
  | .above => some .directory

/-- Goes down one component; what is not a directory holds nothing. -/
def enter (files : Files) (place : Place) (part : String) : Except ReadError Place :=
  match files.entryOf place with
  | some .directory =>
    if part = ".." then
      match place with
      | .inside (p :: ps) => .ok (.inside (p :: ps).dropLast)
      | _ => .ok .above
    else if maxName < part.utf8ByteSize then .error .nameTooLong
    else
      match place with
      | .inside parts =>
        if (files.entryAt? (parts ++ [part])).isSome then .ok (.inside (parts ++ [part]))
        else .error .missing
      | .above => .error .missing
  | _ => .error .missing

/-- The bytes of the file with this path. -/
def read (files : Files) (path : String) : Except ReadError (List UInt8) :=
  let p := Path.ofString path
  if path.toList.contains (.ofNat 0) then .error .missing
  else if maxPath < p.text.utf8ByteSize then .error .nameTooLong
  else
    match p.parts.foldlM files.enter (if p.root = .none then .inside [] else .above) with
    | .error e => .error e
    | .ok place =>
      match files.entryOf place with
      | some (.file bytes) => .ok bytes
      | some .directory => .error .isDirectory
      | none => .error .missing

end Files

end Brainfuck
