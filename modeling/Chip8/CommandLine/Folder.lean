import Chip8.Text.Quoted

namespace Chip8

abbrev Folder := List (String × List UInt8)

-- A path in normal form: the slashes at its head, and its parts without empty ones and single dots.
structure Path where
  root : String
  parts : List String
deriving DecidableEq

namespace Path

-- Exactly two slashes at the head are a root of their own. Any other number of them is one slash.
def rootOf (text : String) : String :=
  if text.startsWith "//" ∧ ¬ text.startsWith "///" then "//"
  else if text.startsWith "/" then "/" else ""

def partsOf (text : String) : List String :=
  ((text.toList.splitOn '/').map String.ofList).filter fun part => part ≠ "" ∧ part ≠ "."

def parse (text : String) : Path where
  root := rootOf text
  parts := partsOf text

def toString (p : Path) : String :=
  let text := p.root ++ "/".intercalate p.parts
  if text = "" then "." else text

end Path

inductive Unreadable where
  | missing (path : Path)
  | directory (path : Path)
  | notDirectory (path : Path)
  | tooLong (path : Path)
  | nullCharacter

def Unreadable.message : Unreadable → String
  | missing path => s!"[Errno 2] No such file or directory: {Text.quoted path.toString}"
  | directory path => s!"[Errno 21] Is a directory: {Text.quoted path.toString}"
  | notDirectory path => s!"[Errno 20] Not a directory: {Text.quoted path.toString}"
  | tooLong path => s!"[Errno 36] File name too long: {Text.quoted path.toString}"
  | nullCharacter => "embedded null byte"

-- Where a path has led so far.
inductive Place where
  | inside (parts : List String)
  -- A directory above the folder, of which only that much is known.
  | above
  | file (contents : List UInt8)

namespace Folder

-- The most bytes in a part of a path, and in all of it.
def longestPart : Nat := 255
def longestPath : Nat := 4095

def enter (folder : Folder) (here : List String) (part : String) : Option Place :=
  let there := here ++ [part]
  let files := folder.map fun (name, contents) => (Path.partsOf name, contents)
  match files.lookup there with
  | some contents => some (.file contents)
  | none =>
    if files.any fun (parts, _) => there.isPrefixOf parts then some (.inside there) else none

-- Follows the parts of `path` one after another. Two dots lead to the directory above.
def walk (folder : Folder) (path : Path) : Place → List String → Except Unreadable (List UInt8)
  | .file contents, [] => .ok contents
  | .file _, _ :: _ => .error (.notDirectory path)
  | _, [] => .error (.directory path)
  | .inside [], ".." :: rest => folder.walk path .above rest
  | .inside here, ".." :: rest => folder.walk path (.inside here.dropLast) rest
  | .above, ".." :: rest => folder.walk path .above rest
  | .inside here, part :: rest =>
    if longestPart < part.utf8ByteSize then .error (.tooLong path)
    else match folder.enter here part with
      | some place => folder.walk path place rest
      | none => .error (.missing path)
  | .above, part :: _ =>
    .error (if longestPart < part.utf8ByteSize then .tooLong path else .missing path)

-- The contents of the file that a path leads to.
def read (folder : Folder) (text : String) : Except Unreadable (List UInt8) :=
  let path := Path.parse text
  if text.contains '\x00' then .error .nullCharacter
  else if longestPath < path.toString.utf8ByteSize then .error (.tooLong path)
  else folder.walk path (if path.root = "" then .inside [] else .above) path.parts

end Folder
end Chip8
