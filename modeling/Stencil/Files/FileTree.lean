import Stencil.Files.Path

/-!
# Files — the tree

A tree of files in memory. Directories are there as long as they once held a file.
-/

namespace Stencil

/-- What stands at a path. -/
inductive FileEntry where
  | file (content : List UInt8)
  | directory
  deriving DecidableEq, Repr, Inhabited

/-- The entries by path; the directories above an entry are entries, too. -/
structure FileTree where
  entries : List (Path × FileEntry)
  deriving Inhabited

/-- Why a file cannot be opened or removed. A path with a NUL is unusable. -/
inductive FileFault where
  | missing (path : Path)
  | isDirectory (path : Path)
  | notDirectory (path : Path)
  | tooLong (path : Path)
  | unusable
  deriving DecidableEq, Repr, Inhabited

/-- The path without `..`, if it can be that of a file. -/
def Path.resolve? (p : Path) : Except FileFault Path :=
  if p.isUsable then .ok p.resolve else .error .unusable

namespace FileTree

/-- The tree that holds one directory. -/
def empty (root : Path) : FileTree :=
  ⟨[(root, .directory)]⟩

/-- What stands at a path, if anything does. -/
def find? (t : FileTree) (p : Path) : Option FileEntry :=
  (t.entries.find? (·.1 == p)).map (·.2)

/-- Puts an entry at a path. -/
def put (t : FileTree) (p : Path) (e : FileEntry) : FileTree :=
  ⟨(p, e) :: t.entries.filter (·.1 != p)⟩

/-- The directories above a path. -/
def above (root : String) (before : List String) : List String → List Path
  | [] => []
  | [_] => []
  | part :: rest => ⟨root, before ++ [part]⟩ :: above root (before ++ [part]) rest

/-- Puts a file at a path, and makes the directories above it. -/
def putFile (t : FileTree) (p : Path) (content : List UInt8) : FileTree :=
  let t := (above p.root [] p.parts).foldl
    (fun t dir => if (t.find? dir).isSome then t else t.put dir .directory) t
  t.put p (.file content)

/-- How many bytes a part of a path may have. -/
def longestPart : Nat := 255

/-- How many bytes a path may have. -/
def longestPath : Nat := 4095

/-- Follows the parts of a path from a directory on. -/
def walk (t : FileTree) (whole : Path) (dir : List String) : List String → Except FileFault FileEntry
  | [] => .ok .directory
  | ".." :: parts => t.walk whole dir.dropLast parts
  | part :: parts =>
    let here := dir ++ [part]
    match t.find? ⟨whole.root, here⟩ with
    | some .directory => t.walk whole here parts
    | some (.file content) => if parts.isEmpty then .ok (.file content) else .error (.notDirectory whole)
    | none => .error (if longestPart < part.utf8ByteSize then .tooLong whole else .missing whole)

/-- What a path leads to. -/
def locate (t : FileTree) (p : Path) : Except FileFault FileEntry :=
  if !p.isUsable then .error .unusable
  else if longestPath < p.text.utf8ByteSize then .error (.tooLong p)
  else t.walk p [] p.parts

/-- The content of a file. -/
def read (t : FileTree) (p : Path) : Except FileFault (List UInt8) := do
  match ← t.locate p with
  | .file content => return content
  | .directory => throw (.isDirectory p)

/-- Writes a file, in the place of a former one if there is one. -/
def write (t : FileTree) (p : Path) (content : List UInt8) : Except FileFault FileTree :=
  match t.locate p with
  | .ok .directory => .error (.isDirectory p)
  | .ok (.file _) | .error (.missing _) => .ok (t.putFile p content)
  | .error e => .error e

/-- Removes a file. -/
def delete (t : FileTree) (p : Path) : Except FileFault FileTree := do
  let _ ← t.read p
  return ⟨t.entries.filter (·.1 != p)⟩

/-- What a path leads to, if it leads anywhere. A path that is too long is refused. -/
def stat (t : FileTree) (p : Path) : Except FileFault (Option FileEntry) :=
  match t.locate p with
  | .ok e => .ok (some e)
  | .error (.tooLong p) => .error (.tooLong p)
  | .error _ => .ok none

end FileTree

end Stencil
