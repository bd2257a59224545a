/-!
# Files — paths

Paths of files. A path is a root and parts; parts that stand for the same directory and doubled or final
slashes are left out when a path is read, and `..` is kept until the path is resolved.
-/

namespace Stencil

/-- A path; the root is empty for a relative path. -/
structure Path where
  root : String
  parts : List String
  deriving DecidableEq, Repr, Inhabited

namespace Path

/-- Cuts a text at its slashes. -/
def splitSlashes (piece : List Char) : List Char → List String
  | [] => [String.ofList piece.reverse]
  | '/' :: cs => String.ofList piece.reverse :: splitSlashes [] cs
  | c :: cs => splitSlashes (c :: piece) cs

/-- Reads a path. Exactly two slashes at the beginning are a root of their own. -/
def ofText (text : String) : Path :=
  let cs := text.toList
  let slashes := (cs.takeWhile (· = '/')).length
  let root := if slashes = 0 then "" else if slashes = 2 then "//" else "/"
  ⟨root, (splitSlashes [] cs).filter fun p => p ≠ "" && p ≠ "."⟩

/-- The path as text. -/
def text (p : Path) : String :=
  let joined := p.root ++ "/".intercalate p.parts
  if joined = "" then "." else joined

/-- A path taken from a directory. A path with a root is taken as it is. -/
def join (base p : Path) : Path :=
  if p.root = "" then ⟨base.root, base.parts ++ p.parts⟩ else p

/-- The directory that a path is in. -/
def parent (p : Path) : Path :=
  ⟨p.root, p.parts.dropLast⟩

/-- Takes `..` back with the part before it; `done` holds the parts so far, the last one first. -/
def resolveParts (done : List String) : List String → List String
  | [] => done.reverse
  | ".." :: ps => resolveParts (done.drop 1) ps
  | p :: ps => resolveParts (p :: done) ps

/-- The path without `..`. -/
def resolve (p : Path) : Path :=
  ⟨p.root, resolveParts [] p.parts⟩

/-- Whether a path can be that of a file: no part of it holds a NUL. -/
def isUsable (p : Path) : Bool :=
  p.parts.all fun part => !part.toList.contains '\x00'

/-- Whether a path is a directory or something in it. -/
def isInside (p dir : Path) : Bool :=
  p.root == dir.root && dir.parts.isPrefixOf p.parts

end Path

end Stencil
