import Stencil.Text.Blank

/-!
# Text — pieces

Parts of texts: trimming, splitting at a separator or at white space, and replacing one part by
another. All of them work on the characters of a text.
-/

namespace Stencil.Text

/-- Drops the characters of a class from both ends. -/
def trimBoth (p : Char → Bool) (cs : List Char) : List Char :=
  ((cs.dropWhile p).reverse.dropWhile p).reverse

/-- The text after a part that it begins with. -/
def dropPart? : List Char → List Char → Option (List Char)
  | [], cs => some cs
  | _ :: _, [] => none
  | p :: ps, c :: cs => if p = c then dropPart? ps cs else none

theorem dropPart?_append (ps cs : List Char) : dropPart? ps (ps ++ cs) = some cs := by
  induction ps with
  | nil => rfl
  | cons p ps ih => simp [dropPart?, ih]

theorem eq_append_of_dropPart? {ps cs rest : List Char} (h : dropPart? ps cs = some rest) :
    cs = ps ++ rest := by
  fun_induction dropPart? ps cs with
  | case1 cs => simpa using h
  | case2 => simp at h
  | case3 ps c cs ih => simp [ih h]
  | case4 => simp at h

/-- Cuts a text at the places where a separator begins, from left to right and without overlaps, at
most `limit` times when there is a limit. `skip` characters are still part of the last separator. -/
def splitAtPart (sep : List Char) (skip : Nat) (limit : Option Nat) (piece : List Char) :
    List Char → List (List Char)
  | [] => [piece.reverse]
  | c :: cs =>
    match skip with
    | n + 1 => splitAtPart sep n limit piece cs
    | 0 =>
      if limit ≠ some 0 && (dropPart? sep (c :: cs)).isSome then
        piece.reverse :: splitAtPart sep (sep.length - 1) (limit.map (· - 1)) [] cs
      else splitAtPart sep 0 limit (c :: piece) cs

/-- The pieces of a text between the occurrences of a separator that is not empty. -/
def splitBy (sep text : String) (limit : Option Nat) : List String :=
  (splitAtPart sep.toList 0 limit [] text.toList).map String.ofList

/-- The words of a text, at most `limit` of them cut off when there is a limit; what remains after the
last cut keeps its spaces. -/
def words (limit : Option Nat) (word : List Char) : List Char → List (List Char)
  | [] => if word.isEmpty then [] else [word.reverse]
  | c :: cs =>
    if isSpace c then
      if word.isEmpty then words limit [] cs else word.reverse :: words (limit.map (· - 1)) [] cs
    else if limit = some 0 && word.isEmpty then [c :: cs]
    else words limit (c :: word) cs

/-- The words of a text, which white space separates. -/
def splitWords (text : String) (limit : Option Nat) : List String :=
  (words limit [] text.toList).map String.ofList

/-- Writes `new` in the place of `old`, at most `limit` times when there is a limit. An empty `old`
stands before every character and at the end. -/
def replacePart (old new : List Char) (limit : Option Nat) (cs : List Char) : List Char :=
  if old.isEmpty then
    match limit with
    | some 0 => cs
    | none => new ++ cs.flatMap (· :: new)
    | some (n + 1) => new ++ (cs.take n).flatMap (· :: new) ++ cs.drop n
  else new.intercalate (splitAtPart old 0 limit [] cs)

/-- Writes one part of a text in the place of another. -/
def replace (text old new : String) (limit : Option Nat) : String :=
  String.ofList (replacePart old.toList new.toList limit text.toList)

/-- A text without the white space at its ends. -/
def strip (text : String) : String :=
  String.ofList (trimBoth isSpace text.toList)

/-- Whether one text begins with another. -/
def beginsWith (part text : String) : Bool :=
  (dropPart? part.toList text.toList).isSome

/-- Whether one text ends with another. -/
def endsIn (part text : String) : Bool :=
  (dropPart? part.toList.reverse text.toList.reverse).isSome

end Stencil.Text
