import Stencil.Yaml.Number
import Stencil.Yaml.Text

/-!
# YAML — scalars

Plain, quoted and block scalars. The lines of a scalar are joined: a line end becomes a space, and empty
lines become line ends, except where a block scalar keeps them. Texts that are read so far are given
backwards.
-/

namespace Stencil

open Stencil.Text (isDigit isTabOrSpace)

namespace YamlRead

/-- A bracket or a comma, which ends a plain scalar inside a flow collection. -/
def isFlowMark (c : Char) : Bool :=
  c = ',' || c = '[' || c = ']' || c = '\x7b' || c = '\x7d'

/-- A character that begins something else than a plain scalar, or would. -/
def isIndicator (c : Char) : Bool :=
  "-?:#&*!|>'\"%@`".toList.contains c || isFlowMark c

/-- Whether a plain scalar can begin here. -/
def startsPlain (flow old : Bool) : List Char → Bool
  | [] => false
  | c :: cs =>
    if !(isIndicator c || isTabOrSpace c || isBreak c) then true
    else if c = ':' && flow && !old then !(cs.head?.any isTabOrSpace)
    else (c = '-' || (!flow && (c = '?' || c = ':'))) && !gapsHere cs

/-- How long the part of a plain scalar up to a blank is. -/
def plainLength (flow old : Bool) : List Char → Nat
  | [] => 0
  | c :: cs =>
    if isTabOrSpace c || isBreak c then 0
    else if c = ':' && gapsHere cs then 0
    else if flow && (isFlowMark c || (old && c = '?')) then 0
    else plainLength flow old cs + 1

/-- The line ends of the empty lines between two lines of a plain scalar, or none if a mark between
documents comes after one of them. -/
def plainBreaks : Nat → List Char → YamlRead (Option (List Char))
  | 0, _ => refuse
  | n + 1, done => do
    skipWhile (· = ' ')
    match ← lineEnd with
    | [] => return some done.reverse
    | cs => if isMark (← rest) then return none else plainBreaks n (cs ++ done)

/-- What stands between two parts of a plain scalar, or none before a mark between documents; and
whether a line has ended. -/
def plainGap : YamlRead (Option (List Char) × Bool) := do
  let spaces ← takeWhile (· = ' ')
  match ← lineEnd with
  | [] => return (some spaces, false)
  | first =>
    if isMark (← rest) then return (none, true)
    else
      let more ← plainBreaks (← enough) []
      return (more.map (join first), true)

/-- Reads the parts of a plain scalar that is left, given the gap before them; outside flow collections
they stand at the column `indent` at least. The result also says whether a line has ended after it. -/
def plainParts (flow old : Bool) (indent : Int) :
    Nat → List Char → List Char → Bool → YamlRead (List Char × Bool)
  | 0, _, _, _ => refuse
  | n + 1, done, gap, ended => do
    let cs ← rest
    let length := if cs.head? = some '#' then 0 else plainLength flow old cs
    if length = 0 then return (done.reverse, ended)
    else
      skipMany length
      let done := (cs.take length).reverse ++ (gap.reverse ++ done)
      let (next, ended) ← plainGap
      let gap := next.getD []
      if gap.isEmpty || (← rest).head? = some '#' || (!flow && (← column) < indent) then
        return (done.reverse, ended)
      else plainParts flow old indent n done gap ended

/-- Reads a plain scalar, and whether a line has ended after it. -/
def plain (flow old : Bool) (indent : Int) : YamlRead (String × Bool) := do
  let (cs, ended) ← plainParts flow old indent (← enough) [] [] false
  return (String.ofList cs, ended)

/-- The line ends of the empty lines inside a quoted scalar. A mark between documents is refused. -/
def quotedBreaks : Nat → List Char → YamlRead (List Char)
  | 0, _ => refuse
  | n + 1, done => do
    if isMark (← rest) then refuse
    else
      skipWhile isTabOrSpace
      match ← lineEnd with
      | [] => return done.reverse
      | cs => quotedBreaks n (cs ++ done)

/-- Reads the blanks and line ends between two parts of a quoted scalar. -/
def quotedGap : YamlRead (List Char) := do
  let blanks ← takeWhile isTabOrSpace
  match ← lineEnd with
  | [] => return blanks
  | first => return join first (← quotedBreaks (← enough) [])

/-- The character of an escape of one letter. -/
def escape? : Char → Option Char
  | '0' => some '\x00' | 'a' => some '\x07' | 'b' => some '\x08' | 't' => some '\t' | '\t' => some '\t'
  | 'n' => some '\n' | 'v' => some '\x0b' | 'f' => some '\x0c' | 'r' => some '\r' | 'e' => some '\x1b'
  | ' ' => some ' ' | '"' => some '"' | '/' => some '/' | '\\' => some '\\' | 'N' => some '\u0085'
  | '_' => some '\u00a0' | 'L' => some '\u2028' | 'P' => some '\u2029'
  | _ => none

/-- How many digits an escape by number has. -/
def escapeDigits : Char → Nat
  | 'x' => 2
  | 'u' => 4
  | 'U' => 8
  | _ => 0

/-- The code of a character that is written as two halves, of which the second is escaped as well. -/
def pairedCode? (high : Nat) : List Char → Option Nat
  | '\\' :: 'u' :: cs => do
    let low ← Yaml.number? 16 (cs.take 4)
    if 0xD800 ≤ high && high < 0xDC00 && 0xDC00 ≤ low && low < 0xE000 && 4 ≤ cs.length then
      some (0x10000 + (high - 0xD800) * 0x400 + (low - 0xDC00))
    else none
  | _ => none

/-- Reads an escape after its backslash: what it stands for. An escaped line end stands for nothing. -/
def escaped : YamlRead (List Char) := do
  match ← rest with
  | [] => refuse
  | c :: cs =>
    match escape? c with
    | some d =>
      skip
      return [d]
    | none =>
      if isBreak c then
        skip
        quotedBreaks (← enough) []
      else
        let digits := cs.take (escapeDigits c)
        if digits.length < escapeDigits c then refuse
        else
          match Yaml.number? 16 digits with
          | none => refuse
          | some code =>
            if 0x110000 ≤ code then throw .noCharacter
            else
              skipMany (digits.length + 1)
              match pairedCode? code (← rest) with
              | some paired =>
                skipMany 6
                return [Char.ofNat paired]
              | none => return [Char.ofNat code]

/-- Reads the rest of a quoted scalar with its closing quote. Between single quotes a quote is written
twice, and nothing is escaped. -/
def quotedRest (double : Bool) : Nat → List Char → YamlRead (List Char)
  | 0, _ => refuse
  | n + 1, done => do
    match ← rest with
    | [] => refuse
    | c :: cs =>
      if isTabOrSpace c || isBreak c then quotedRest double n ((← quotedGap).reverse ++ done)
      else if !double && c = '\'' && cs.head? = some '\'' then
        skipMany 2
        quotedRest double n ('\'' :: done)
      else if c = (if double then '"' else '\'') then
        skip
        return done.reverse
      else if double && c = '\\' then
        skip
        quotedRest double n ((← escaped).reverse ++ done)
      else
        skip
        quotedRest double n (c :: done)

/-- Reads a quoted scalar after its first quote. -/
def quoted (double : Bool) : YamlRead String := do
  return String.ofList (← quotedRest double (← enough) [])

/-- How the end of a block scalar is treated: its last line end is kept, or nothing, or everything. -/
inductive BlockEnd where
  | clip
  | strip
  | keep
  deriving DecidableEq, Repr, Inhabited

/-- The sign that says how the end of a block scalar is treated, if it stands here. -/
def blockEnd : YamlRead BlockEnd := do
  match ← rest with
  | '+' :: _ =>
    skip
    return .keep
  | '-' :: _ =>
    skip
    return .strip
  | _ => return .clip

/-- The digit that says how far a block scalar stands in, if it stands here. -/
def blockIndent : YamlRead (Option Nat) := do
  match ← rest with
  | c :: _ =>
    if isDigit c then
      if c = '0' then refuse
      else
        skip
        return some (c.toNat - '0'.toNat)
    else return none
  | [] => return none

/-- Reads the header of a block scalar: a sign and a digit in any order, each of which may be missing. -/
def blockHeader : YamlRead (BlockEnd × Option Nat) := do
  let before ← blockEnd
  let given ← blockIndent
  let kind ← if before = .clip && given.isSome then blockEnd else pure before
  if partsHere (← rest) then
    finishLine
    return (kind, given)
  else refuse

/-- How many spaces stand at the beginning of a text, at most so many. -/
def spacesUpTo : Nat → List Char → Nat
  | n + 1, ' ' :: cs => spacesUpTo n cs + 1
  | _, _ => 0

/-- Goes past the spaces before a column. -/
def skipTo (indent : Nat) : YamlRead Unit := do
  skipMany (spacesUpTo (indent - (← column)) (← rest))

/-- Reads the line ends of the empty lines of a block scalar, and goes to the column of its text. -/
def blockBreaks (indent : Nat) : Nat → List Char → YamlRead (List Char)
  | 0, _ => refuse
  | n + 1, done => do
    skipTo indent
    match ← lineEnd with
    | [] => return done.reverse
    | cs => blockBreaks indent n (cs ++ done)

/-- Reads the empty lines at the beginning of a block scalar whose column is not given: their line ends,
and the column of the text that stands furthest in. -/
def leadingBreaks : Nat → Nat → List Char → YamlRead (List Char × Nat)
  | 0, _, _ => refuse
  | n + 1, furthest, done => do
    let spaces ← takeWhile (· = ' ')
    let column ← column
    let furthest := if spaces.isEmpty then furthest else max furthest column
    match ← lineEnd with
    | [] => return (done.reverse, furthest)
    | cs => leadingBreaks n furthest (cs ++ done)

/-- What has been read of a block scalar: its text, the line end after it and those of the empty lines
that follow. -/
structure BlockText where
  done : List Char
  last : List Char
  breaks : List Char

/-- Reads the lines of a block scalar. In a folded one, two lines are joined unless one of them begins
with a blank. `top` says that nothing is around it, where a mark between documents ends it. -/
def blockLines (folded top : Bool) (indent : Nat) : Nat → BlockText → YamlRead BlockText
  | 0, _ => refuse
  | n + 1, b => do
    let cs ← rest
    if (← column) ≠ indent || cs.isEmpty then return b
    else
      let flush := !cs.head?.any isTabOrSpace
      let text ← takeWhile fun c => !isBreak c
      let done := text.reverse ++ (b.breaks.reverse ++ b.done)
      let last ← lineEnd
      let breaks ← blockBreaks indent (← enough) []
      let next ← rest
      if (← column) ≠ indent || next.isEmpty || (top && indent = 0 && isMark next) then
        return ⟨done, last, breaks⟩
      else
        let between :=
          if folded && last = ['\n'] && flush && !next.head?.any isTabOrSpace then
            if breaks.isEmpty then [' '] else []
          else last
        blockLines folded top indent n ⟨between ++ done, last, breaks⟩

/-- Reads a block scalar after its first character, in a collection at the given column. -/
def block (folded : Bool) (outer : Int) : YamlRead String := do
  let (kind, given) ← blockHeader
  let least := (outer + 1).toNat
  let (breaks, indent) ← match given with
    | none => do
      let (breaks, furthest) ← leadingBreaks (← enough) 0 []
      pure (breaks, max least furthest)
    | some k => do
      let indent := max least 1 + k - 1
      pure (← blockBreaks indent (← enough) [], indent)
  let b ← blockLines folded (given.isNone && least = 0) indent (← enough) ⟨[], [], breaks⟩
  let tail := match kind with
    | .clip => b.last
    | .strip => []
    | .keep => b.last ++ b.breaks
  return String.ofList (b.done.reverse ++ tail)

end YamlRead

end Stencil
