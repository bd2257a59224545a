import Stencil.Run.Store

/-!
# Run — loops

Taking items one by one. A loop may look one item ahead, which takes the item from its source and keeps
it until it is wanted, so that looking never loses or repeats an item. A loop over another loop takes
the items that are left there.
-/

namespace Stencil

namespace Run

/-- The state of a loop. -/
def loopState (r : LoopRef) : Step LoopState := do
  return (← get).loops.get r.index

/-- Changes the state of a loop. -/
def setLoop (r : LoopRef) (l : LoopState) : Step Unit :=
  modify fun s => { s with loops := s.loops.set r.index l }

/-- A new loop over a source. -/
def newLoop (source : Source) : Step LoopRef :=
  modifyGet fun s => (⟨s.loops.size⟩, { s with loops := s.loops.alloc ⟨source, none, -1⟩ })

/-- Takes the next item of a stream. A stream that fails is empty from then on. -/
def streamNext (r : StreamRef) : Step (Option Value) := do
  let t := (← get).streams.get r.index
  match t.items with
  | v :: vs =>
    modify fun s => { s with streams := s.streams.set r.index { t with items := vs } }
    return some v
  | [] =>
    modify fun s => { s with streams := s.streams.set r.index ⟨[], none⟩ }
    match t.failure with
    | some text => Step.fault .badValue text
    | none => return none

/-- Takes the next item of a source, and gives the source that is left. `loopNext` takes the next item of
another loop. A list that has come to its end stays there. -/
def sourceNext (loopNext : LoopRef → Step (Option Value)) :
    Source → Step (Option Value × Source)
  | .items [] => return (none, .items [])
  | .items (v :: vs) => return (some v, .items vs)
  | .numbers _ _ 0 => return (none, .items [])
  | .numbers next step (n + 1) => return (some (.int next), .numbers (next + step) step n)
  | .listFrom r position => do
    match (← listItems r)[position]? with
    | some v => return (some v, .listFrom r (position + 1))
    | none => return (none, .items [])
  | .stream r => do return (← streamNext r, .stream r)
  | .loop r => do return (← loopNext r, .loop r)

/-- Looks one item ahead, given how to take an item from another loop. -/
def lookAheadWith (loopNext : LoopRef → Step (Option Value)) (r : LoopRef) : Step Bool := do
  let l ← loopState r
  match l.ahead with
  | some _ => return true
  | none =>
    let (v, source) ← sourceNext loopNext l.source
    let l ← loopState r
    setLoop r { l with source := source, ahead := v }
    return v.isSome

/-- Takes the next item of a loop, given how to take one from another loop. -/
def loopNextWith (loopNext : LoopRef → Step (Option Value)) (r : LoopRef) : Step (Option Value) := do
  if ← lookAheadWith loopNext r then
    let l ← loopState r
    setLoop r { l with ahead := none, index := l.index + 1 }
    return l.ahead
  else return none

/-- Takes the next item of a loop, through a chain of at most so many loops. -/
def loopNextWithin : Nat → LoopRef → Step (Option Value)
  | 0, _ => return none
  | n + 1, r => loopNextWith (loopNextWithin n) r

/-- Takes the next item of a loop. A loop takes items only from older loops, of which there are at most
as many as its number. -/
def loopNext (r : LoopRef) : Step (Option Value) :=
  loopNextWithin (r.index + 1) r

/-- Whether a loop has another item. -/
def lookAhead (r : LoopRef) : Step Bool :=
  lookAheadWith (loopNextWithin r.index) r

/-- The source of the items of a value, if it has items. A map gives its values. -/
def source? : Value → Option Source
  | .tuple vs | .set vs | .keys vs => some (.items vs)
  | .map entries => some (.items (entries.map (·.2)))
  | .range start stop step => some (.numbers start step (rangeLength start stop step))
  | .list r => some (.listFrom r 0)
  | .stream r => some (.stream r)
  | .loop r => some (.loop r)
  | _ => none

/-- All items of a source, after some that are taken already; at most so many are taken. -/
def collect (taken : Array Value) : Nat → Source → Step (Array Value)
  | 0, _ => Step.exhausted
  | n + 1, source => do
    match ← sourceNext loopNext source with
    | (some v, source) => collect (taken.push v) n source
    | (none, _) => return taken

/-- Takes all items of a source, at most so many. Each is given to `use` before the next is taken. -/
def forSource (use : Value → Step Unit) : Nat → Source → Step Unit
  | 0, _ => Step.exhausted
  | n + 1, source => do
    match ← sourceNext loopNext source with
    | (some v, source) =>
      use v
      forSource use n source
    | (none, _) => return ()

end Run

end Stencil
