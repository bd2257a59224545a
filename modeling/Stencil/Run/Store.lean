import Stencil.Run.Failure
import Stencil.Value.Bindings
import Stencil.Value.Equality
import Std.Data.TreeMap

/-!
# Run — the store

Everything that evaluation can change: lists, streams, objects and loops, which are the cells that host
code works on; the variables of each evaluation, the parameters of each macro call, and the blocks that
were made; the loaders with
the templates they have read; named texts and files; and the text written so far. A step of evaluation
takes a store and leaves one, also when it stops early; a step of host code sees and changes the cells
only, and never breaks.
-/

namespace Stencil

/-- A one-shot stream: the items left, and the failure it ends with, if it ends so. -/
structure Stream where
  items : List Value
  failure : Option String
  deriving Inhabited

/-- The state of an object, by class. -/
inductive ObjectState where
  | bare
  | counter (calls : Int)
  | person (name : Value) (tags : Value)
  | registry (items : List (Value × Value))
  | box (attrs : Bindings Value)

instance : Inhabited ObjectState := ⟨.bare⟩

/-- Where a loop takes its items from. A list is read by position while it may change. -/
inductive Source where
  | items (rest : List Value)
  | numbers (next step : Int) (count : Nat)
  | listFrom (list : ListRef) (position : Nat)
  | stream (stream : StreamRef)
  | loop (loop : LoopRef)

instance : Inhabited Source := ⟨.items []⟩

/-- The state of a loop. The next item may have been taken already, to see whether there is one; the
index of the current item is -1 before the first. -/
structure LoopState where
  source : Source
  ahead : Option Value
  index : Int

instance : Inhabited LoopState := ⟨⟨default, none, -1⟩⟩

/-- An expression with the scope it is evaluated in. -/
structure Thunk where
  expr : Expr
  scope : Scope

instance : Inhabited Thunk := ⟨⟨default, default⟩⟩

/-- Nodes that are rendered in their scope whenever they are read. No two blocks have one number. -/
structure Block where
  id : Nat
  body : List Node
  scope : Scope
  origin : String
  deriving Inhabited

/-- A block as a value. -/
def Block.ref (b : Block) : BlockRef :=
  ⟨b.id, b.origin⟩

/-- A parameter of a call that an assignment has hidden, and whether that was taken back. -/
structure Shadow where
  call : CallRef
  param : String
  thunk : Thunk
  done : Bool
  deriving Inhabited

/-- What takes back an assignment: a variable gets its former value or none, and then the parameters
that the assignment hid get their arguments again, from the outermost call in, each at most once. -/
inductive Undo where
  | rebind (root : RootRef) (var : String) (former : Option Value)
  | unhide (shadow : Nat) (inner : Undo)

instance : Inhabited Undo := ⟨.rebind default "" none⟩

/-- A macro call that is active: its parameters, the block given to it, and what takes back the
assignments that hid its parameters, the latest first. -/
structure CallFrame where
  params : Bindings Thunk
  block : Option BlockRef
  hidden : List Undo
  deriving Inhabited

/-- How the host writes values as text: as it is, in upper case, or not at all. -/
inductive HostKind where
  | standard
  | shouting
  | failing
  deriving DecidableEq, Repr, Inhabited

/-- The cell of a loader. -/
structure LoaderRef where
  index : Nat
  deriving DecidableEq, Repr, Inhabited

/-- A template: a document and the loader for the templates that it names. Two templates are the same
when their numbers are. -/
structure Template where
  id : Nat
  document : Document
  loader : LoaderRef
  deriving Inhabited

/-- The macros that a template defines itself. -/
def Template.macros (t : Template) : List MacroDef :=
  t.document.macros

/-- Where a loader finds named texts. -/
inductive Opener where
  | noNames
  | texts
  | files (root : Path) (encoding : String)
  deriving DecidableEq, Repr, Inhabited

/-- A loader: each name is read once. -/
structure Loader where
  opener : Opener
  cache : Bindings Template
  deriving Inhabited

/-- The variables of an evaluation, the macros known to it, its host and its loader. -/
structure RootFrame where
  vars : Bindings Value
  macros : List MacroDef
  host : HostKind
  loader : LoaderRef
  deriving Inhabited

/-- What host code works on. -/
structure Cells where
  lists : Heap (Array Value) := {}
  streams : Heap Stream := {}
  objects : Heap ObjectState := {}
  loops : Heap LoopState := {}
  nextId : Nat := 0
  deriving Inhabited

/-- The state of evaluation. -/
structure Store extends Cells where
  roots : Heap RootFrame := {}
  calls : Heap CallFrame := {}
  shadows : Heap Shadow := {}
  blocks : Std.TreeMap Nat Block := {}
  loaders : Heap Loader := {}
  templates : Nat := 0
  texts : Bindings String := []
  opened : Bindings Nat := []
  files : FileTree := ⟨[]⟩
  written : String := ""
  deriving Inhabited

/-- A step of host code. -/
abbrev Step := EStateM Stop Cells

/-- A step of evaluation. -/
abbrev Run := EStateM Halt Store

namespace Step

/-- Stops with a failure. -/
def fail {α : Type} (f : Failure) : Step α :=
  throw (.failure f)

/-- Stops with an ordinary error of host code. -/
def fault {α : Type} (kind : FaultKind) (text : String) : Step α :=
  fail (.fault ⟨kind, text⟩)

/-- Stops with an evaluation error at a place. -/
def failAt {α : Type} (place : Place) (cause : EvalCause) : Step α :=
  fail (.evaluation ⟨some place, cause, []⟩)

/-- Stops for want of fuel. -/
def exhausted {α : Type} : Step α :=
  throw .exhausted

/-- A step of host code as a step of evaluation. The cells are taken out of the store meanwhile, so that
they are changed in place. -/
def toRun {α : Type} (x : Step α) : Run α :=
  fun ⟨cells, roots, calls, shadows, blocks, loaders, templates, texts, opened, files, written⟩ =>
    match x cells with
    | .ok a cells =>
      .ok a ⟨cells, roots, calls, shadows, blocks, loaders, templates, texts, opened, files, written⟩
    | .error h cells =>
      .error h.halt
        ⟨cells, roots, calls, shadows, blocks, loaders, templates, texts, opened, files, written⟩

end Step

instance : MonadLift Step Run := ⟨Step.toRun⟩

namespace Run

/-- Stops with a failure. -/
def fail {α : Type} (f : Failure) : Run α :=
  throw (.failure f)

/-- Stops with an evaluation error at a place. -/
def failAt {α : Type} (place : Place) (cause : EvalCause) : Run α :=
  fail (.evaluation ⟨some place, cause, []⟩)

/-- Stops for want of fuel. -/
def exhausted {α : Type} : Run α :=
  throw .exhausted

/-- Runs a step and changes the store after it, however the step ends. -/
def andThen {α : Type} (x : Run α) (after : Store → Store) : Run α := fun s =>
  match x s with
  | .ok a s => .ok a (after s)
  | .error h s => .error h (after s)

/-- Runs a step and turns each failure into another one. -/
def mapFailure {α : Type} (f : Failure → Failure) (x : Run α) : Run α := fun s =>
  match x s with
  | .ok a s => .ok a s
  | .error (.failure e) s => .error (.failure (f e)) s
  | .error h s => .error h s

/-- Runs a step and stops the breaks that the condition accepts. -/
def catchLeave (stops : Bool → Bool) (x : Run Unit) : Run Unit := fun s =>
  match x s with
  | .error (.leave place loopOnly) s =>
    if stops loopOnly then .ok () s else .error (.leave place loopOnly) s
  | r => r

/-- Runs a step that writes text, and gives that text instead of writing it. Text written before a step
that stops early is lost. -/
def capture (x : Run Unit) : Run String := fun s =>
  match x { s with written := "" } with
  | .ok _ s' => .ok s'.written { s' with written := s.written }
  | .error h s' => .error h { s' with written := s.written }

/-- Writes text. -/
def write (text : String) : Run Unit :=
  modify fun s => { s with written := s.written ++ text }

/-- A number for a block that was not given out before. -/
def freshId : Step Nat :=
  modifyGet fun s => (s.nextId, { s with nextId := s.nextId + 1 })

/-- A new list. -/
def newList (items : Array Value) : Step Value :=
  modifyGet fun s => (.list ⟨s.lists.size⟩, { s with lists := s.lists.alloc items })

/-- The items of a list. -/
def listItems (r : ListRef) : Step (Array Value) := do
  return (← get).lists.get r.index

/-- Changes the items of a list. -/
def changeList (r : ListRef) (change : Array Value → Array Value) : Step Unit :=
  modify fun s => { s with lists := s.lists.modify r.index change }

/-- Adds an item to the end of a list. -/
def pushItem (r : ListRef) (v : Value) : Step Unit :=
  changeList r fun items => items.push v

/-- A new object. -/
def newObject (cls : HostClass) (state : ObjectState) : Step Value :=
  modifyGet fun s => (.object cls ⟨s.objects.size⟩, { s with objects := s.objects.alloc state })

/-- The state of an object. -/
def objectState (r : ObjectRef) : Step ObjectState := do
  return (← get).objects.get r.index

/-- Changes the state of an object. -/
def setObject (r : ObjectRef) (state : ObjectState) : Step Unit :=
  modify fun s => { s with objects := s.objects.set r.index state }

/-- All lists as they are. -/
def allLists : Step (Heap (Array Value)) := do
  return (← get).lists

/-- The number of objects. -/
def objectCount : Step Nat := do
  return (← get).objects.size

end Run

end Stencil
