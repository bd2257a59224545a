import Stencil.Run.Deeper

/-!
# Run — variables and parameters

Variables in a scope. A name is looked up among the block and the parameters of each macro call from the
innermost out, and then among the variables of the evaluation; an assignment goes to those variables,
and hides the parameters of that name on its way. `Store.undo` takes an assignment back.
-/

namespace Stencil

/-- The name by which a macro reads the block given to it. -/
def bodyContent : String := "bodyContent"

/-- The scope of a macro call made in a scope. -/
def Scope.enter (scope : Scope) (call : CallRef) : Scope :=
  ⟨call :: scope.calls, scope.root⟩

namespace CallFrame

/-- The block of a call, if the name is that of the block. -/
def blockFor? (f : CallFrame) (x : String) : Option BlockRef :=
  if x = bodyContent then f.block else none

/-- Whether a name is a parameter or the block of a call. -/
def defines (f : CallFrame) (x : String) : Bool :=
  f.params.has x || (f.blockFor? x).isSome

end CallFrame

namespace Store

/-- The frame of a macro call. -/
def call (s : Store) (c : CallRef) : CallFrame :=
  s.calls.get c.index

/-- The frame of an evaluation. -/
def root (s : Store) (r : RootRef) : RootFrame :=
  s.roots.get r.index

/-- A parameter that was hidden. -/
def shadow (s : Store) (h : Nat) : Shadow :=
  s.shadows.get h

/-- The block of a number. -/
def block (s : Store) (b : BlockRef) : Block :=
  s.blocks.getD b.id default

def setCall (s : Store) (c : CallRef) (f : CallFrame) : Store :=
  { s with calls := s.calls.set c.index f }

def setRoot (s : Store) (r : RootRef) (f : RootFrame) : Store :=
  { s with roots := s.roots.set r.index f }

/-- Whether a name is defined for a row of calls and the variables under them. -/
def definedIn (s : Store) (root : RootRef) (x : String) : List CallRef → Bool
  | [] => (s.root root).vars.has x
  | c :: cs => (s.call c).defines x || s.definedIn root x cs

/-- Whether a name is defined in a scope. -/
def isDefined (s : Store) (scope : Scope) (x : String) : Bool :=
  s.definedIn scope.root x scope.calls

/-- Gives a variable of an evaluation a value. -/
def assignRoot (s : Store) (r : RootRef) (x : String) (v : Value) : Undo × Store :=
  let f := s.root r
  (.rebind r x (f.vars.get? x), s.setRoot r { f with vars := f.vars.put x v })

/-- Gives a name a value under a row of calls. -/
def assignIn (root : RootRef) (x : String) (v : Value) : List CallRef → Store → Undo × Store
  | [], s => s.assignRoot root x v
  | c :: cs, s =>
    let f := s.call c
    match f.params.get? x with
    | none => assignIn root x v cs s
    | some thunk =>
      let s := s.setCall c { f with params := f.params.remove x }
      let (inner, s) := assignIn root x v cs s
      let undo := Undo.unhide s.shadows.size inner
      let f := s.call c
      let s := { s with shadows := s.shadows.alloc ⟨c, x, thunk, false⟩ }
      (undo, s.setCall c { f with hidden := undo :: f.hidden })

/-- Gives a name a value in a scope. The result takes the assignment back. -/
def assign (s : Store) (scope : Scope) (x : String) (v : Value) : Undo × Store :=
  assignIn scope.root x v scope.calls s

/-- Takes an assignment back. -/
def undo : Undo → Store → Store
  | .rebind r x former, s =>
    let f := s.root r
    match former with
    | some v => s.setRoot r { f with vars := f.vars.put x v }
    | none => s.setRoot r { f with vars := f.vars.remove x }
  | .unhide h inner, s =>
    let p := s.shadow h
    if p.done then s
    else
      let s := undo inner { s with shadows := s.shadows.set h { p with done := true } }
      let f := s.call p.call
      s.setCall p.call { f with params := f.params.put p.param p.thunk }

/-- Gives a macro call the parameters again that assignments have hidden, the latest first. -/
def restoreParams (s : Store) (c : CallRef) : Store :=
  let f := s.call c
  f.hidden.foldl (fun s u => undo u s) (s.setCall c { f with hidden := [] })

/-- The macros known to an evaluation. -/
def macros (s : Store) (r : RootRef) : List MacroDef :=
  (s.root r).macros

/-- Makes macros known to an evaluation, except those whose names are taken. -/
def addMacros (s : Store) (r : RootRef) (ms : List MacroDef) : Store :=
  let f := s.root r
  s.setRoot r { f with macros := ms.foldl addMacro f.macros }

/-- Keeps a block that was made. -/
def addBlock (s : Store) (b : Block) : Store :=
  { s with blocks := s.blocks.insert b.id b }

/-- Begins a macro call. -/
def enterCall (s : Store) (params : Bindings Thunk) (block : Option Block) : CallRef × Store :=
  let s := block.elim s s.addBlock
  (⟨s.calls.size⟩, { s with calls := s.calls.alloc ⟨params, block.map Block.ref, []⟩ })

/-- Begins an evaluation. -/
def enterRoot (s : Store) (f : RootFrame) : Scope × Store :=
  (⟨[], ⟨s.roots.size⟩⟩, { s with roots := s.roots.alloc f })

end Store

namespace Run

/-- A new block in a scope. -/
def newBlock (scope : Scope) (body : List Node) (origin : String) : Run Block := do
  let b : Block := ⟨← freshId, body, scope, origin⟩
  modify fun s => s.addBlock b
  return b

/-- Gives a name a value in a scope. -/
def assign (scope : Scope) (x : String) (v : Value) : Run Undo :=
  modifyGet fun s => s.assign scope x v

/-- The value of a name for a row of calls and the variables under them. An argument is evaluated each
time it is read. -/
def readIn (d : Deeper) (root : RootRef) (x : String) : List CallRef → Run Value
  | [] => do return (((← get).root root).vars.get? x).getD .null
  | c :: cs => do
    let f := (← get).call c
    match f.blockFor? x, f.params.get? x with
    | some b, _ => return .block b
    | none, some t => d.thunk t
    | none, none => readIn d root x cs

/-- The value of a name in a scope. -/
def read (d : Deeper) (scope : Scope) (x : String) : Run Value :=
  readIn d scope.root x scope.calls

end Run

end Stencil
