import Stencil.Run.Scope

/-!
# What a name stands for

A name in a scope stands for the block of a call, for an argument, or for a variable of the evaluation.
Whether it is defined and what reading it gives both follow from that: `Store.isDefined_eq` and
`Run.read_eq`.
-/

namespace Stencil

/-- What a name stands for: a block, an argument that a call holds, or a variable, which may be missing. -/
inductive Binding where
  | block (b : BlockRef)
  | argument (call : CallRef) (thunk : Thunk)
  | stored (value : Option Value)

namespace Binding

/-- Whether there is anything to read. -/
def isDefined : Binding → Bool
  | block _ | argument .. => true
  | stored v => v.isSome

/-- What reading gives. -/
def value (d : Deeper) : Binding → Run Value
  | block b => return .block b
  | argument _ t => d.thunk t
  | stored v => return v.getD .null

end Binding

namespace Store

/-- What a name stands for in a row of calls and the variables under them. -/
def lookupIn (s : Store) (root : RootRef) (x : String) : List CallRef → Binding
  | [] => .stored ((s.root root).vars.get? x)
  | c :: cs =>
    match (s.call c).blockFor? x, (s.call c).params.get? x with
    | some b, _ => .block b
    | none, some t => .argument c t
    | none, none => s.lookupIn root x cs

/-- What a name stands for in a scope. -/
def lookup (s : Store) (scope : Scope) (x : String) : Binding :=
  s.lookupIn scope.root x scope.calls

theorem definedIn_eq (s : Store) (root : RootRef) (x : String) (calls : List CallRef) :
    s.definedIn root x calls = (s.lookupIn root x calls).isDefined := by
  induction calls with
  | nil => rfl
  | cons c cs ih =>
    simp only [definedIn, lookupIn, CallFrame.defines, Bindings.has]
    cases (s.call c).blockFor? x <;> cases (s.call c).params.get? x <;>
      simp [Binding.isDefined, ih]

theorem isDefined_eq (s : Store) (scope : Scope) (x : String) :
    s.isDefined scope x = (s.lookup scope x).isDefined :=
  definedIn_eq ..

end Store

namespace Run

theorem readIn_eq (d : Deeper) (root : RootRef) (x : String) (calls : List CallRef) (s : Store) :
    readIn d root x calls s = (s.lookupIn root x calls).value d s := by
  induction calls with
  | nil => rfl
  | cons c cs ih =>
    show (match (s.call c).blockFor? x, (s.call c).params.get? x with
      | some b, _ => pure (.block b)
      | none, some t => d.thunk t
      | none, none => readIn d root x cs : Run Value) s = _
    rw [Store.lookupIn]
    cases (s.call c).blockFor? x <;> cases (s.call c).params.get? x <;>
      first | exact ih | rfl

theorem read_eq (d : Deeper) (scope : Scope) (x : String) (s : Store) :
    read d scope x s = (s.lookup scope x).value d s :=
  readIn_eq ..

end Run

end Stencil
