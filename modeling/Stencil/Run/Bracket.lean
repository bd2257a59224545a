import Stencil.Run.Loop
import Stencil.Run.Scope

/-!
# Run — loops, calls and templates

Constructs that render something in between: loops, macro calls, and templates that are rendered in the
place of a directive. Loops and calls give back the variables and parameters that they changed, however
they end, and loops and templates are where breaks end.
-/

namespace Stencil

/-- The name by which the body of a loop reads the state of the loop. -/
def loopVar : String := "foreach"

namespace Run

/-- Renders a body once for each item that is left in a loop, at most so many times. -/
def iterate (scope : Scope) (x : String) (r : LoopRef) (body : Run Unit) : Nat → Run Unit
  | 0 => exhausted
  | n + 1 => do
    match ← loopNext r with
    | none => return ()
    | some v =>
      let _ ← assign scope x v
      body
      iterate scope x r body n

/-- Renders a body for each item of a source. A break ends the loop; however it ends, the variables of
the loop are what they were before. -/
def forEach (fuel : Nat) (scope : Scope) (x : String) (source : Source) (body : Run Unit) :
    Run Unit := do
  let undoVar ← assign scope x .null
  let r ← newLoop source
  let undoLoop ← assign scope loopVar (.loop r)
  andThen (catchLeave (fun _ => true) (iterate scope x r body fuel)) fun s =>
    (s.undo undoLoop).undo undoVar

/-- What a macro makes of a failure inside it: an evaluation error is traced. -/
def traced (m : MacroDef) : Failure → Failure
  | .evaluation e => .evaluation (e.inside ⟨m.name, m.place.line⟩)
  | f => f

/-- Renders the body of a macro for one call. An evaluation error is traced, and however the call ends
the parameters that the body assigned to are given back. -/
def renderMacro (d : Deeper) (scope : Scope) (m : MacroDef) (args : List Expr)
    (body : Option (List Node)) : Run Unit := do
  let block ← body.mapM fun nodes => do return ⟨← freshId, nodes, scope, "#@" ++ m.name⟩
  let params := Bindings.ofList (m.params.zip (args.map fun e => ⟨e, scope⟩))
  let c ← modifyGet fun s => s.enterCall params block
  andThen (mapFailure (traced m) (d.render (scope.enter c) m.body)) fun s => s.restoreParams c

/-- Renders a template in the place of a directive. Its macros become known where their names are free,
and a break that is not meant for a loop ends no more than the template. -/
def renderTemplate (d : Deeper) (scope : Scope) (t : Template) : Run Unit := do
  modify fun s => s.addMacros scope.root t.macros
  catchLeave (fun loopOnly => !loopOnly) (d.render scope t.document.nodes)

/-- Runs a whole evaluation. A break ends it, and one that is meant for a loop is an error there. -/
def endBreaks (x : Run Unit) : Run Unit := fun s =>
  match x s with
  | .error (.leave place loopOnly) s => if loopOnly then failAt place .leaveOutside s else .ok () s
  | r => r

end Run

end Stencil
