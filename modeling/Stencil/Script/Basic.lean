import Stencil.Run.Bracket
import Stencil.Run.Library
import Stencil.Template.Source

/-!
# Script — what an evaluation does

An evaluation in a scope as data: the order in which it uses host values, reads and assigns variables,
writes text, and renders what is nested in it. `Script.run` carries a script out. Two steps end a break,
`loop` and `template`; two give back what was assigned, `loop` and `call`.
-/

namespace Stencil

/-- What an evaluation does without rendering anything and without changing a variable or a parameter. -/
inductive Act : Type → Type 1 where
  | step {α : Type} (x : Step α) : Act α
  | fuel : Act Nat
  | host : Act HostKind
  | source (e : Expr) : Act String
  | find (name : String) : Act (Option MacroDef)
  | defined (x : String) : Act Bool
  | define (body : List Node) (origin : String) : Act Block
  | write (text : String) : Act Unit
  | load (place : Place) (name : String) : Act Template
  | parse (place : Place) (text : String) : Act Template

/-- Carries an act out in a scope. -/
def Act.run (fuel : Nat) (scope : Scope) : {α : Type} → Act α → Run α
  | _, step x => x.toRun
  | _, .fuel => return fuel
  | _, host => do return ((← get).root scope.root).host
  | _, source e => return e.source
  | _, find name => do return findMacro? ((← get).macros scope.root) name
  | _, defined x => do return (← get).isDefined scope x
  | _, define body origin => Run.newBlock scope body origin
  | _, write text => Run.write text
  | _, load place name => Run.loadAt scope place name
  | _, parse place text => Run.parseAt scope place text

/-- What an evaluation in a scope does. A `block` and the text of a value are rendered one level deeper,
and so are arguments that are read, the bodies of macros, and templates. -/
inductive Script (scope : Scope) : Type → Type 1 where
  | done {α : Type} (a : α) : Script scope α
  | andThen {α β : Type} (x : Script scope β) (f : β → Script scope α) : Script scope α
  | act {α : Type} (a : Act α) : Script scope α
  | leave {α : Type} (place : Place) (loopOnly : Bool) : Script scope α
  | read (x : String) : Script scope Value
  | assign (x : String) (v : Value) : Script scope Unit
  | capture (x : Script scope Unit) : Script scope String
  | rethrow {α : Type} (f : Failure → Failure) (x : Script scope α) : Script scope α
  | loop (x : String) (source : Source) (body : Script scope Unit) : Script scope Unit
  | call (m : MacroDef) (args : List Expr) (body : Option (List Node)) : Script scope Unit
  | template (t : Template) : Script scope Unit
  | block (b : BlockRef) : Script scope String
  | text (v : Value) : Script scope String

namespace Script

variable {scope : Scope} {α : Type}

instance : Monad (Script scope) where
  pure := done
  bind := andThen

instance : MonadLift Act (Script scope) := ⟨act⟩

instance : MonadLift Step (Script scope) := ⟨fun x => act (.step x)⟩

/-- Stops with a failure. -/
def fail (f : Failure) : Script scope α :=
  act (.step (Step.fail f))

/-- Stops with an ordinary error of host code. -/
def fault (kind : FaultKind) (text : String) : Script scope α :=
  act (.step (Step.fault kind text))

/-- Stops with an evaluation error at a place. -/
def failAt (place : Place) (cause : EvalCause) : Script scope α :=
  act (.step (Step.failAt place cause))

/-- Stops for want of fuel. -/
def exhausted : Script scope α :=
  act (.step Step.exhausted)

/-- Carries a script out. -/
def run (d : Deeper) : {α : Type} → Script scope α → Run α
  | _, done a => return a
  | _, andThen x f => do (f (← x.run d)).run d
  | _, act a => a.run d.fuel scope
  | _, leave place loopOnly => throw (.leave place loopOnly)
  | _, read x => Run.read d scope x
  | _, assign x v => do let _ ← Run.assign scope x v
  | _, capture x => Run.capture (x.run d)
  | _, rethrow f x => Run.mapFailure f (x.run d)
  | _, loop x source body => Run.forEach d.fuel scope x source (body.run d)
  | _, call m args body => Run.renderMacro d scope m args body
  | _, template t => Run.renderTemplate d scope t
  | _, block b => do d.blockText ((← get).block b)
  | _, text v => d.text v

end Script

end Stencil
