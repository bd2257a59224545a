import Stencil.Evaluate.Render

/-!
# What carrying out a script means

One law for each constructor of a script whose run has several steps, and the laws of the evaluator one
level deeper. Everything else about evaluation is derived from these.
-/

namespace Stencil

namespace Store

/-- The parameters of a call of a macro: its arguments with the scope of the call. -/
def callParams (scope : Scope) (m : MacroDef) (args : List Expr) : Bindings Thunk :=
  Bindings.ofList (m.params.zip (args.map fun e => ⟨e, scope⟩))

/-- Begins a call of a macro. A block that is given to it gets a number. -/
def beginCall (s : Store) (scope : Scope) (m : MacroDef) (args : List Expr) :
    Option (List Node) → CallRef × Store
  | none => s.enterCall (callParams scope m args) none
  | some nodes =>
    { s with nextId := s.nextId + 1 }.enterCall (callParams scope m args)
      (some ⟨s.nextId, nodes, scope, "#@" ++ m.name⟩)

/-- Begins a loop: its variable is null until the first item is taken, and its state has a cell. -/
def beginLoop (s : Store) (scope : Scope) (x : String) (source : Source) :
    LoopRef × Undo × Undo × Store :=
  let (undoVar, s) := s.assign scope x .null
  let r : LoopRef := ⟨s.loops.size⟩
  let (undoLoop, s) := { s with loops := s.loops.alloc ⟨source, none, -1⟩ }.assign scope loopVar (.loop r)
  (r, undoVar, undoLoop, s)

end Store

namespace Deeper

variable (n : Nat)

@[simp] theorem within_eval_zero (scope : Scope) (e : Expr) :
    (within 0).eval scope e = Run.exhausted := rfl

@[simp] theorem within_render_zero (scope : Scope) (nodes : List Node) :
    (within 0).render scope nodes = Run.exhausted := rfl

@[simp] theorem within_text_zero (v : Value) : (within 0).text v = Run.exhausted := rfl

@[simp] theorem within_eval_succ (scope : Scope) (e : Expr) :
    (within (n + 1)).eval scope e = (evalExpr scope e false).run (within n) := rfl

@[simp] theorem within_render_succ (scope : Scope) (nodes : List Node) :
    (within (n + 1)).render scope nodes = (renderNodes scope nodes).run (within n) := rfl

@[simp] theorem within_text_succ (v : Value) :
    (within (n + 1)).text v = (textOf v : Script default String).run (within n) := rfl

end Deeper

namespace Script

variable {scope : Scope} {α β : Type} (d : Deeper)

@[simp] theorem run_pure (a : α) : (pure a : Script scope α).run d = pure a := rfl

@[simp] theorem run_bind (x : Script scope β) (f : β → Script scope α) :
    (x >>= f).run d = x.run d >>= fun b => (f b).run d := rfl

end Script

theorem run_renderNodes_append (scope : Scope) (d : Deeper) (xs ys : List Node) :
    (renderNodes scope (xs ++ ys)).run d = (do
      (renderNodes scope xs).run d
      (renderNodes scope ys).run d) := by
  induction xs with
  | nil => rfl
  | cons x xs ih =>
    rw [List.cons_append, renderNodes, renderNodes, Script.run_bind, Script.run_bind, ih, bind_assoc]

namespace Run

variable {α β : Type} {s s' : Store} {h : Halt}

theorem bind_eq_error {x : Run β} {f : β → Run α} :
    (x >>= f) s = .error h s' ↔
      x s = .error h s' ∨ ∃ b s₁, x s = .ok b s₁ ∧ f b s₁ = .error h s' := by
  show EStateM.bind x f s = _ ↔ _
  cases hx : x s <;> simp [EStateM.bind, hx, and_assoc]

theorem bind_eq_ok {x : Run β} {f : β → Run α} {a : α} :
    (x >>= f) s = .ok a s' ↔ ∃ b s₁, x s = .ok b s₁ ∧ f b s₁ = .ok a s' := by
  show EStateM.bind x f s = _ ↔ _
  cases hx : x s <;> simp [EStateM.bind, hx, and_assoc]

theorem bind_ok {x : Run β} {f : β → Run α} {b : β} (h : x s = .ok b s') : (x >>= f) s = f b s' := by
  show EStateM.bind x f s = _
  rw [EStateM.bind, h]

/-- Two sequences end alike that begin alike, and go on alike from where they have come to. -/
theorem bind_eq_bind {x y : Run β} {f g : β → Run α} (hx : x s = y s)
    (hf : ∀ b s', y s = .ok b s' → f b s' = g b s') : (x >>= f) s = (y >>= g) s := by
  show EStateM.bind x f s = EStateM.bind y g s
  rw [EStateM.bind, EStateM.bind, hx]
  cases hy : y s with
  | error e s' => rfl
  | ok b s' => exact hf b s' hy

theorem capture_of_ok {x : Run Unit} (h : x { s with written := "" } = .ok () s') :
    capture x s = .ok s'.written { s' with written := s.written } := by
  simp only [capture, h]

theorem capture_of_error {x : Run Unit} (hx : x { s with written := "" } = .error h s') :
    capture x s = .error h { s' with written := s.written } := by
  simp only [capture, hx]

theorem renderMacro_eq (d : Deeper) (scope : Scope) (m : MacroDef) (args : List Expr)
    (body : Option (List Node)) (s : Store) :
    renderMacro d scope m args body s =
      andThen (mapFailure (traced m) (d.render (scope.enter (s.beginCall scope m args body).1) m.body))
        (fun s' => s'.restoreParams (s.beginCall scope m args body).1)
        (s.beginCall scope m args body).2 := by
  cases body <;> rfl

theorem forEach_eq (fuel : Nat) (scope : Scope) (x : String) (source : Source) (body : Run Unit)
    (s : Store) :
    forEach fuel scope x source body s =
      andThen (catchLeave (fun _ => true) (iterate scope x (s.beginLoop scope x source).1 body fuel))
        (fun s' => (s'.undo (s.beginLoop scope x source).2.2.1).undo (s.beginLoop scope x source).2.1)
        (s.beginLoop scope x source).2.2.2 := by
  rfl

end Run

end Stencil
