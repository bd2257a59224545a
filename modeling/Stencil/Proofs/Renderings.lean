import Stencil.Proofs.Events

/-!
# The renderings of a loop

A loop renders its body once for each item that it takes. `Run.renderings` lists the renderings of a run in
order, each with its item and the store in which it begins; `Run.Renders` says how they follow each other
and how the loop ends, and `Run.renders_iterate` that this is what the loop does.
-/

namespace Stencil

/-- A rendering of the body of a loop: the item that was taken for it, and the store in which it begins. -/
structure Rendering where
  item : Value
  start : Store

namespace Run

/-- The renderings of the body of a loop, of which there are at most so many. -/
def renderings (scope : Scope) (x : String) (r : LoopRef) (body : Run Unit) : Nat → Store → List Rendering
  | 0, _ => []
  | n + 1, s =>
    match (loopNext r).toRun s with
    | .ok (some v) s₁ => ⟨v, (s₁.assign scope x v).2⟩ ::
      match body (s₁.assign scope x v).2 with
      | .ok _ s₂ => renderings scope x r body n s₂
      | .error _ _ => []
    | _ => []

/-- How a loop runs from a store: its renderings, and how it ends. -/
inductive Renders (scope : Scope) (x : String) (r : LoopRef) (body : Run Unit) :
    Nat → Store → List Rendering → EStateM.Result Halt Store Unit → Prop
  | exhausted {s : Store} : Renders scope x r body 0 s [] (.error .exhausted s)
  /-- No item is left. -/
  | done {n : Nat} {s s₁ : Store} (hnext : (loopNext r).toRun s = .ok none s₁) :
      Renders scope x r body (n + 1) s [] (.ok () s₁)
  /-- Taking an item fails. -/
  | failed {n : Nat} {s s₁ : Store} {e : Halt} (hnext : (loopNext r).toRun s = .error e s₁) :
      Renders scope x r body (n + 1) s [] (.error e s₁)
  /-- The body ends early, by a break or a failure. -/
  | stopped {n : Nat} {s s₁ s₂ : Store} {v : Value} {e : Halt}
      (hnext : (loopNext r).toRun s = .ok (some v) s₁)
      (hbody : body (s₁.assign scope x v).2 = .error e s₂) :
      Renders scope x r body (n + 1) s [⟨v, (s₁.assign scope x v).2⟩] (.error e s₂)
  | further {n : Nat} {s s₁ s₂ : Store} {v : Value} {ρs : List Rendering}
      {result : EStateM.Result Halt Store Unit} (hnext : (loopNext r).toRun s = .ok (some v) s₁)
      (hbody : body (s₁.assign scope x v).2 = .ok () s₂) (hrest : Renders scope x r body n s₂ ρs result) :
      Renders scope x r body (n + 1) s (⟨v, (s₁.assign scope x v).2⟩ :: ρs) result

variable {scope : Scope} {x : String} {r : LoopRef} {body : Run Unit}

variable (scope x r body) in
/-- The renderings of a loop are those that are listed, and the loop ends as it is carried out. -/
theorem renders_iterate (n : Nat) (s : Store) :
    Renders scope x r body n s (renderings scope x r body n s) (iterate scope x r body n s) := by
  induction n generalizing s with
  | zero => exact .exhausted
  | succ n ih =>
    rw [renderings, iterate]
    cases hnext : (loopNext r).toRun s with
    | error e s₁ =>
      have hstops : (loopNext r : Run (Option Value)) s = .error e s₁ := hnext
      rw [bind_eq_error.2 (.inl hstops)]
      exact .failed hnext
    | ok v s₁ =>
      have htakes : (loopNext r : Run (Option Value)) s = .ok v s₁ := hnext
      rw [bind_ok htakes]
      cases v with
      | none => exact .done hnext
      | some v =>
        show Renders _ _ _ _ _ _ _ ((body >>= fun _ => iterate scope x r body n) (s₁.assign scope x v).2)
        dsimp only
        cases hbody : body (s₁.assign scope x v).2 with
        | error e s₂ =>
          rw [bind_eq_error.2 (.inl hbody)]
          exact .stopped hnext hbody
        | ok u s₂ =>
          rw [bind_ok hbody]
          exact .further hnext hbody (ih s₂)

end Run

end Stencil
