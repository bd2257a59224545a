import Stencil.Proofs.After

/-!
# Steps beside variables and calls

Two runs from related stores end the same way when they have the same result, or stop in the same way, in
stores that are related again. Most steps end so because they neither see nor change variables, calls and
blocks: host code, and reading and loading templates.
-/

namespace Stencil

/-! ### Steps that end the same way -/

/-- Whether two steps end with the same result or the same stop, in stores that are related. -/
inductive EndsSame (R : Store → Store → Prop) {α : Type} :
    EStateM.Result Halt Store α → EStateM.Result Halt Store α → Prop
  | ok {a : α} {s t : Store} (h : R s t) : EndsSame R (.ok a s) (.ok a t)
  | error {e : Halt} {s t : Store} (h : R s t) : EndsSame R (.error e s) (.error e t)

namespace EndsSame

variable {R : Store → Store → Prop} {α β : Type} {s t : Store}

theorem bind {x : Run β} {f : β → Run α} (hx : EndsSame R (x s) (x t))
    (hf : ∀ b s' t', x s = .ok b s' → R s' t' → EndsSame R (f b s') (f b t')) :
    EndsSame R ((x >>= f) s) ((x >>= f) t) := by
  show EndsSame R (EStateM.bind x f s) (EStateM.bind x f t)
  rw [EStateM.bind, EStateM.bind]
  generalize hs : x s = rs at hx hf
  generalize x t = rt at hx
  cases hx with
  | ok h => exact hf _ _ _ rfl h
  | error h => exact .error h

theorem andThen {x : Run α} {after after' : Store → Store} (hx : EndsSame R (x s) (x t))
    (hafter : ∀ s' t', x.after s = s' → R s' t' → R (after s') (after' t')) :
    EndsSame R (Run.andThen x after s) (Run.andThen x after' t) := by
  rw [Run.andThen, Run.andThen]
  rw [Run.after] at hafter
  generalize x s = rs at hx hafter
  generalize x t = rt at hx
  cases hx with
  | ok h => exact .ok (hafter _ _ rfl h)
  | error h => exact .error (hafter _ _ rfl h)

theorem mapFailure {x : Run α} (f : Failure → Failure) (hx : EndsSame R (x s) (x t)) :
    EndsSame R (Run.mapFailure f x s) (Run.mapFailure f x t) := by
  rw [Run.mapFailure, Run.mapFailure]
  generalize x s = rs at hx
  generalize x t = rt at hx
  cases hx with
  | ok h => exact .ok h
  | @error e _ _ h => cases e <;> exact .error h

theorem catchLeave {x : Run Unit} (stops : Bool → Bool) (hx : EndsSame R (x s) (x t)) :
    EndsSame R (Run.catchLeave stops x s) (Run.catchLeave stops x t) := by
  rw [Run.catchLeave, Run.catchLeave]
  generalize x s = rs at hx
  generalize x t = rt at hx
  cases hx with
  | ok h => exact .ok h
  | @error e s' t' h =>
    cases e with
    | leave place loopOnly =>
      by_cases hl : stops loopOnly
      · simpa [hl] using EndsSame.ok h
      · simpa [hl] using EndsSame.error h
    | failure f => exact .error h
    | exhausted => exact .error h

/-- Where the text written so far is the same, and may be changed in the same way. -/
theorem capture {x : Run Unit} (hsame : ∀ {s t}, R s t → s.written = t.written)
    (hset : ∀ {s t}, R s t → ∀ text, R { s with written := text } { t with written := text }) (h : R s t)
    (hx : EndsSame R (x { s with written := "" }) (x { t with written := "" })) :
    EndsSame R (Run.capture x s) (Run.capture x t) := by
  rw [Run.capture, Run.capture, hsame h]
  generalize x { s with written := "" } = rs at hx
  generalize x { t with written := "" } = rt at hx
  cases hx with
  | ok h' =>
    simp only [hsame h']
    exact .ok (hset h' _)
  | error h' => exact .error (hset h' _)

end EndsSame

/-! ### Steps beside variables and calls -/

/-- A store with other evaluations, calls, hidden parameters and blocks. -/
def Store.withFrames (s : Store) (roots : Heap RootFrame) (calls : Heap CallFrame) (shadows : Heap Shadow)
    (blocks : Std.TreeMap Nat Block) : Store :=
  { s with roots := roots, calls := calls, shadows := shadows, blocks := blocks }

/-- Whether a step neither sees nor changes evaluations, calls, hidden parameters and blocks. -/
def Run.Aside {α : Type} (x : Run α) : Prop :=
  ∀ s roots calls shadows blocks, x (s.withFrames roots calls shadows blocks) =
    Run.andThen x (·.withFrames roots calls shadows blocks) s

namespace Run

variable {α β : Type}

theorem Aside.pure (a : α) : Aside (Pure.pure a) := fun _ _ _ _ _ => rfl

theorem Aside.fail (f : Failure) : Aside (fail f : Run α) := fun _ _ _ _ _ => rfl

theorem Aside.bind {x : Run β} {f : β → Run α} (hx : Aside x) (hf : ∀ b, Aside (f b)) :
    Aside (x >>= f) := by
  intro s roots calls shadows blocks
  show EStateM.bind x f _ = Run.andThen (EStateM.bind x f) _ s
  rw [EStateM.bind, hx, andThen, andThen, EStateM.bind]
  cases x s with
  | ok b s' => exact hf b s' roots calls shadows blocks
  | error h s' => rfl

/-- Looking at what is beside variables and calls. -/
theorem Aside.get_bind {f : Store → Run α}
    (hsame : ∀ s roots calls shadows blocks, f (Store.withFrames s roots calls shadows blocks) = f s)
    (hf : ∀ s, Aside (f s)) : Aside (get >>= f) := by
  intro s roots calls shadows blocks
  show f _ _ = Run.andThen (f s) _ s
  rw [hsame]
  exact hf s s roots calls shadows blocks

theorem Aside.toRun (x : Step α) : Aside x.toRun := by
  intro s roots calls shadows blocks
  rw [andThen, Step.toRun, Step.toRun, Store.withFrames]
  cases x s.toCells <;> rfl

theorem Aside.write (text : String) : Aside (write text) := fun _ _ _ _ _ => rfl

theorem Aside.openText (opener : Opener) (name : String) : Aside (openText opener name) := by
  cases opener with
  | noNames => exact .fail _
  | texts =>
    refine .bind (fun _ _ _ _ _ => rfl) fun _ => .get_bind (fun _ _ _ _ _ => rfl) fun s => ?_
    cases s.texts.get? name with
    | some text => exact .pure text
    | none => exact .fail _
  | files root encoding =>
    refine .get_bind (fun _ _ _ _ _ => rfl) fun s => ?_
    cases readFile s.files root encoding name with
    | ok text => exact .pure text
    | error e => exact .fail _

theorem Aside.parseText (r : LoaderRef) (resource : Option String) (text : String) :
    Aside (parseText r resource text) := by
  rw [Run.parseText]
  split
  · exact .bind (x := templateId) (fun _ _ _ _ _ => rfl) fun _ => .pure _
  · exact .fail _
  · exact fun _ _ _ _ _ => rfl

theorem Aside.load (r : LoaderRef) (name : String) : Aside (load r name) := by
  have hloader (r : LoaderRef) : Aside (loader r) := fun _ _ _ _ _ => rfl
  refine .bind (hloader r) fun l => ?_
  split
  · exact .pure _
  · refine .bind (.bind (hloader r) fun l => .bind (.openText _ _) fun text => .parseText _ _ _) fun t =>
      .bind (hloader r) fun l => .bind (fun _ _ _ _ _ => rfl) fun _ => .pure _

/-- A step beside variables and calls ends the same way whatever these are, and leaves them as they are. -/
theorem Aside.endsSame {x : Run α} (hx : Aside x) {R : Store → Store → Prop} (s : Store)
    {roots : Heap RootFrame} {calls : Heap CallFrame} {shadows : Heap Shadow}
    {blocks : Std.TreeMap Nat Block}
    (hR : ∀ s' : Store, R (s'.withFrames s.roots s.calls s.shadows s.blocks)
      (s'.withFrames roots calls shadows blocks)) :
    EndsSame R (x s) (x (s.withFrames roots calls shadows blocks)) := by
  have hself : x s = andThen x (·.withFrames s.roots s.calls s.shadows s.blocks) s :=
    hx s s.roots s.calls s.shadows s.blocks
  rw [hx s roots calls shadows blocks, hself, andThen, andThen]
  cases x s with
  | ok a s' => exact .ok (hR s')
  | error e s' => exact .error (hR s')

end Run

end Stencil
