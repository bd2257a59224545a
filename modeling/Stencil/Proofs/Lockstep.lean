import Stencil.Proofs.After
import Stencil.Proofs.LikeRender

/-!
# Runs side by side

Scripts that are alike, carried out from stores that go side by side, end alike: `Script.Like.agree`.
Where places may differ this needs that the source text of an expression is taken only where it shows all
of the expression, which `Script.Discreet` says of a run.
-/

namespace Stencil

open Store (Twins)

namespace Script

variable {scope : Scope}

/-- Whether carrying out a script from a store takes the source text of an expression only where it shows
all of the expression, given when that is so one level deeper. -/
def DiscreetIn (d : Deeper) (deeper : {scope : Scope} → {α : Type} → Script scope α → Store → Prop) :
    {α : Type} → Script scope α → Store → Prop
  | _, done _, _ => True
  | _, andThen y f, s =>
    y.DiscreetIn d deeper s ∧ ∀ b s', y.run d s = .ok b s' → (f b).DiscreetIn d deeper s'
  | _, act a, _ => a.ShowsAll
  | _, leave _ _, _ => True
  | _, read x, s =>
    ∀ c t, s.lookup scope x = .argument c t → deeper (evalExpr t.scope t.expr false) s
  | _, assign _ _, _ => True
  | _, capture y, s => y.DiscreetIn d deeper { s with written := "" }
  | _, rethrow _ y, s => y.DiscreetIn d deeper s
  | _, loop x source body, s =>
    ∀ s', Run.Pass scope x (s.beginLoop scope x source).1 (body.run d)
      (s.beginLoop scope x source).2.2.2 s' → body.DiscreetIn d deeper s'
  | _, call m args body, s =>
    deeper (renderNodes (scope.enter (s.beginCall scope m args body).1) m.body)
      (s.beginCall scope m args body).2
  | _, template t, s =>
    deeper (renderNodes scope t.document.nodes) (s.addMacros scope.root t.macros)
  | _, block b, s => deeper (renderNodes (s.block b).scope (s.block b).body) { s with written := "" }
  | _, text v, s => deeper (textOf v : Script default String) s

/-- Whether carrying out a script from a store, with so many levels of fuel, takes the source text of an
expression only where it shows all of the expression. -/
def Discreet : Nat → {scope : Scope} → {α : Type} → Script scope α → Store → Prop
  | 0, _, _, y, s => y.DiscreetIn (Deeper.within 0) (fun _ _ => True) s
  | n + 1, _, _, y, s => y.DiscreetIn (Deeper.within (n + 1)) (Discreet n) s

end Script

variable {π : Pairing} {s t : Store} {scope : Scope}

namespace Run

/-- Rendering one level deeper. -/
theorem agree_render {n : Nat} {nodes nodes' : List Node} (h : Twins π s t)
    (hy : ∀ k, n = k + 1 → Agree π Eq ((renderNodes scope nodes).run (Deeper.within k) s)
      ((renderNodes scope nodes').run (Deeper.within k) t)) :
    Agree π Eq ((Deeper.within n).render scope nodes s) ((Deeper.within n).render scope nodes' t) := by
  cases n with
  | zero => exact .error .exhausted h
  | succ k => exact hy k rfl

/-- The passes of a loop. -/
theorem agree_iterate {x : String} {r : LoopRef} {body body' : Run Unit}
    (hbody : ∀ s' t', Pass scope x r body s s' → Twins π s' t' → Agree π Eq (body s') (body' t'))
    (h : Twins π s t) (fuel : Nat) :
    Agree π Eq (iterate scope x r body fuel s) (iterate scope x r body' fuel t) := by
  induction fuel generalizing s t with
  | zero => exact .error .exhausted h
  | succ fuel ih =>
    refine .bind (.toRun h (loopNext r)) fun v v' s₁ t₁ hx hv h₁ => ?_
    obtain rfl : v = v' := hv
    cases v with
    | none => exact .ok rfl h₁
    | some v =>
      obtain ⟨-, h₂⟩ := (Twins.simulation π).assign h₁ scope x v
      have hpass := hbody _ _ (.first hx) h₂
      refine Agree.bind (x := body) (s := (s₁.assign scope x v).2) (t := (t₁.assign scope x v).2)
        hpass fun _ _ s₃ t₃ hb _ h₃ => ?_
      exact ih (fun s' t' hrest h' => hbody s' t' (.next hx hb hrest) h') h₃

end Run

theorem traced_eq {strict : Bool} {m m' : MacroDef} (hm : LikeMacro strict m m') (hs : strict = true) :
    Run.traced m = Run.traced m' := by
  subst hs
  rw [hm.eq]

namespace Script

variable {α : Type} {y y' : Script scope α}

/-- From stores that go side by side, scripts that are alike end alike, if evaluation one level deeper
does. -/
theorem Like.agree_step (hread : ReadsAlike π.strict) {n : Nat}
    {deeper : {scope : Scope} → {α : Type} → Script scope α → Store → Prop}
    (ih : ∀ k, n = k + 1 → ∀ {scope : Scope} {α : Type} {y y' : Script scope α} {s t : Store},
      y.Like π.strict y' → (π.strict = true ∨ deeper y s) → Twins π s t →
        Agree π Eq (y.run (Deeper.within k) s) (y'.run (Deeper.within k) t))
    (hlike : y.Like π.strict y')
    (hy : π.strict = true ∨ y.DiscreetIn (Deeper.within n) deeper s) (h : Twins π s t) :
    Agree π Eq (y.run (Deeper.within n) s) (y'.run (Deeper.within n) t) := by
  induction hlike generalizing s t with
  | done => exact .ok rfl h
  | andThen _ _ ihx ihf =>
    refine .bind (ihx (hy.imp_right And.left) h) fun b b' s₁ t₁ hx hb h₁ => ?_
    obtain rfl : b = b' := hb
    exact ihf b (hy.imp_right fun hy => hy.2 b s₁ hx) h₁
  | act ha => exact ha.agree hread hy h _ _
  | andAct ha _ ihf =>
    exact .bind (ha.agree hread (hy.imp_right And.left) h _ _) fun b b' s₁ t₁ hx hb h₁ =>
      ihf b b' hb (hy.imp_right fun hy => hy.2 b s₁ hx) h₁
  | leave hp => exact .error (.leave hp) h
  | @read x =>
    show Agree π Eq (Run.read _ scope x s) (Run.read _ scope x t)
    rw [Run.read_eq, Run.read_eq]
    have hb := h.lookup scope x
    generalize hs : s.lookup scope x = b at hb
    generalize t.lookup scope x = b' at hb
    cases hb with
    | block => exact .ok rfl h
    | stored => exact .ok rfl h
    | @argument c e e' he =>
      cases n with
      | zero => exact .error .exhausted h
      | succ k =>
        show Agree π Eq ((evalExpr e.scope e.expr false).run (Deeper.within k) s)
          ((evalExpr e'.scope e'.expr false).run (Deeper.within k) t)
        rw [← he.scope]
        exact ih k rfl (he.expr.script false) (hy.imp_right fun hy => hy c e hs) h
  | assign => exact .ok rfl ((Twins.simulation π).assign h scope _ _).2
  | capture _ ihx => exact .capture h (ihx hy (h.withWritten ""))
  | rethrow hf _ ihx => exact .mapFailure hf (ihx hy h)
  | @loop x source body body' _ ihb =>
    obtain ⟨hstate, hvar, hloop, hbegin⟩ := (Twins.simulation π).beginLoop h scope x source
    show Agree π Eq (Run.forEach n scope x source (body.run (Deeper.within n)) s)
      (Run.forEach n scope x source (body'.run (Deeper.within n)) t)
    rw [Run.forEach_eq, Run.forEach_eq, ← hstate, ← hvar, ← hloop]
    refine .andThen (.catchLeave _ (Run.agree_iterate (fun s' t' hpass h' => ?_) hbegin n))
      fun s' t' h' => (Twins.simulation π).undo ((Twins.simulation π).undo h' _) _
    exact ihb (hy.imp_right fun hy => hy s' hpass) h'
  | @call m m' args args' body body' hm ha hb =>
    obtain ⟨hc, hbegin⟩ := h.beginCall scope hm ha hb
    show Agree π Eq (Run.renderMacro _ scope m args body s) (Run.renderMacro _ scope m' args' body' t)
    rw [Run.renderMacro_eq, Run.renderMacro_eq, ← hc]
    exact .andThen (.mapFailure (traced_eq hm) (Run.agree_render hbegin fun k hk =>
      ih k hk hm.body.script hy hbegin)) fun s' t' h' =>
        (Twins.simulation π).restoreParams h' _
  | template ht =>
    have h' := h.addMacros scope.root ht.macros
    exact .catchLeave _ (Run.agree_render h' fun k hk => ih k hk ht.nodes.script hy h')
  | @block b =>
    have hb := h.blocks b
    have h' := h.withWritten ""
    refine .capture h ?_
    rw [← hb.scope]
    exact Run.agree_render h' fun k hk => ih k hk hb.body.script hy h'
  | @text v =>
    cases n with
    | zero => exact .error .exhausted h
    | succ k => exact ih k rfl (like_textOf v) hy h

/-- From stores that go side by side, scripts that are alike end alike, if places are the same or the run
of the first is discreet. -/
theorem Like.agree (hread : ReadsAlike π.strict) (n : Nat) (hlike : y.Like π.strict y')
    (hy : π.strict = true ∨ y.Discreet n s) (h : Twins π s t) :
    Agree π Eq (y.run (Deeper.within n) s) (y'.run (Deeper.within n) t) := by
  induction n generalizing scope α s t with
  | zero => exact hlike.agree_step hread (fun k hk => absurd hk (Nat.zero_ne_add_one k)) hy h
  | succ n ih =>
    refine hlike.agree_step hread (fun k hk => ?_) hy h
    cases hk
    exact fun hlike hy h => ih hlike hy h

end Script

end Stencil
