import Stencil.Proofs.Blind

/-!
# Evaluations that avoid a name

An evaluation avoids a difference between two stores when it never comes upon the name in which they
differ. From both stores it then ends alike: `Avoids.sameOutcome`.
-/

namespace Stencil

open Store (Alike Progress)

/-- Whether a name is found among the calls that began since the stores came to differ. -/
def Store.Own (s : Store) (δ : Difference) (x : String) : List CallRef → Prop
  | [] => False
  | c :: cs => δ.calls ≤ c.index ∧ ((s.call c).defines x = true ∨ s.Own δ x cs)

/-- The name that an act asks for. -/
def Act.name? : {α : Type} → Act α → Option String
  | _, .defined x => some x
  | _, _ => none

/-- Whether carrying out a script from a store never comes upon the name of a difference: it never
assigns it, and asks for it or reads it only where a call that began since has it. -/
inductive Avoids (δ : Difference) :
    Nat → {scope : Scope} → {α : Type} → Script scope α → Store → Prop
  | done {n : Nat} {scope : Scope} {α : Type} {a : α} {s : Store} :
      Avoids δ n (.done a : Script scope α) s
  | andThen {n : Nat} {scope : Scope} {α β : Type} {y : Script scope β} {f : β → Script scope α}
      {s : Store} (first : Avoids δ n y s)
      (second : ∀ b s', y.run (Deeper.within n) s = .ok b s' → Avoids δ n (f b) s') :
      Avoids δ n (.andThen y f) s
  | act {n : Nat} {scope : Scope} {α : Type} {a : Act α} {s : Store}
      (own : a.name? = some δ.name → s.Own δ δ.name scope.calls) :
      Avoids δ n (.act a : Script scope α) s
  | leave {n : Nat} {scope : Scope} {α : Type} {place : Place} {loopOnly : Bool} {s : Store} :
      Avoids δ n (.leave place loopOnly : Script scope α) s
  | read {n : Nat} {scope : Scope} {y : String} {s : Store}
      (own : y = δ.name → s.Own δ δ.name scope.calls)
      (argument : ∀ k c t, n = k + 1 → s.lookup scope y = .argument c t →
        Avoids δ k (evalExpr t.scope t.expr false) s) :
      Avoids δ n (.read y : Script scope Value) s
  | assign {n : Nat} {scope : Scope} {y : String} {v : Value} {s : Store} (other : y ≠ δ.name) :
      Avoids δ n (.assign y v : Script scope Unit) s
  | capture {n : Nat} {scope : Scope} {y : Script scope Unit} {s : Store}
      (inner : Avoids δ n y { s with written := "" }) : Avoids δ n (.capture y) s
  | rethrow {n : Nat} {scope : Scope} {α : Type} {f : Failure → Failure} {y : Script scope α}
      {s : Store} (inner : Avoids δ n y s) : Avoids δ n (.rethrow f y) s
  | loop {n : Nat} {scope : Scope} {y : String} {source : Source} {body : Script scope Unit}
      {s : Store} (other : y ≠ δ.name) (state : loopVar ≠ δ.name)
      (passes : ∀ s', Run.Pass scope y (s.beginLoop scope y source).1 (body.run (Deeper.within n))
        (s.beginLoop scope y source).2.2.2 s' → Avoids δ n body s') :
      Avoids δ n (.loop y source body) s
  | call {n : Nat} {scope : Scope} {m : MacroDef} {args : List Expr} {body : Option (List Node)}
      {s : Store} (inside : ∀ k, n = k + 1 → Avoids δ k
        (renderNodes (scope.enter (s.beginCall scope m args body).1) m.body)
        (s.beginCall scope m args body).2) :
      Avoids δ n (.call m args body : Script scope Unit) s
  | template {n : Nat} {scope : Scope} {t : Template} {s : Store}
      (inside : ∀ k, n = k + 1 →
        Avoids δ k (renderNodes scope t.document.nodes) (s.addMacros scope.root t.macros)) :
      Avoids δ n (.template t : Script scope Unit) s
  | block {n : Nat} {scope : Scope} {b : BlockRef} {s : Store}
      (inside : ∀ k, n = k + 1 → Avoids δ k
        (renderNodes (s.block b).scope (s.block b).body) { s with written := "" }) :
      Avoids δ n (.block b : Script scope String) s
  | text {n : Nat} {scope : Scope} {v : Value} {s : Store}
      (inside : ∀ k, n = k + 1 → Avoids δ k (textOf v : Script default String) s) :
      Avoids δ n (.text v : Script scope String) s

variable {δ : Difference} {s t : Store} {scope : Scope} {x y : String}

/-- A name that is not the difference, or is found before it, stands for the same in both stores. -/
theorem Store.Alike.lookupIn (h : Alike δ s t) (root : RootRef) {calls : List CallRef}
    (hy : y = δ.name → s.Own δ δ.name calls) : t.lookupIn root y calls = s.lookupIn root y calls := by
  by_cases hyx : y = δ.name
  · subst hyx
    have hown := hy rfl
    clear hy
    -- The search goes through calls that began since, and ends at one that has the name.
    induction calls with
    | nil => cases hown
    | cons c cs ih =>
      obtain ⟨hc, hown⟩ := hown
      have harg : (t.call c).params.get? δ.name = (s.call c).params.get? δ.name :=
        h.arg _ c (.inr hc)
      rw [Store.lookupIn, Store.lookupIn, harg, CallFrame.blockFor?, CallFrame.blockFor?, h.block]
      rcases hown with hdef | hown
      · rw [CallFrame.defines, CallFrame.blockFor?] at hdef
        split
        · rfl
        · rfl
        · rename_i hb hp
          simp [Bindings.has, hb, hp] at hdef
      · rw [ih hown]
  · refine Store.lookupIn_congr (fun c _ => ⟨h.arg y c (.inl hyx), ?_⟩) (h.var y root hyx)
    rw [CallFrame.blockFor?, CallFrame.blockFor?, h.block]

theorem Store.Alike.lookup (h : Alike δ s t) (hy : y = δ.name → s.Own δ δ.name scope.calls) :
    t.lookup scope y = s.lookup scope y :=
  h.lookupIn scope.root hy

theorem Store.Alike.act (h : Alike δ s t) (fuel : Nat) {α : Type} (a : Act α)
    (hown : a.name? = some δ.name → s.Own δ δ.name scope.calls) :
    SameOutcome δ (a.run fuel scope s) (a.run fuel scope t) := by
  have hloader : Run.Blind δ (Run.loaderOf scope) :=
    .reads fun s t h => congrArg (·.loader) (h.root scope.root)
  cases a with
  | step x => exact (Run.Aside.toRun x).blind s t h
  | fuel => exact .ok h
  | source e => exact .ok h
  | host =>
    exact Run.Blind.reads (f := fun s : Store => (s.root scope.root).host)
      (fun s t h => congrArg (·.host) (h.root scope.root)) s t h
  | find name =>
    exact Run.Blind.reads (f := fun s : Store => findMacro? (s.macros scope.root) name)
      (fun s t h => congrArg (fun f => findMacro? f.macros name) (h.root scope.root)) s t h
  | defined x =>
    show SameOutcome δ (.ok (s.isDefined scope x) s) (.ok (t.isDefined scope x) t)
    rw [Store.isDefined_eq, Store.isDefined_eq, h.lookup fun hx => hown (congrArg some hx)]
    exact .ok h
  | define body origin => exact Run.Blind.newBlock scope body origin s t h
  | write text =>
    exact (Run.Aside.write text).blind s t h
  | load place name =>
    exact Run.Blind.mapFailure _ (.bind hloader fun r => (Run.Aside.load r name).blind) s t h
  | parse place text =>
    exact Run.Blind.mapFailure _ (.bind hloader fun r => (Run.Aside.parseText _ _ _).blind) s t h

namespace Run

/-- Rendering one level deeper. -/
theorem sameOutcome_render {n : Nat} {nodes : List Node} (h : Alike δ s t)
    (hy : ∀ k, n = k + 1 → SameOutcome δ ((renderNodes scope nodes).run (Deeper.within k) s)
      ((renderNodes scope nodes).run (Deeper.within k) t)) :
    SameOutcome δ ((Deeper.within n).render scope nodes s) ((Deeper.within n).render scope nodes t) := by
  cases n with
  | zero => exact .error h
  | succ k => exact hy k rfl

/-- The passes of a loop over another name. -/
theorem sameOutcome_iterate {r : LoopRef} {body : Run Unit}
    (hprogress : ∀ s : Store, s.Sound → scope.Valid s → Progress s (body.after s)) (hy : y ≠ δ.name)
    (hbody : ∀ s' t', Pass scope y r body s s' → s'.Sound → scope.Valid s' → Alike δ s' t' →
      SameOutcome δ (body s') (body t'))
    (hs : s.Sound) (hv : scope.Valid s) (h : Alike δ s t) (fuel : Nat) :
    SameOutcome δ (iterate scope y r body fuel s) (iterate scope y r body fuel t) := by
  induction fuel generalizing s t with
  | zero => exact .error h
  | succ fuel ih =>
    have hframes : Store.SameFrames scope s _ := Apart.toRun (loopNext r) s
    have hnext := Progress.of_sameFrames hs hv hframes
    refine .bind ((Aside.toRun (loopNext r)).blind s t h) fun v s₁ t₁ hx h₁ => ?_
    replace hx : (loopNext r).toRun s = .ok v s₁ := hx
    rw [after, hx] at hnext
    cases v with
    | none => exact .ok h₁
    | some v =>
      have hv₁ := hv.mono hnext.grows
      have hassign := Progress.assign hnext.sound scope y v hv₁.root
      have hv₂ := hv₁.mono hassign.grows
      have h₂ := (h₁.assign hv₁.root hy v).2
      have hpass := hbody _ _ (.first hx) hassign.sound hv₂ h₂
      have hprog := hprogress _ hassign.sound hv₂
      refine SameOutcome.bind (x := body) (s := (s₁.assign scope y v).2) (t := (t₁.assign scope y v).2)
        hpass fun _ s₃ t₃ hb h₃ => ?_
      rw [after, hb] at hprog
      refine ih ?_ hprog.sound (hv₂.mono hprog.grows) h₃
      intro s' t' hrest hs' hv' h'
      exact hbody s' t' (.next hx hb hrest) hs' hv' h'

end Run

/-- From stores that are alike but for a difference, an evaluation that avoids the difference ends
alike. -/
theorem Avoids.sameOutcome {n : Nat} {α : Type} {y : Script scope α} (hy : Avoids δ n y s)
    (h : Alike δ s t) (hs : s.Sound) (hv : scope.Valid s) :
    SameOutcome δ (y.run (Deeper.within n) s) (y.run (Deeper.within n) t) := by
  induction hy generalizing t with
  | done => exact .ok h
  | @andThen n scope α β y f s _ _ ihy ihf =>
    have hprog := y.progress n hs hv
    refine .bind (ihy h hs hv) fun b s₁ t₁ hx h₁ => ?_
    rw [Run.after, hx] at hprog
    exact ihf b s₁ hx h₁ hprog.sound (hv.mono hprog.grows)
  | act own => exact h.act _ _ own
  | leave => exact .error h
  | @read n scope y s own _ ih =>
    show SameOutcome δ (Run.read _ scope y s) (Run.read _ scope y t)
    rw [Run.read_eq, Run.read_eq, h.lookup own]
    cases hb : s.lookup scope y with
    | block b => exact .ok h
    | stored v => exact .ok h
    | argument c e =>
      cases n with
      | zero => exact .error h
      | succ k => exact ih k c e rfl hb h hs (hs.valid_argument hb)
  | @assign n scope y v s other => exact .ok (h.assign hv.root other v).2
  | @capture n scope y s _ ih =>
    have hw := Progress.written hs hv ""
    exact .capture h (ih (h.written "") hw.sound (hv.mono hw.grows))
  | rethrow _ ih => exact .mapFailure _ (ih h hs hv)
  | @loop n scope y source body s other state _ ih =>
    -- Neither the variable of the loop nor its state has the name, so both undos are alike as well.
    have hmid := Progress.midLoop y source hs hv
    have hbegin := Progress.beginLoop y source hs hv
    obtain ⟨hvar, hassign⟩ := h.assign hv.root other .null
    have hloop : (t.beginLoop scope y source).1 = (s.beginLoop scope y source).1 := by
      have hl : (t.assign scope y .null).2.loops = (s.assign scope y .null).2.loops :=
        congrArg (·.loops) hassign.bare
      show LoopRef.mk (t.assign scope y .null).2.loops.size =
        LoopRef.mk (s.assign scope y .null).2.loops.size
      rw [hl]
    obtain ⟨hundo, hstart⟩ := (h.midLoop hv.root other source).assign (hv.mono hmid.grows).root state
      (.loop (s.beginLoop scope y source).1)
    rw [← hloop, ← Store.beginLoop_rest, hloop, ← Store.beginLoop_rest] at hundo hstart
    show SameOutcome δ (Run.forEach n scope y source (body.run (Deeper.within n)) s)
      (Run.forEach n scope y source (body.run (Deeper.within n)) t)
    rw [Run.forEach_eq, Run.forEach_eq, hloop]
    have hv' := hv.mono hbegin.grows
    have hprog := Run.progress_iterate (x := y) (r := (s.beginLoop scope y source).1)
      (fun s hs hv => body.progress n (s := s) hs hv) n hbegin.sound hv'
    refine .andThen (.catchLeave _ (Run.sameOutcome_iterate (fun s hs hv => body.progress n hs hv) other
      (fun s' t' hpass hs' hv' h' => ih s' hpass h' hs' hv') hbegin.sound hv' hstart n))
      fun s' t' hx h' => ?_
    rw [Run.after_catchLeave] at hx
    rw [hx] at hprog
    have hfits := (Store.fits_undoLoop y source hs hv).mono hprog.grows
    have hback := h'.undo hprog.sound hfits state
    have hprog' := Progress.undo hprog.sound hfits
    have hfits' := ((Store.fits_undoVar y source hs hv).mono hprog.grows).mono
      hprog'.grows
    have hvar' : (t.beginLoop scope y source).2.1 = (s.beginLoop scope y source).2.1.shift δ := hvar
    rw [hundo, hvar']
    exact hback.undo hprog'.sound hfits' other
  | @call n scope m args body s _ ih =>
    obtain ⟨hc, h'⟩ := h.beginCall scope m args body
    have hbegin := Progress.beginCall m args body hs hv
    have hv' := Store.Valid.enter m args body hv
    have hprog := Script.progress_render n m.body hbegin.sound hv'
    show SameOutcome δ (Run.renderMacro _ scope m args body s) (Run.renderMacro _ scope m args body t)
    rw [Run.renderMacro_eq, Run.renderMacro_eq, hc]
    refine .andThen (.mapFailure _ (Run.sameOutcome_render h' fun k hk =>
      ih k hk h' hbegin.sound hv')) fun s' t' hx h' => ?_
    rw [Run.after_mapFailure] at hx
    rw [hx] at hprog
    refine h'.restoreParams hprog.sound ?_ ?_
    · exact Nat.lt_of_lt_of_le (hv'.calls _ (List.mem_cons_self ..)) hprog.grows.calls
    · rw [Store.beginCall_fst]
      exact h.calls
  | @template n scope e s _ ih =>
    have hmacros := Progress.addMacros hs scope.root e.macros
    have h' := h.addMacros hv.root e.macros
    exact .catchLeave _ (Run.sameOutcome_render h' fun k hk =>
      ih k hk h' hmacros.sound (hv.mono hmacros.grows))
  | @block n scope b s _ ih =>
    have hw := Progress.written hs hv ""
    have hb : t.block b = s.block b := by
      have hblocks : t.blocks = s.blocks := congrArg (·.blocks) h.bare
      rw [Store.block, hblocks]
      rfl
    show SameOutcome δ ((Deeper.within n).blockText (s.block b) s)
      ((Deeper.within n).blockText (t.block b) t)
    rw [hb]
    exact .capture h (Run.sameOutcome_render (h.written "") fun k hk =>
      ih k hk (h.written "") hw.sound ((hs.valid_block hv b).mono hw.grows))
  | @text n scope v s _ ih =>
    cases n with
    | zero => exact .error h
    | succ k => exact ih k rfl h hs (Store.valid_default hv)

end Stencil
