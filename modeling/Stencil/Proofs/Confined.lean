import Stencil.Proofs.Held

/-!
# Macro calls give back what they assign

A name is confined in an evaluation when each assignment of it is given back by a call or loop that is
going on. An evaluation in which a name is confined leaves it as it was, once those calls and loops have
ended: `Confined.upholds`. A macro call whose body is such an evaluation therefore leaves a parameter of
the macro as it was in the scope of the caller, however the call ends: `call_gives_back`.
-/

namespace Stencil

open Holder (addCall addLoop watch)

/-- Whether an assignment of a name in a scope concerns neither another scope nor the calls that are to
end. -/
def Store.Spares (s : Store) (x : String) (base scope : Scope) (hs : List Holder) : Prop :=
  scope.root ≠ base.root ∧ s.Absent x (watch base hs).calls scope

/-- Whether in carrying out a script from a store each assignment of a name is given back by what holds
it, or does not concern the base scope. The holders are those of the calls and loops that are going on;
arguments, blocks and templates are followed to wherever they lead. -/
inductive Confined (x : String) (base : Scope) :
    Nat → List Holder → {scope : Scope} → {α : Type} → Script scope α → Store → Prop
  | done {n : Nat} {hs : List Holder} {scope : Scope} {α : Type} {a : α} {s : Store} :
      Confined x base n hs (.done a : Script scope α) s
  | andThen {n : Nat} {hs : List Holder} {scope : Scope} {α β : Type} {y : Script scope β}
      {f : β → Script scope α} {s : Store} (first : Confined x base n hs y s)
      (second : ∀ b s', y.run (Deeper.within n) s = .ok b s' → Confined x base n hs (f b) s') :
      Confined x base n hs (.andThen y f) s
  | act {n : Nat} {hs : List Holder} {scope : Scope} {α : Type} {a : Act α} {s : Store} :
      Confined x base n hs (.act a : Script scope α) s
  | leave {n : Nat} {hs : List Holder} {scope : Scope} {α : Type} {place : Place} {loopOnly : Bool}
      {s : Store} : Confined x base n hs (.leave place loopOnly : Script scope α) s
  | read {n : Nat} {hs : List Holder} {scope : Scope} {y : String} {s : Store}
      (argument : ∀ k c t, n = k + 1 → s.lookup scope y = .argument c t →
        Confined x base k hs (evalExpr t.scope t.expr false) s) :
      Confined x base n hs (.read y : Script scope Value) s
  | assign {n : Nat} {hs : List Holder} {scope : Scope} {y : String} {v : Value} {s : Store}
      (back : y = x → s.Covered x base scope hs ∨ s.Spares x base scope hs) :
      Confined x base n hs (.assign y v : Script scope Unit) s
  | capture {n : Nat} {hs : List Holder} {scope : Scope} {y : Script scope Unit} {s : Store}
      (inner : Confined x base n hs y { s with written := "" }) :
      Confined x base n hs (.capture y) s
  | rethrow {n : Nat} {hs : List Holder} {scope : Scope} {α : Type} {f : Failure → Failure}
      {y : Script scope α} {s : Store} (inner : Confined x base n hs y s) :
      Confined x base n hs (.rethrow f y) s
  | loop {n : Nat} {hs : List Holder} {scope : Scope} {y : String} {source : Source}
      {body : Script scope Unit} {s : Store}
      (passes : ∀ s', Run.Pass scope y (s.beginLoop scope y source).1 (body.run (Deeper.within n))
          (s.beginLoop scope y source).2.2.2 s' →
        Confined x base n (addLoop x loopVar (s.beginLoop scope y source).2.2.1 scope
          (addLoop x y (s.beginLoop scope y source).2.1 scope hs)) body s') :
      Confined x base n hs (.loop y source body) s
  | call {n : Nat} {hs : List Holder} {scope : Scope} {m : MacroDef} {args : List Expr}
      {body : Option (List Node)} {s : Store}
      (inside : ∀ k, n = k + 1 → Confined x base k
        (addCall x (Store.callParams scope m args) (s.beginCall scope m args body).1 scope hs)
        (renderNodes (scope.enter (s.beginCall scope m args body).1) m.body)
        (s.beginCall scope m args body).2) :
      Confined x base n hs (.call m args body : Script scope Unit) s
  | template {n : Nat} {hs : List Holder} {scope : Scope} {t : Template} {s : Store}
      (inside : ∀ k, n = k + 1 → Confined x base k hs (renderNodes scope t.document.nodes)
        (s.addMacros scope.root t.macros)) :
      Confined x base n hs (.template t : Script scope Unit) s
  | block {n : Nat} {hs : List Holder} {scope : Scope} {b : BlockRef} {s : Store}
      (inside : ∀ k, n = k + 1 → Confined x base k hs
        (renderNodes (s.block b).scope (s.block b).body) { s with written := "" }) :
      Confined x base n hs (.block b : Script scope String) s
  | text {n : Nat} {hs : List Holder} {scope : Scope} {v : Value} {s : Store}
      (inside : ∀ k, n = k + 1 → Confined x base k hs (textOf v : Script default String) s) :
      Confined x base n hs (.text v : Script scope String) s

namespace Store

variable {s s' : Store} {x : String} {base scope : Scope} {hs : List Holder}

/-- Calls that exist go on existing. -/
theorem Grows.lt_calls {calls : List CallRef} (hg : s.Grows s') (h : ∀ c ∈ calls, c.index < s.calls.size) :
    ∀ c ∈ calls, c.index < s'.calls.size :=
  fun c hc => Nat.lt_of_lt_of_le (h c hc) hg.calls

theorem Held.sameFrames (hK : Held x base hs s) (hsound : s.Sound) (hv : scope.Valid s)
    (h : SameFrames scope s s') : Upholds x base hs hs s s' :=
  hK.congr hsound (Progress.of_sameFrames hsound hv h).sound (.of_sameFrames h)

/-- What is written meanwhile does not matter. -/
theorem Held.written (hK : Held x base hs s) (hsound : s.Sound) (hv : scope.Valid s) (text : String) :
    Upholds x base hs hs s { s with written := text } :=
  hK.sameFrames hsound hv (.of_eq rfl rfl rfl rfl)

/-- An assignment in a scope that has nothing to do with what matters. -/
theorem Held.assign_of_spares (hK : Held x base hs s) (hsound : s.Sound) (hv : scope.Valid s)
    (hspares : s.Spares x base scope hs) (v : Value) :
    Upholds x base hs hs s (s.assign scope x v).2 := by
  have hsame : SameArgs x (watch base hs).calls s (s.assign scope x v).2 :=
    .assign_of_absent hsound hv.root hspares.2
  refine hK.congr hsound (hsound.assign scope x v hv.root) ⟨hsame, ?_⟩
  rw [var_assign _ _ _ _ hv.root, if_neg]
  rintro ⟨hr, -⟩
  exact hspares.1 hr.symm

/-- The assignment of a pass of a loop. -/
theorem Held.assign_pass (hK : Held x base hs s) (hsound : s.Sound) (hv : scope.Valid s) {y : String}
    (hloop : y = x → ∃ u rest, hs = .loop u scope :: rest) (v : Value) :
    Upholds x base hs hs s (s.assign scope y v).2 := by
  by_cases hyx : y = x
  · subst hyx
    obtain ⟨u, rest, rfl⟩ := hloop rfl
    have hready : s.Hidden y (watch base (.loop u scope :: rest)).calls (.loop u scope) :=
      hK.1.resolve_left fun hu => nomatch hu
    exact hK.assign hsound hv ⟨rfl, hready.1⟩
  · exact hK.congr hsound (hsound.assign scope y v hv.root) (.assign_of_ne hsound hv.root hyx)

/-- A loop assigns its variable and then its state when it begins. -/
theorem Held.enterLoop (hK : Held x base hs s) (hsound : s.Sound) (hv : scope.Valid s) (y : String)
    (source : Source) :
    Upholds x base hs (addLoop x loopVar (s.beginLoop scope y source).2.2.1 scope
      (addLoop x y (s.beginLoop scope y source).2.1 scope hs)) s (s.beginLoop scope y source).2.2.2 := by
  have hvar := hK.beginLoop hsound hv y .null
  have hassign := Progress.assign hsound scope y .null hv.root
  have hstate := hvar.trans (hvar.1.sameFrames hassign.sound (hv.mono hassign.grows)
    (sameFrames_midLoop s scope y source))
  have hmid := Progress.midLoop y source hsound hv
  exact hstate.trans (hstate.1.beginLoop hmid.sound (hv.mono hmid.grows) loopVar
    (.loop (s.beginLoop scope y source).1))

end Store

/-- In a loop over a name the latest holder is a loop in its scope. -/
theorem Holder.head_addLoop {x y : String} (u u' : Undo) (scope : Scope) (hs : List Holder) (hyx : y = x) :
    ∃ v rest, addLoop x loopVar u' scope (addLoop x y u scope hs) = .loop v scope :: rest := by
  rw [addLoop]
  split
  · exact ⟨_, _, rfl⟩
  · exact ⟨_, _, if_pos hyx⟩

namespace Run

open Store (Held Upholds Progress)

variable {s : Store} {x y : String} {base scope : Scope} {hs : List Holder}

/-- What is written meanwhile does not matter. -/
theorem upholds_capture {y : Run Unit} (hsound : s.Sound) (hv : scope.Valid s)
    (hK : Held x base hs s)
    (hprogress : Progress { s with written := "" } (y.after { s with written := "" }))
    (hy : Held x base hs { s with written := "" } →
      Upholds x base hs hs { s with written := "" } (y.after { s with written := "" })) :
    Upholds x base hs hs s ((capture y).after s) := by
  have hfirst := hK.written hsound hv ""
  have hrun := hfirst.trans (hy hfirst.1)
  have hv' := (hv.mono (Progress.written hsound hv "").grows).mono hprogress.grows
  rw [after_capture]
  exact hrun.trans (hrun.1.written hprogress.sound hv' _)

/-- Rendering one level deeper upholds what carrying out its script does. -/
theorem upholds_render {n : Nat} {nodes : List Node} (hK : Held x base hs s)
    (h : ∀ k, n = k + 1 →
      Upholds x base hs hs s (((renderNodes scope nodes).run (Deeper.within k)).after s)) :
    Upholds x base hs hs s (((Deeper.within n).render scope nodes).after s) := by
  cases n with
  | zero => exact ⟨hK, .refl x base _⟩
  | succ k => exact h k rfl

/-- Taking the next item of a loop, which it assigns to its variable. -/
theorem upholds_next {r : LoopRef} {v : Value} {s₁ : Store}
    (hnext : (loopNext r).toRun s = .ok (some v) s₁)
    (hloop : y = x → ∃ u rest, hs = .loop u scope :: rest) (hsound : s.Sound) (hv : scope.Valid s)
    (hK : Held x base hs s) :
    Progress s (s₁.assign scope y v).2 ∧ Upholds x base hs hs s (s₁.assign scope y v).2 := by
  have hframes : Store.SameFrames scope s ((loopNext r).toRun.after s) := Apart.toRun (loopNext r) s
  rw [after, hnext] at hframes
  have htaken := Progress.of_sameFrames hsound hv hframes
  have hfirst := hK.sameFrames hsound hv hframes
  have hv₁ := hv.mono htaken.grows
  exact ⟨htaken.trans (.assign htaken.sound scope y v hv₁.root),
    hfirst.trans (hfirst.1.assign_pass htaken.sound hv₁ hloop v)⟩

/-- The passes of a loop uphold what its body upholds. -/
theorem upholds_iterate {r : LoopRef} {body : Run Unit}
    (hprogress : ∀ s : Store, s.Sound → scope.Valid s → Progress s (body.after s))
    (hloop : y = x → ∃ u rest, hs = .loop u scope :: rest)
    (hbody : ∀ s', Pass scope y r body s s' → s'.Sound → scope.Valid s' → s.Grows s' →
      Held x base hs s' → Upholds x base hs hs s' (body.after s'))
    (hsound : s.Sound) (hv : scope.Valid s) (hK : Held x base hs s) (fuel : Nat) :
    Upholds x base hs hs s ((iterate scope y r body fuel).after s) := by
  induction fuel generalizing s with
  | zero => exact ⟨hK, .refl x base _⟩
  | succ fuel ih =>
    have hframes : Store.SameFrames scope s _ := Apart.toRun (loopNext r) s
    have hstop := hK.sameFrames hsound hv hframes
    show Upholds x base hs hs s (((loopNext r).toRun >>= _ : Run Unit).after s)
    rw [after_bind]
    cases hx : (loopNext r).toRun s with
    | error h s₁ =>
      rw [after, hx] at hstop
      exact hstop
    | ok v s₁ =>
      cases v with
      | none =>
        rw [after, hx] at hstop
        exact hstop
      | some v =>
        obtain ⟨hprog, hnext⟩ := upholds_next hx hloop hsound hv hK
        have hv₂ := hv.mono hprog.grows
        have hpass := hbody _ (.first hx) hprog.sound hv₂ hprog.grows hnext.1
        have hbodyProg := hprogress _ hprog.sound hv₂
        refine hnext.trans ?_
        show Upholds x base hs hs _
          ((body >>= fun _ => iterate scope y r body fuel : Run Unit).after (s₁.assign scope y v).2)
        rw [after_bind]
        cases hb : body (s₁.assign scope y v).2 with
        | error h s₂ =>
          rw [after, hb] at hpass
          exact hpass
        | ok _ s₂ =>
          rw [after, hb] at hpass hbodyProg
          refine hpass.trans (ih ?_ hbodyProg.sound (hv₂.mono hbodyProg.grows) hpass.1)
          intro s' hpass' hs' hv' hg hK'
          exact hbody s' (.next hx hb hpass') hs' hv' ((hprog.grows.trans hbodyProg.grows).trans hg) hK'

end Run

namespace Confined

open Store (Held Upholds Progress)

variable {x : String} {base : Scope}

/-- An evaluation in which a name is confined leaves what holds the name ready, and the name as it was
once all has ended. -/
theorem upholds {n : Nat} {hs : List Holder} {scope : Scope} {α : Type} {y : Script scope α} {s : Store}
    (h : Confined x base n hs y s) (hsound : s.Sound) (hv : scope.Valid s)
    (hbase : ∀ c ∈ base.calls, c.index < s.calls.size) (hK : Held x base hs s) :
    Upholds x base hs hs s ((y.run (Deeper.within n)).after s) := by
  -- The induction is on how the name is confined. Sound stores, valid scopes and ready holders are carried
  -- along, since each step starts where the one before it has ended.
  induction h with
  | done => exact ⟨hK, .refl x base _⟩
  | @andThen n hs scope α β y f s _ _ ihy ihf =>
    have hfirst := ihy hsound hv hbase hK
    have hprog := y.progress n hsound hv
    rw [Script.run, Run.after_bind]
    cases hb : y.run (Deeper.within n) s with
    | error e s₁ =>
      rw [Run.after, hb] at hfirst
      exact hfirst
    | ok b s₁ =>
      rw [Run.after, hb] at hfirst hprog
      exact hfirst.trans
        (ihf b s₁ hb hprog.sound (hv.mono hprog.grows) (hprog.grows.lt_calls hbase) hfirst.1)
  | @act n hs scope α a s => exact hK.sameFrames hsound hv (a.apart _ scope s)
  | leave => exact ⟨hK, .refl x base _⟩
  | @read n hs scope y s _ ih =>
    show Upholds x base hs hs s ((Run.read (Deeper.within n) scope y).after s)
    rw [Run.after, Run.read_eq, ← Run.after]
    cases hb : s.lookup scope y with
    | block b => exact ⟨hK, .refl x base _⟩
    | stored v => exact ⟨hK, .refl x base _⟩
    | argument c t =>
      cases n with
      | zero => exact ⟨hK, .refl x base _⟩
      | succ k => exact ih k c t rfl hb hsound (hsound.valid_argument hb) hbase hK
  | @assign n hs scope y v s back =>
    by_cases hyx : y = x
    · subst hyx
      exact (back rfl).elim (fun hc => hK.assign hsound hv hc)
        fun hc => hK.assign_of_spares hsound hv hc v
    · exact hK.congr hsound (hsound.assign scope y v hv.root) (.assign_of_ne hsound hv.root hyx)
  | @capture n hs scope y s _ ih =>
    have hw := Progress.written hsound hv ""
    exact Run.upholds_capture hsound hv hK (y.progress n hw.sound (hv.mono hw.grows)) fun hK =>
      ih hw.sound (hv.mono hw.grows) hbase hK
  | @rethrow n hs scope α f y s _ ih =>
    rw [Script.run, Run.after_mapFailure]
    exact ih hsound hv hbase hK
  | @loop n hs scope y source body s _ ih =>
    rw [Script.run, Run.after_forEach]
    have hbegin := Progress.beginLoop y source hsound hv
    have hstart := hK.enterLoop hsound hv y source
    have hv' := hv.mono hbegin.grows
    have hpasses := Run.upholds_iterate (r := (s.beginLoop scope y source).1) (y := y)
      (fun s hs hv => body.progress n (s := s) hs hv) (Holder.head_addLoop _ _ scope hs)
      (fun s' hpass hs' hv' hg hK' => ih s' hpass hs' hv' ((hbegin.grows.trans hg).lt_calls hbase) hK')
      hbegin.sound hv' hstart.1 n
    -- What the loop assigned first it takes back last.
    have hprog := Run.progress_iterate (x := y) (r := (s.beginLoop scope y source).1)
      (fun s hs hv => body.progress n (s := s) hs hv) n hbegin.sound hv'
    have hfits := (Store.fits_undoLoop y source hsound hv).mono hprog.grows
    have hloop := (hstart.trans hpasses).1.endLoop hprog.sound hfits
    have hundo := Progress.undo hprog.sound hfits
    have hlast := hloop.1.endLoop hundo.sound
      (((Store.fits_undoVar y source hsound hv).mono hprog.grows).mono hundo.grows)
    exact ((hstart.trans hpasses).trans hloop).trans hlast
  | @call n hs scope m args body s _ ih =>
    rw [Script.run, Run.after_renderMacro]
    have hbegin := Progress.beginCall m args body hsound hv
    have hstart := hK.beginCall hsound hv hbase m args body
    have hv' := Store.Valid.enter m args body hv
    have hinside := Run.upholds_render hstart.1 fun k hk =>
      ih k hk hbegin.sound hv' (hbegin.grows.lt_calls hbase) hstart.1
    have hprog := Script.progress_render n m.body hbegin.sound hv'
    have hc := hv'.calls _ (List.mem_cons_self ..)
    exact (hstart.trans hinside).trans (hinside.1.endCall hprog.sound
      (Nat.lt_of_lt_of_le hc hprog.grows.calls) (hprog.keeps _ _ hc (Store.keeps_beginCall hsound)))
  | @template n hs scope t s _ ih =>
    rw [Script.run, Run.after_renderTemplate]
    have hmacros := Progress.addMacros hsound scope.root t.macros
    have hsame : Store.SameIn x (watch base hs) s (s.addMacros scope.root t.macros) := .addMacros hv
    have hfirst := hK.congr hsound hmacros.sound hsame
    exact hfirst.trans (Run.upholds_render hfirst.1 fun k hk =>
      ih k hk hmacros.sound (hv.mono hmacros.grows) (hmacros.grows.lt_calls hbase) hfirst.1)
  | @block n hs scope b s _ ih =>
    have hw := Progress.written hsound hv ""
    have hv' := (hsound.valid_block hv b).mono hw.grows
    exact Run.upholds_capture hsound hv hK (Script.progress_render n _ hw.sound hv') fun hK =>
      Run.upholds_render hK fun k hk => ih k hk hw.sound hv' hbase hK
  | @text n hs scope v s _ ih =>
    cases n with
    | zero => exact ⟨hK, .refl x base _⟩
    | succ k => exact ih k rfl hsound (Store.valid_default hv) hbase hK

end Confined

end Stencil
