import Stencil.Proofs.Confined

/-!
# Names that only bodies assign

`Confined` asks of each assignment what gives it back. Where no argument and no block assigns a name this
is plain: what is assigned in the body of a macro that has a parameter of that name is given back by the
call, and what is assigned in the body of a loop over the name by the loop. Such a name is enclosed, and
stands for what it stood for before when the evaluation is over: `Enclosed.lookup_eq`.
-/

namespace Stencil

open Holder (addCall addLoop watch)

/-- Whether in carrying out a script from a store a name is assigned only in the bodies of calls that have a
parameter of the name, and of loops over it; the proposition says whether the script is part of such a
body. Arguments and blocks are no part of the body in which they are read and rendered: they assign the name
only in calls and loops of their own. -/
inductive Enclosed (x : String) :
    Prop → Nat → {scope : Scope} → {α : Type} → Script scope α → Store → Prop
  | done {own : Prop} {n : Nat} {scope : Scope} {α : Type} {a : α} {s : Store} :
      Enclosed x own n (.done a : Script scope α) s
  | andThen {own : Prop} {n : Nat} {scope : Scope} {α β : Type} {y : Script scope β}
      {f : β → Script scope α} {s : Store} (first : Enclosed x own n y s)
      (second : ∀ b s', y.run (Deeper.within n) s = .ok b s' → Enclosed x own n (f b) s') :
      Enclosed x own n (.andThen y f) s
  | act {own : Prop} {n : Nat} {scope : Scope} {α : Type} {a : Act α} {s : Store} :
      Enclosed x own n (.act a : Script scope α) s
  | leave {own : Prop} {n : Nat} {scope : Scope} {α : Type} {place : Place} {loopOnly : Bool}
      {s : Store} : Enclosed x own n (.leave place loopOnly : Script scope α) s
  | read {own : Prop} {n : Nat} {scope : Scope} {y : String} {s : Store}
      (argument : ∀ k c t, n = k + 1 → s.lookup scope y = .argument c t →
        Enclosed x False k (evalExpr t.scope t.expr false) s) :
      Enclosed x own n (.read y : Script scope Value) s
  | assign {own : Prop} {n : Nat} {scope : Scope} {y : String} {v : Value} {s : Store}
      (inBody : y = x → own) : Enclosed x own n (.assign y v : Script scope Unit) s
  | capture {own : Prop} {n : Nat} {scope : Scope} {y : Script scope Unit} {s : Store}
      (inner : Enclosed x own n y { s with written := "" }) : Enclosed x own n (.capture y) s
  | rethrow {own : Prop} {n : Nat} {scope : Scope} {α : Type} {f : Failure → Failure}
      {y : Script scope α} {s : Store} (inner : Enclosed x own n y s) : Enclosed x own n (.rethrow f y) s
  | loop {own : Prop} {n : Nat} {scope : Scope} {y : String} {source : Source} {body : Script scope Unit}
      {s : Store} (passes : ∀ s', Run.Pass scope y (s.beginLoop scope y source).1
          (body.run (Deeper.within n)) (s.beginLoop scope y source).2.2.2 s' →
        Enclosed x (loopVar = x ∨ y = x ∨ own) n body s') :
      Enclosed x own n (.loop y source body) s
  | call {own : Prop} {n : Nat} {scope : Scope} {m : MacroDef} {args : List Expr}
      {body : Option (List Node)} {s : Store}
      (inside : ∀ k, n = k + 1 → Enclosed x (((Store.callParams scope m args).get? x).isSome ∨ own) k
        (renderNodes (scope.enter (s.beginCall scope m args body).1) m.body)
        (s.beginCall scope m args body).2) :
      Enclosed x own n (.call m args body : Script scope Unit) s
  | template {own : Prop} {n : Nat} {scope : Scope} {t : Template} {s : Store}
      (inside : ∀ k, n = k + 1 →
        Enclosed x own k (renderNodes scope t.document.nodes) (s.addMacros scope.root t.macros)) :
      Enclosed x own n (.template t : Script scope Unit) s
  | block {own : Prop} {n : Nat} {scope : Scope} {b : BlockRef} {s : Store}
      (inside : ∀ k, n = k + 1 →
        Enclosed x False k (renderNodes (s.block b).scope (s.block b).body) { s with written := "" }) :
      Enclosed x own n (.block b : Script scope String) s
  | text {own : Prop} {n : Nat} {scope : Scope} {v : Value} {s : Store}
      (inside : ∀ k, n = k + 1 → Enclosed x False k (textOf v : Script default String) s) :
      Enclosed x own n (.text v : Script scope String) s

namespace Holder

variable {x y : String} {base scope : Scope} {hs : List Holder}

/-- Whether a scope is the one of the latest holder, or was entered from it by calls that are no holders. -/
def Encloses (base scope : Scope) : List Holder → Prop
  | [] => False
  | h :: hs => scope.root = h.scope.root ∧
    ∃ pre, scope.calls = pre ++ h.scope.calls ∧ ∀ c ∈ pre, c ∉ (watch base (h :: hs)).calls

theorem Encloses.addLoop (u : Undo) (h : y = x ∨ Encloses base scope hs) :
    Encloses base scope (addLoop x y u scope hs) := by
  rw [Holder.addLoop]
  split
  · exact ⟨rfl, [], rfl, List.forall_mem_nil _⟩
  · rename_i hyx
    exact h.resolve_left hyx

theorem Encloses.addCall {params : Bindings Thunk} {c : CallRef} (hc : c ∉ (watch base hs).calls)
    (h : (params.get? x).isSome ∨ Encloses base scope hs) :
    Encloses base (scope.enter c) (addCall x params c scope hs) := by
  rw [Holder.addCall]
  split
  · exact ⟨rfl, [], rfl, List.forall_mem_nil _⟩
  · rename_i hx
    cases hs with
    | nil => exact absurd (h.resolve_left hx) id
    | cons holder hs =>
      obtain ⟨hroot, pre, hcalls, hpre⟩ := h.resolve_left hx
      exact ⟨hroot, c :: pre, congrArg (c :: ·) hcalls, List.forall_mem_cons.2 ⟨hc, hpre⟩⟩

end Holder

open Holder (Encloses)

/-- An assignment in the body of the latest holder is given back by that. -/
theorem Store.Held.covered {x : String} {base scope : Scope} {hs : List Holder} {s : Store}
    (hK : Held x base hs s) (h : Encloses base scope hs) : s.Covered x base scope hs := by
  cases hs with
  | nil => cases h
  | cons holder hs =>
    obtain ⟨hroot, pre, hcalls, hpre⟩ := h
    cases holder with
    | call c caller => exact ⟨hroot, .inl ⟨pre, hcalls, fun d hd hmem => absurd hmem (hpre d hd)⟩⟩
    | loop u w =>
      -- The loop has hidden the parameters of its own scope, and those of the calls since do not matter.
      have hhidden := hK.1.resolve_left fun hu => nomatch hu
      refine ⟨hroot, fun d hd hmem => ?_⟩
      rw [hcalls] at hd
      rcases List.mem_append.1 hd with hd | hd
      · exact absurd hmem (hpre d hd)
      · exact hhidden.1 d hd hmem

/-- At each pass of a loop the holders stand ready, if its body upholds that. -/
theorem Run.Pass.held {x y : String} {base scope : Scope} {hs : List Holder} {s s' : Store} {r : LoopRef}
    {body : Run Unit} (h : Pass scope y r body s s')
    (hprogress : ∀ s : Store, s.Sound → scope.Valid s → Store.Progress s (body.after s))
    (hloop : y = x → ∃ u rest, hs = .loop u scope :: rest)
    (hbody : ∀ s', Pass scope y r body s s' → Store.Progress s s' → Store.Held x base hs s' →
      Store.Upholds x base hs hs s' (body.after s'))
    (hsound : s.Sound) (hv : scope.Valid s) (hK : Store.Held x base hs s) :
    Store.Progress s s' ∧ Store.Held x base hs s' := by
  induction h with
  | first hnext =>
    obtain ⟨hprog, hfirst⟩ := Run.upholds_next hnext hloop hsound hv hK
    exact ⟨hprog, hfirst.1⟩
  | @next s s₁ s₂ s' v hnext hb _ ih =>
    obtain ⟨hprog, hfirst⟩ := Run.upholds_next hnext hloop hsound hv hK
    have hv₁ := hv.mono hprog.grows
    have hpass := hbody _ (.first hnext) hprog hfirst.1
    have hbodyProg := hprogress _ hprog.sound hv₁
    rw [after, hb] at hpass hbodyProg
    have hprog₂ := hprog.trans hbodyProg
    obtain ⟨hrest, hK'⟩ := ih (fun s' hpass' hp => hbody s' (.next hnext hb hpass') (hprog₂.trans hp))
      hprog₂.sound (hv.mono hprog₂.grows) hpass.1
    exact ⟨hprog₂.trans hrest, hK'⟩

namespace Enclosed

open Store (Held Progress)

variable {x : String} {base : Scope}

/-- A name that is enclosed in an evaluation is confined in it. -/
theorem confined {own : Prop} {n : Nat} {hs : List Holder} {scope : Scope} {α : Type} {y : Script scope α}
    {s : Store} (h : Enclosed x own n y s) (hsound : s.Sound) (hv : scope.Valid s)
    (hbase : ∀ c ∈ base.calls, c.index < s.calls.size) (hK : Held x base hs s)
    (hown : own → Encloses base scope hs) : Confined x base n hs y s := by
  -- The holders vary along the induction, since calls and loops begin in the middle of it.
  induction h generalizing hs with
  | done => exact .done
  | @andThen own n scope α β y f s _ _ ihy ihf =>
    have hy := ihy hsound hv hbase hK hown
    refine .andThen hy fun b s' hb => ?_
    have hfirst := (hy.upholds hsound hv hbase hK).1
    have hprog := y.progress n hsound hv
    rw [Run.after, hb] at hfirst hprog
    exact ihf b s' hb hprog.sound (hv.mono hprog.grows) (hprog.grows.lt_calls hbase) hfirst hown
  | act => exact .act
  | leave => exact .leave
  | read _ ih =>
    exact .read fun k c t hk hx => ih k c t hk hx hsound (hsound.valid_argument hx) hbase hK False.elim
  | assign inBody => exact .assign fun hyx => .inl (hK.covered (hown (inBody hyx)))
  | capture _ ih =>
    have hw := Progress.written hsound hv ""
    exact .capture (ih hw.sound (hv.mono hw.grows) hbase (hK.written hsound hv "").1 hown)
  | rethrow _ ih => exact .rethrow (ih hsound hv hbase hK hown)
  | @loop own n scope y source body s _ ih =>
    have hbegin := Progress.beginLoop y source hsound hv
    have hstart := hK.enterLoop hsound hv y source
    have hv' := hv.mono hbegin.grows
    let hs' := addLoop x loopVar (s.beginLoop scope y source).2.2.1 scope
      (addLoop x y (s.beginLoop scope y source).2.1 scope hs)
    have hown' : loopVar = x ∨ y = x ∨ own → Encloses base scope hs' :=
      fun h => .addLoop _ (h.imp_right fun h => .addLoop _ (h.imp_right hown))
    -- The holders stand ready at a pass because the name is confined in the passes before it.
    have hpass : ∀ s', Run.Pass scope y (s.beginLoop scope y source).1 (body.run (Deeper.within n))
        (s.beginLoop scope y source).2.2.2 s' → Progress (s.beginLoop scope y source).2.2.2 s' →
        Held x base hs' s' → Confined x base n hs' body s' := fun s' h hp hK' =>
      ih s' h hp.sound (hv'.mono hp.grows) ((hbegin.grows.trans hp.grows).lt_calls hbase) hK' hown'
    refine .loop fun s' h => ?_
    obtain ⟨hp, hK'⟩ := h.held (fun s hs hv => body.progress n (s := s) hs hv) (Holder.head_addLoop _ _ scope hs)
      (fun s' h hp hK' => (hpass s' h hp hK').upholds hp.sound (hv'.mono hp.grows)
        ((hbegin.grows.trans hp.grows).lt_calls hbase) hK') hbegin.sound hv' hstart.1
    exact hpass s' h hp hK'
  | @call own n scope m args body s _ ih =>
    refine .call fun k hk => ?_
    have hbegin := Progress.beginCall m args body hsound hv
    have hfresh : (s.beginCall scope m args body).1 ∉ (watch base hs).calls := by
      intro hc
      have hlt := hK.lt_watch hsound hbase _ hc
      rw [Store.beginCall_fst] at hlt
      exact Nat.lt_irrefl _ hlt
    exact ih k hk hbegin.sound (Store.Valid.enter m args body hv) (hbegin.grows.lt_calls hbase)
      (hK.beginCall hsound hv hbase m args body).1 fun h => .addCall hfresh (h.imp_right hown)
  | @template own n scope t s _ ih =>
    refine .template fun k hk => ?_
    have hmacros := Progress.addMacros hsound scope.root t.macros
    have hfirst := hK.congr hsound hmacros.sound (.addMacros hv)
    exact ih k hk hmacros.sound (hv.mono hmacros.grows) (hmacros.grows.lt_calls hbase) hfirst.1 hown
  | @block own n scope b s _ ih =>
    refine .block fun k hk => ?_
    have hw := Progress.written hsound hv ""
    exact ih k hk hw.sound ((hsound.valid_block hv b).mono hw.grows) hbase (hK.written hsound hv "").1
      False.elim
  | text _ ih =>
    exact .text fun k hk => ih k hk hsound (Store.valid_default hv) hbase hK False.elim

/-- An evaluation in which a name is enclosed leaves what the name stands for in its scope. So a macro call,
whatever its body and however it ends, gives back a parameter that no argument and no block assigns. -/
theorem lookup_eq {n : Nat} {scope : Scope} {α : Type} {y : Script scope α} {s : Store}
    (h : Enclosed x False n y s) (hsound : s.Sound) (hv : scope.Valid s) :
    ((y.run (Deeper.within n)).after s).lookup scope x = s.lookup scope x := by
  have hconfined : Confined x scope n [] y s := h.confined hsound hv hv.calls trivial False.elim
  have hsame := (hconfined.upholds hsound hv hv.calls trivial).2
  have hgrows := (y.progress n hsound hv).grows
  refine Store.lookupIn_congr (fun c hc => ⟨hsame.arg c hc, ?_⟩) hsame.var
  rw [CallFrame.blockFor?, CallFrame.blockFor?, hgrows.block c (hv.calls c hc)]

end Enclosed

end Stencil
