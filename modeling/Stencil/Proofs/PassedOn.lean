import Stencil.Proofs.Callers
import Stencil.Proofs.PassedBlocks

/-!
# Parameters that are passed on

However many macros pass a parameter on, and whatever its names are, the last one is the first argument, evaluated
once in the scope of the first caller: `PassedOn.run_reference` and `PassedOn.events_reference`. A block that
macros pass on comes to the last of them in the same way. Both rest on what each call is bound to:
`Template.parameters_lead_outward`.
-/

namespace Stencil

/-! ### Parameters -/

/-- In the middle of `n` calls, each in the body of the one before, the macro of each passes its parameter on as a
plain reference; the first has the argument `e` in the scope `outside`. The last call has the parameter `p`, and
its body the scope. -/
inductive PassedOn (outside : Scope) (e : Expr) {scope₁ : Scope} {β : Type} (k : Nat) (y : Script scope₁ β)
    (s : Store) : Nat → Scope → String → Prop where
  | argument {p c} : InCall outside p e c k y s → PassedOn outside e k y s 1 (outside.enter c) p
  | further {n scope p q c place quiet} : PassedOn outside e k y s n scope p →
      InCall scope q (.reference place p quiet []) c k y s →
      PassedOn outside e k y s (n + 1) (scope.enter c) q

/-- A reference to a parameter asks whether that is defined, and evaluates the argument. -/
theorem InCall.events_reference {caller scope₁ : Scope} {p : String} {e : Expr} {c : CallRef} {β : Type} {k : Nat}
    {y : Script scope₁ β} {s : Store} (h : InCall caller p e c k y s) (n : Nat) (place : Place)
    (quiet lenient : Bool) :
    (evalExpr (caller.enter c) (.reference place p quiet []) lenient).events (n + 1) s =
      .act (n + 1) (caller.enter c) (.defined p) :: (evalExpr caller e false).events n s := by
  have hdefined : s.isDefined (caller.enter c) p = true := by
    rw [Store.isDefined_eq, h.lookup_eq]
    rfl
  rw [Script.events_reference hdefined, Script.events_read, h.lookup_eq]
  rfl

namespace PassedOn

variable {outside scope scope₁ : Scope} {e : Expr} {β : Type} {k n : Nat} {y : Script scope₁ β} {s : Store}
  {p : String}

/-- The last parameter is the first argument, in the scope of the first caller. -/
theorem run_reference (h : PassedOn outside e k y s n scope p) (j : Nat) (place : Place) (quiet lenient : Bool) :
    (evalExpr scope (.reference place p quiet []) lenient).run (Deeper.within (j + n)) s =
      (evalExpr outside e false).run (Deeper.within j) s := by
  induction h generalizing place quiet lenient with
  | argument hcall => exact hcall.run_reference j place quiet lenient
  | further _ hcall ih => exact (hcall.run_reference _ place quiet lenient).trans (ih ..)

/-- The argument is evaluated once, and besides this each name on the way is found defined. -/
theorem events_reference (h : PassedOn outside e k y s n scope p) (j : Nat) (place : Place)
    (quiet lenient : Bool) :
    ∃ queries : List Event, queries.length = n ∧ (∀ q ∈ queries, q.AsksDefined) ∧
      (evalExpr scope (.reference place p quiet []) lenient).events (j + n) s =
        queries ++ (evalExpr outside e false).events j s := by
  induction h generalizing place quiet lenient with
  | argument hcall =>
    exact ⟨[_], rfl, List.forall_mem_singleton.2 ⟨_, _, _⟩, hcall.events_reference j place quiet lenient⟩
  | @further n scope p q c _ _ _ hcall ih =>
    obtain ⟨queries, hlength, hqueries, hevents⟩ := ih _ _ false
    refine ⟨.act (j + n + 1) (scope.enter c) (.defined q) :: queries, congrArg (· + 1) hlength,
      List.forall_mem_cons.2 ⟨⟨_, _, _⟩, hqueries⟩, ?_⟩
    exact (hcall.events_reference (j + n) place quiet lenient).trans (congrArg _ hevents)

end PassedOn

/-! ### Blocks -/

/-- In the middle of calls, each in the body of the one before, the macro of each passes the block given to it on
in the body of the next call; the first was given the nodes in the scope `outside`. The bodies are listed from
the last one back, and the body of the last macro has the scope. -/
inductive BlockPassedOn (outside : Scope) (nodes : List Node) {scope₁ : Scope} {β : Type} (k : Nat)
    (y : Script scope₁ β) (s : Store) : List PassingBody → Scope → Prop where
  | given {c} : GivenBlock outside nodes c k y s → BlockPassedOn outside nodes k y s [] (outside.enter c)
  | further {ps scope c} (p : PassingBody) : BlockPassedOn outside nodes k y s ps scope →
      GivenBlock scope p.nodes c k y s → BlockPassedOn outside nodes k y s (p :: ps) (scope.enter c)

/-- The name of blocks stands for a block that leads to the one that was given first. -/
theorem BlockPassedOn.leadsTo {outside scope scope₁ : Scope} {nodes : List Node} {β : Type} {k : Nat}
    {y : Script scope₁ β} {s : Store} {ps : List PassingBody} (h : BlockPassedOn outside nodes k y s ps scope) :
    ∃ first b : Block, first.scope = outside ∧ first.body = nodes ∧ s.LeadsTo first ps b ∧
      s.lookup scope bodyContent = .block b.ref ∧ scope.root = outside.root := by
  induction h with
  | given hcall =>
    obtain ⟨b, rfl, rfl, hhas, hlookup⟩ := hcall.lookup_eq
    exact ⟨b, b, rfl, rfl, .here hhas.block_ref, hlookup, rfl⟩
  | further p _ hcall ih =>
    obtain ⟨first, b, rfl, rfl, hleads, hb, hroot⟩ := ih
    obtain ⟨b', rfl, hbody, hhas, hlookup⟩ := hcall.lookup_eq
    exact ⟨first, b', rfl, rfl, .further p hleads hhas.block_ref hbody hroot hb, hlookup, hroot⟩

/-! ### In an evaluation -/

/-- Wherever a script is begun in the middle of an evaluation, the arguments of each call in its scope or in that of
a block are bound to the scope that the call was made in, also those that are hidden; so looking a parameter up
leads outward. A parameter that macros pass on is the first argument, evaluated once in the scope of the first
caller; and a block that they pass on has the text of the first block, rendered once in the scope of the first
caller, if the host gives blocks a text. -/
theorem Template.parameters_lead_outward {scope₁ : Scope} {β : Type} {k n : Nat} {y : Script scope₁ β}
    {s s₁ : Store} {ls : List Layer} {t : Template} {vars : Bindings Value} {host : HostKind} (hs : s.Arises)
    (h : t.Reaches k y s₁ ls n vars host s) :
    (scope₁.LeadsOutward s₁ ∧ ∀ b, (s₁.block b).scope.LeadsOutward s₁) ∧
    (∀ outside e i scope p, PassedOn outside e k y s₁ i scope p → ∀ j place quiet lenient,
      (evalExpr scope (.reference place p quiet []) lenient).run (Deeper.within (j + i)) s₁ =
        (evalExpr outside e false).run (Deeper.within j) s₁ ∧
      ∃ queries : List Event, queries.length = i ∧ (∀ q ∈ queries, q.AsksDefined) ∧
        (evalExpr scope (.reference place p quiet []) lenient).events (j + i) s₁ =
          queries ++ (evalExpr outside e false).events j s₁) ∧
    ∀ outside nodes ps scope, BlockPassedOn outside nodes k y s₁ ps scope →
      ∃ b, (∀ d place quiet lenient,
          (evalExpr scope (.reference place bodyContent quiet []) lenient).run d s₁ = .ok (.block b) s₁) ∧
        ∀ f, (s₁.root outside.root).host.writes = some f → ∀ j,
          ((s₁.root outside.root).host.textOf (.block b) : Script scope String).run
              (Deeper.within (j + ps.length + 1)) s₁ =
            ((fun text => f (passedText f ps text)) <$> Run.mapFailure (passedFailure ps)
              ((Script.capture (renderNodes outside nodes)).run (Deeper.within j))) s₁ ∧
          Surrounds ((renderNodes outside nodes).events j { s₁ with written := "" })
            (((s₁.root outside.root).host.textOf (.block b) : Script scope String).events
              (j + ps.length + 1) s₁) := by
  have hnests := hs.reached h
  refine ⟨⟨hnests.nested.leadsOutward, fun b => (hnests.block b).nested.leadsOutward⟩,
    fun outside e i scope p hpassed j place quiet lenient => ?_, fun outside nodes ps scope hpassed => ?_⟩
  · exact ⟨hpassed.run_reference j place quiet lenient, hpassed.events_reference j place quiet lenient⟩
  · obtain ⟨first, b, rfl, rfl, hleads, hlookup, hroot⟩ := hpassed.leadsTo
    refine ⟨b.ref, fun d place quiet lenient => run_reference_block hlookup d place quiet lenient,
      fun f hf j => ⟨?_, ?_⟩⟩
    · rw [run_textOf_block hf, hleads.block_ref, Run.map_congr (hleads.run_blockText hf j), Functor.map_map]
      rfl
    · rw [events_textOf_block hf]
      exact (hleads.events_block hf j scope).append_left (List.forall_mem_singleton.2 (.counts ..))

/-- The macro `m` calls itself with its own parameter, and passes its block on: the body is
`#if($again)#@m($p, false)$bodyContent#end#{else}$p#end`, and the call `#@m($v, true)text#end`. -/
theorem Template.parameters_lead_outward_recursive :
    let place : Place := ⟨none, 1⟩
    let var (x : String) : Expr := .reference place x false []
    let pass : PassingBody := ⟨[], place, false, []⟩
    let m : MacroDef := ⟨place, "m", ["p", "again"],
      [.choose place (var "again") [.callWith place "m" [var "p", .literal place (.bool false)] 1 pass.nodes]
        (.output (var "p"))]⟩
    let t : Template := ⟨0, ⟨place,
      [.callWith place "m" [var "v", .literal place (.bool true)] 1 [.text place "text"]], [m]⟩, ⟨0⟩⟩
    let outer : Scope := ⟨[⟨0⟩], ⟨0⟩⟩
    let inner : Scope := outer.enter ⟨1⟩
    ∃ s ls, t.Reaches 1 (renderNode inner (.output (var "p"))) s ls 3 [("v", .str "value")] .standard {} ∧
      s.BindsIn ⟨0⟩ ⟨[], ⟨0⟩⟩ ∧ s.BindsIn ⟨1⟩ outer ∧
      (evalExpr inner (var "p") false).run (Deeper.within 2) s = .ok (.str "value") s ∧
      ∃ b, (evalExpr inner (var bodyContent) false).run (Deeper.within 2) s = .ok (.block b) s ∧
        (HostKind.standard.textOf (.block b) : Script inner String).run (Deeper.within 2) s = .ok "text" s := by
  intro place var pass m t outer inner
  let root : Scope := ⟨[], ⟨0⟩⟩
  let y : Script inner Unit := renderNode inner (.output (var "p"))
  let args : List Expr := [var "v", .literal place (.bool true)]
  let args' : List Expr := [var "p", .literal place (.bool false)]
  let s₀ : Store := (Store.enterRoot {} ⟨[("v", .str "value")], [m], .standard, ⟨0⟩⟩).2
  let s₁ : Store := (s₀.beginCall root m args (some [.text place "text"])).2
  let s₂ : Store := (s₁.beginCall outer m args' (some pass.nodes)).2
  -- The first call goes on, and the second one comes to the parameter.
  have hagain : (evalExpr outer (var "again") true).run (Deeper.within 2) s₁ = .ok (.bool true) s₁ := rfl
  have hdone : (evalExpr inner (var "again") true).run (Deeper.within 1) s₂ = .ok (.bool false) s₂ := rfl
  have hinner : Stencil.Reaches 1 y s₂ [] 1 (renderNodes inner m.body) s₂ := .first (.later hdone .here)
  have houter : Stencil.Reaches 1 y s₂ [.body m] 2 (renderNodes outer m.body) s₁ :=
    .first (.later hagain (.first (.later rfl (.call hinner))))
  have hroot : Stencil.Reaches 1 y s₂ [.body m, .body m] 3 (renderNodes root t.document.nodes) s₀ :=
    .first (.later rfl (.call houter))
  obtain ⟨hsound, hvalid⟩ := Store.sound_empty.enterRoot ⟨[("v", .str "value")], [m], .standard, ⟨0⟩⟩
  have hsound₁ : s₁.Sound := hsound.beginCall m args (some [.text place "text"]) hvalid
  have hvalid₁ : outer.Valid s₁ := Store.Valid.enter m args (some [.text place "text"]) hvalid
  have hfirst : InCall root "p" (var "v") ⟨0⟩ 1 y s₂ :=
    ⟨hsound, hvalid, rfl, fun h => absurd h (by decide), rfl, houter, spared_of_assigns (by decide +kernel)⟩
  have hsecond : InCall outer "p" (var "p") ⟨1⟩ 1 y s₂ :=
    ⟨hsound₁, hvalid₁, rfl, fun h => absurd h (by decide), rfl, hinner, spared_of_assigns (by decide +kernel)⟩
  have hblocks : BlockPassedOn root [.text place "text"] 1 y s₂ [pass] inner :=
    .further pass (.given ⟨hsound, hvalid, rfl, houter⟩) ⟨hsound₁, hvalid₁, rfl, hinner⟩
  obtain ⟨hbound, hparam, hblock⟩ := parameters_lead_outward .empty hroot
  obtain ⟨b, hb, htext⟩ := hblock _ _ _ _ hblocks
  have hcalls := hbound.1.binds
  have hvalue := hparam _ _ _ _ _ (.further (.argument hfirst) hsecond) 0 place false false
  exact ⟨s₂, _, hroot, hcalls [⟨1⟩] ⟨0⟩ [] rfl, hcalls [] ⟨1⟩ [⟨0⟩] rfl, hvalue.1, b, hb _ place false false,
    (htext _ rfl 0).1⟩

end Stencil
