import Stencil.Proofs.Avoid

/-!
# What an assigned parameter does to the other arguments

A macro body assigns a parameter in the variables that the caller sees too. Whatever is read afterwards
and comes upon the name in the scope of the caller, such as the argument of another parameter, sees the
value that was assigned; whatever avoids the name does not notice.
-/

namespace Stencil

/-- Reading a plain reference gives what the variable stands for, when that is there without evaluating an
argument. -/
theorem run_reference {scope : Scope} {s : Store} {x : String} {v : Value} {b : Option BlockRef}
    (hx : s.lookup scope x = b.elim (.stored (some v)) .block) (d : Deeper) (place : Place) (quiet : Bool) :
    (evalExpr scope (.reference place x quiet []) false).run d s = .ok (b.elim v .block) s := by
  have hdef : s.isDefined scope x = true := by
    rw [Store.isDefined_eq, hx]
    cases b <;> rfl
  have hread : (Script.read x : Script scope Value).run d s = .ok (b.elim v .block) s := by
    show Run.read d scope x s = _
    rw [Run.read_eq, hx]
    cases b <;> rfl
  rw [evalExpr]
  have hask : (Act.defined x).run d.fuel scope s = .ok true s := by
    show EStateM.Result.ok (s.isDefined scope x) s = _
    rw [hdef]
  refine (Run.bind_ok hask).trans ?_
  refine (Run.bind_ok hread).trans ?_
  simp only [evalSuffixes]
  rfl

/-- The difference that the assignment of a name in a scope makes. -/
def Store.assigned (s : Store) (scope : Scope) (x : String) (v : Value) : Difference :=
  ⟨x, s.calls.size, s.shadows.size, (s.assign scope x v).2.shadows.size - s.shadows.size⟩

/-- When the body of a macro has assigned one parameter `p`, another one `q` is still its argument, evaluated
where it was given. There `p` now stands for the value, and every other name for what it stood for; so the
argument `$p` of `q` gives the value. Whatever avoids `p`, such as reading `q` when its argument does, or
rendering a block that does, ends as if the assignment had not been made. -/
theorem arguments_see_assigned_parameter (n : Nat) (s : Store) (caller : Scope) (c : CallRef)
    (p q : String) (v : Value) (t : Thunk) (hs : s.Sound) (hv : (caller.enter c).Valid s) (hpq : q ≠ p)
    (hq : s.lookup (caller.enter c) q = .argument c t) :
    let s' := (s.assign (caller.enter c) p v).2
    let readArg : Script (caller.enter c) Value := .read q
    readArg.run (Deeper.within n) s' = (Deeper.within n).thunk t s' ∧
      s'.lookup caller p = (s.blockOf caller p).elim (.stored (some v)) .block ∧
      (∀ scope y, y ≠ p → s'.lookup scope y = s.lookup scope y) ∧
      (∀ place quiet, t = ⟨.reference place p quiet [], caller⟩ →
        readArg.run (Deeper.within (n + 1)) s' = .ok ((s.blockOf caller p).elim v .block) s') ∧
      ∀ {α : Type} (y : Script (caller.enter c) α), Avoids (s.assigned (caller.enter c) p v) n y s →
        SameOutcome (s.assigned (caller.enter c) p v) (y.run (Deeper.within n) s)
          (y.run (Deeper.within n) s') := by
  intro s' readArg
  have hother : ∀ scope y, y ≠ p → s'.lookup scope y = s.lookup scope y := fun scope y hy =>
    s.lookup_assign_of_ne p v (caller.enter c) hv.root hy scope
  have hcaller : s'.lookup caller p = (s.blockOf caller p).elim (.stored (some v)) .block :=
    s.lookup_assign_of_subset p v (caller.enter c) hv.root rfl fun _ hd => List.mem_cons_of_mem _ hd
  have hread : ∀ k, readArg.run (Deeper.within k) s' = (Deeper.within k).thunk t s' := by
    intro k
    show Run.read _ _ q s' = _
    rw [Run.read_eq, hother _ q hpq, hq]
    rfl
  -- The argument is evaluated in the scope of the caller, which the assignment has passed.
  refine ⟨hread n, hcaller, hother, ?_, fun y hy => ?_⟩
  · rintro place quiet rfl
    rw [hread]
    exact run_reference hcaller _ place quiet
  · exact hy.sameOutcome (Store.alike_assign s _ p v hv.root) hs hv

/-- A macro is called with `$p` for `q` and a constant for `r`. Its assignment of `p` shows in `q`, and not
in `r`. -/
theorem reference_sees_assigned_parameter :
    let place : Place := ⟨none, 1⟩
    let m : MacroDef := ⟨place, "m", ["p", "q", "r"], []⟩
    let e : Expr := .reference place "p" false []
    let start := ({} : Store).enterRoot ⟨[("p", .str "old")], [], .standard, ⟨0⟩⟩
    let call := start.2.beginCall start.1 m [.literal place (.int 1), e, .literal place (.int 2)] none
    let body := start.1.enter call.1
    let s' := (call.2.assign body "p" (.str "in")).2
    call.2.Sound ∧ body.Valid call.2 ∧ "q" ≠ "p" ∧
      call.2.lookup body "q" = .argument call.1 ⟨e, start.1⟩ ∧
      (Script.read "q" : Script body Value).run (Deeper.within 1) call.2 = .ok (.str "old") call.2 ∧
      (Script.read "q" : Script body Value).run (Deeper.within 1) s' = .ok (.str "in") s' ∧
      SameOutcome (call.2.assigned body "p" (.str "in"))
        ((Script.read "r" : Script body Value).run (Deeper.within 1) call.2)
        ((Script.read "r" : Script body Value).run (Deeper.within 1) s') := by
  intro place m e start call body s'
  obtain ⟨hs₀, hv₀⟩ := Store.sound_empty.enterRoot ⟨[("p", .str "old")], [], .standard, ⟨0⟩⟩
  have hs : call.2.Sound := hs₀.beginCall _ _ _ hv₀
  have hv : body.Valid call.2 := Store.Valid.enter _ _ _ hv₀
  have hq : call.2.lookup body "q" = .argument call.1 ⟨e, start.1⟩ := rfl
  have h := fun n => arguments_see_assigned_parameter n call.2 start.1 call.1 "p" "q" (.str "in")
    ⟨e, start.1⟩ hs hv (by decide) hq
  have hr : Avoids (call.2.assigned body "p" (.str "in")) 1 (.read "r" : Script body Value) call.2 := by
    refine .read (fun he => absurd he (by decide)) fun k c t _ ht => ?_
    have hlookup : call.2.lookup body "r" = .argument call.1 ⟨.literal place (.int 2), start.1⟩ := rfl
    rw [hlookup] at ht
    cases ht
    exact .done
  exact ⟨hs, hv, by decide, hq, rfl, (h 0).2.2.2.1 place false rfl, (h 1).2.2.2.2 _ hr⟩

end Stencil
