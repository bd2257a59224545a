import Stencil.Proofs.CallByName
import Stencil.Proofs.SteadyTexts

/-!
# Equality in templates

The operator `==` compares values of one type as values, others by their texts, and null with null only. On values
without floats it is reflexive and symmetric, whatever the values hold, as long as they can be converted to text and
the blocks in them have no side effects: `equality_symmetric`. It is not transitive, since what has the same text as
two values of one type need not make them equal.
-/

namespace Stencil

open Value (equals)

variable {scope : Scope} {n : Nat} {s : Store} {u v : Value}

/-- What reading a name gives without evaluating anything: the value of a variable, or the block of a call. -/
inductive Binding.Holds : Binding → Value → Prop
  | stored (v : Value) : Holds (.stored (some v)) v
  | block (b : BlockRef) : Holds (.block b) (.block b)

/-- A reference to what can be read at once gives it. -/
theorem run_reference_of_holds {x : String} (hx : (s.lookup scope x).Holds v) (p : Place) (quiet : Bool) :
    (evalExpr scope (.reference p x quiet []) false).run (Deeper.within n) s = .ok v s := by
  generalize hfound : s.lookup scope x = found at hx
  cases hx with
  | stored v => exact run_reference (b := none) hfound _ p quiet
  | block b => exact run_reference (v := .null) (b := some b) hfound _ p quiet

/-- A comparison gives what comparing the values of its sides gives. -/
theorem run_comparison {a b : Expr} {s₁ s₂ s₃ : Store} {answer : Bool}
    (ha : (evalExpr scope a false).run (Deeper.within n) s = .ok u s₁)
    (hb : (evalExpr scope b false).run (Deeper.within n) s₁ = .ok v s₂)
    (hequal : (equal a.place u v : Script scope Bool).run (Deeper.within n) s₂ = .ok answer s₃) (lenient : Bool) :
    (evalExpr scope (.binary a .equal b) lenient).run (Deeper.within n) s = .ok (.bool answer) s₃ ∧
      (evalExpr scope (.binary a .notEqual b) lenient).run (Deeper.within n) s = .ok (.bool !answer) s₃ := by
  refine ⟨?_, ?_⟩
  all_goals
    rw [evalExpr.eq_def]
    exact (Run.bind_ok ha).trans ((Run.bind_ok hb).trans (Run.bind_ok hequal))

/-- Blocks without side effects, seen from a store: whatever of them is rendered from there on, and in whatever order,
each gives the same text every time, and no list or object that there is changes. -/
def Store.Rests (s : Store) (scope : Scope) (quiet : BlockRef → Prop) : Prop :=
  ∃ P : Store → Prop, P s ∧ Resting s.toCells quiet P ∧
    ∀ s', P s' → (s'.root scope.root).host = (s.root scope.root).host

/-- A value can be converted to a text. -/
def Store.Shows (s : Store) (scope : Scope) (n : Nat) (v : Value) (text : String) : Prop :=
  ∃ s', ((s.root scope.root).host.textOf v : Script scope String).run (Deeper.within n) s = .ok text s'

/-- What two values that have texts are compared to. -/
def comparison (lists : Heap (Array Value)) (a b : Value) (left right : String) : Bool :=
  match a, b with
  | .null, .null => true
  | .null, _ | _, .null => false
  | a, b => if a.typeName = b.typeName then a.equals lists b else left == right

theorem comparison_null_left (lists : Heap (Array Value)) (v : Value) (left right : String) :
    comparison lists .null v left right = true ↔ v = .null := by
  cases v <;> simp [comparison]

theorem comparison_null_right (lists : Heap (Array Value)) (v : Value) (left right : String) :
    comparison lists v .null left right = true ↔ v = .null := by
  cases v <;> simp [comparison]

theorem comparison_of_ne_null (lists : Heap (Array Value)) (hu : u ≠ .null) (hv : v ≠ .null) (left right : String) :
    comparison lists u v left right = if u.typeName = v.typeName then u.equals lists v else left == right := by
  unfold comparison
  split
  · exact absurd rfl hu
  · exact absurd rfl hu
  · exact absurd rfl hv
  · rfl

theorem equal_of_ne_null (p : Place) (hu : u ≠ .null) (hv : v ≠ .null) :
    (equal p u v : Script scope Bool) = if u.typeName = v.typeName then do return u.equals (← Run.allLists) v
      else do
        let left ← hostText p u
        let right ← hostText p v
        return left == right := by
  unfold equal
  split
  · exact absurd rfl hu
  · exact absurd rfl hu
  · exact absurd rfl hv
  · rfl

section Comparison

variable {c : Cells} {quiet : BlockRef → Prop} {left right : String}

theorem comparison_comm (hu : u.Plain c quiet) (hv : v.Plain c quiet) :
    comparison c.lists u v left right = comparison c.lists v u right left := by
  by_cases hnu : u = .null
  · subst hnu
    rw [Bool.eq_iff_iff, comparison_null_left, comparison_null_right]
  by_cases hnv : v = .null
  · subst hnv
    rw [Bool.eq_iff_iff, comparison_null_left, comparison_null_right]
  rw [comparison_of_ne_null _ hnu hnv, comparison_of_ne_null _ hnv hnu, hu.equals_comm hv]
  simp only [eq_comm (a := u.typeName), Bool.beq_comm (a := left)]

theorem comparison_self (hu : u.Plain c quiet) : comparison c.lists u u left right = true := by
  by_cases hnu : u = .null
  · subst hnu
    rfl
  · rw [comparison_of_ne_null _ hnu hnu, if_pos rfl, hu.equals_self]

/-- Comparing two values gives what they are compared to, from each of the stores that conversions lead to. -/
theorem run_equal (hrest : s.Rests scope quiet) (hu : u.Plain s.toCells quiet) (hv : v.Plain s.toCells quiet)
    (hleft : s.Shows scope n u left) (hright : s.Shows scope n v right) (p : Place) :
    ∃ s', (equal p u v : Script scope Bool).run (Deeper.within n) s = .ok (comparison s.lists u v left right) s' := by
  by_cases hnu : u = .null
  · subst hnu
    cases v <;> exact ⟨s, rfl⟩
  by_cases hnv : v = .null
  · subst hnv
    cases u <;> exact ⟨s, rfl⟩
  rw [equal_of_ne_null p hnu hnv, comparison_of_ne_null _ hnu hnv]
  split
  · exact ⟨s, rfl⟩
  obtain ⟨P, hs, hP, hhost⟩ := hrest
  have htext {w : Value} {text : String} (hw : w.Plain s.toCells quiet) (htext : s.Shows scope n w text) {s' : Store}
      (hs' : P s') : ∃ s'', (hostText p w : Script scope String).run (Deeper.within n) s' = .ok text s'' ∧ P s'' := by
    obtain ⟨s₁, htext⟩ := htext
    have hsteady : Script.Steady P n (.rethrow (Failure.at p) ((s.root scope.root).host.textOf w) : Script scope String) :=
      (hP.hostTextOf _ hw).rethrow _
    obtain ⟨s'', hagain, hs''⟩ := (hsteady s text s₁ hs (Run.mapFailure_eq_ok.2 htext)).2 s' hs'
    have hask : (Script.act .host : Script scope HostKind).run (Deeper.within n) s' =
        .ok (s.root scope.root).host s' := by
      rw [← hhost s' hs']
      rfl
    exact ⟨s'', (Run.bind_ok hask).trans hagain, hs''⟩
  obtain ⟨s₁, hl, hs₁⟩ := htext hu hleft hs
  obtain ⟨s₂, hr, -⟩ := htext hv hright hs₁
  exact ⟨s₂, (Run.bind_ok hl).trans (Run.bind_ok hr)⟩

/-- Two references to variables are compared by the values of these. -/
theorem run_binary_equal (hrest : s.Rests scope quiet) (hu : u.Plain s.toCells quiet) (hv : v.Plain s.toCells quiet)
    (hleft : s.Shows scope n u left) (hright : s.Shows scope n v right) {x y : String}
    (hx : (s.lookup scope x).Holds u) (hy : (s.lookup scope y).Holds v) (p q : Place) (quiet₁ quiet₂ lenient : Bool) :
    ∃ s', (evalExpr scope (.binary (.reference p x quiet₁ []) .equal (.reference q y quiet₂ [])) lenient).run
        (Deeper.within n) s = .ok (.bool (comparison s.lists u v left right)) s' ∧
      (evalExpr scope (.binary (.reference p x quiet₁ []) .notEqual (.reference q y quiet₂ [])) lenient).run
        (Deeper.within n) s = .ok (.bool !(comparison s.lists u v left right)) s' := by
  obtain ⟨s', hequal⟩ := run_equal hrest hu hv hleft hright p
  exact ⟨s', run_comparison (run_reference_of_holds hx p quiet₁) (run_reference_of_holds hy q quiet₂) hequal lenient⟩

end Comparison

/-- Equality of variables that hold values without floats, whose conversion to text succeeds and whose blocks have no
side effects. It gives the same answer in both orders, and inequality the opposite one; a value equals itself; null
equals only null. But it is not transitive. -/
theorem equality_symmetric :
    (∀ (scope : Scope) (n : Nat) (s : Store) (quiet : BlockRef → Prop) (x y : String) (u v : Value)
        (left right : String) (p q : Place) (quiet₁ quiet₂ lenient : Bool),
      s.Rests scope quiet → (s.lookup scope x).Holds u → (s.lookup scope y).Holds v →
      u.Plain s.toCells quiet → v.Plain s.toCells quiet →
      s.Shows scope n u left → s.Shows scope n v right →
      let a : Expr := .reference p x quiet₁ []
      let b : Expr := .reference q y quiet₂ []
      let gives (e : Expr) (answer : Bool) : Prop :=
        ∃ s', (evalExpr scope e lenient).run (Deeper.within n) s = .ok (.bool answer) s'
      (∃ answer, gives (.binary a .equal b) answer ∧ gives (.binary b .equal a) answer ∧
        gives (.binary a .notEqual b) (!answer) ∧ gives (.binary b .notEqual a) (!answer) ∧
        (u = .null → (answer = true ↔ v = .null))) ∧
      gives (.binary a .equal a) true ∧ gives (.binary a .notEqual a) false) ∧
    ∃ a b c : Expr, ∀ (scope : Scope) (n : Nat) (s : Store) (lenient : Bool),
      (s.root scope.root).host = .standard →
      (evalExpr scope (.binary a .equal b) lenient).run (Deeper.within n) s = .ok (.bool true) s ∧
      (evalExpr scope (.binary b .equal c) lenient).run (Deeper.within n) s = .ok (.bool true) s ∧
      (evalExpr scope (.binary a .equal c) lenient).run (Deeper.within n) s = .ok (.bool false) s := by
  refine ⟨?_, ?_⟩
  · intro scope n s quiet x y u v left right p q quiet₁ quiet₂ lenient hrest hx hy hu hv hleft hright a b gives
    obtain ⟨s₁, hequal, hnot⟩ := run_binary_equal hrest hu hv hleft hright hx hy p q quiet₁ quiet₂ lenient
    obtain ⟨s₂, hequal', hnot'⟩ := run_binary_equal hrest hv hu hright hleft hy hx q p quiet₂ quiet₁ lenient
    obtain ⟨s₃, hself, hnotself⟩ := run_binary_equal hrest hu hu hleft hleft hx hx p p quiet₁ quiet₁ lenient
    rw [comparison_comm hv hu] at hequal' hnot'
    rw [comparison_self hu] at hself hnotself
    refine ⟨⟨_, ⟨s₁, hequal⟩, ⟨s₂, hequal'⟩, ⟨s₁, hnot⟩, ⟨s₂, hnot'⟩, ?_⟩, ⟨s₃, hself⟩, ⟨s₃, hnotself⟩⟩
    rintro rfl
    exact comparison_null_left _ _ _ _
  · -- The lists of true and of the word have one text, which is equal to both.
    let p : Place := ⟨none, 1⟩
    let word (t : String) : Expr := .text p .double [.text p t]
    refine ⟨.list p [.literal p (.bool true)], word "[true]", .list p [word "true"], fun scope n s lenient hhost => ?_⟩
    have htext (v : Value) (t : String) (h : (textOf v : Script scope String).run (Deeper.within n) s = .ok t s) :
        (hostText p v : Script scope String).run (Deeper.within n) s = .ok t s := by
      have hask : (Script.act .host : Script scope HostKind).run (Deeper.within n) s = .ok .standard s := by
        rw [← hhost]
        rfl
      exact (Run.bind_ok hask).trans (Run.mapFailure_eq_ok.2 h)
    have htrue := htext (.tuple [.bool true]) "[true]" (by rfl)
    have hwhole := htext (.str "[true]") "[true]" (by rfl)
    have hword := htext (.tuple [.str "true"]) "[true]" (by rfl)
    have hunequal : (Value.tuple [.bool true]).equals s.lists (.tuple [.str "true"]) = false := by
      rw [equals]
      cases s.lists.size <;> simp [Value.equalsWithin, Value.equalsWith, Value.itemsEqual]
    have hdiffer : (equal p (.tuple [.bool true]) (.tuple [.str "true"]) : Script scope Bool).run (Deeper.within n) s =
        .ok false s := by
      rw [← hunequal]
      rfl
    have hbools : (evalExpr scope (.list p [.literal p (.bool true)]) false).run (Deeper.within n) s =
        .ok (.tuple [.bool true]) s := rfl
    have htext' : (evalExpr scope (word "[true]") false).run (Deeper.within n) s = .ok (.str "[true]") s := rfl
    have hwords : (evalExpr scope (.list p [word "true"]) false).run (Deeper.within n) s =
        .ok (.tuple [.str "true"]) s := rfl
    exact ⟨(run_comparison hbools htext' ((Run.bind_ok htrue).trans (Run.bind_ok hwhole)) lenient).1,
      (run_comparison htext' hwords ((Run.bind_ok hwhole).trans (Run.bind_ok hword)) lenient).1,
      (run_comparison hbools hwords hdiffer lenient).1⟩

/-- A block and a list with a set and a map in it, which has the text that the block renders to: they are equal in
both orders. -/
theorem equality_symmetric_of_block :
    let p : Place := ⟨none, 1⟩
    let text : String := "[[1, []], \x7bk=null\x7d]"
    let body : Block := ⟨0, [.text p text], ⟨[], ⟨0⟩⟩, "#define"⟩
    let s : Store := { lists := ⟨#[#[.set [.int 1, .tuple []], .map [(.str "k", .null)]]]⟩
                       roots := ⟨#[⟨[("x", .block body.ref), ("y", .list ⟨0⟩)], [], .standard, ⟨0⟩⟩]⟩
                       blocks := Std.TreeMap.empty.insert 0 body }
    let a : Expr := .reference p "x" false []
    let b : Expr := .reference p "y" false []
    ∃ s₁ s₂, (evalExpr ⟨[], ⟨0⟩⟩ (.binary a .equal b) false).run (Deeper.within 3) s = .ok (.bool true) s₁ ∧
      (evalExpr ⟨[], ⟨0⟩⟩ (.binary b .equal a) false).run (Deeper.within 3) s = .ok (.bool true) s₂ := by
  intro p text body s a b
  have hblock : s.block body.ref = body := by
    simp [s, body, Store.block, Block.ref]
  have hquiet (n : Nat) : Script.Steady (· = s) n (.block body.ref : Script default String) := by
    cases n with
    | zero => exact .of_error fun s => ⟨_, _, rfl⟩
    | succ n =>
      refine .of_eq text ?_
      rintro _ rfl
      show (Deeper.within (n + 1)).blockText (s.block body.ref) s = _
      rw [hblock]
      rfl
  have hrests : s.Rests ⟨[], ⟨0⟩⟩ (· = body.ref) :=
    ⟨(· = s), rfl, ⟨fun _ h => h ▸ .refl _, fun _ h => h ▸ .refl _, fun _ h n => h ▸ hquiet n⟩, fun _ h => by rw [h]⟩
  have hleaf {v : Value} (hv : v.isAtom = true) (hb : ∀ b, v ≠ .block b) (ho : ∀ cls r, v ≠ .object cls r)
      (hs : v.shown? s.objects = none) : v.Plain s.toCells (· = body.ref) :=
    .atom hv (fun b h => absurd h (hb b)) (fun cls r h => absurd h (ho cls r)) fun w h => by cases hs.symm.trans h
  have hset : Value.IsKey (.set [.int 1, .tuple []]) :=
    .set (by simp only [List.forall_mem_cons]; exact ⟨.atom rfl, .tuple (by simp), by simp⟩)
      (by simp [Value.sameKey, Value.equalsWith])
  have hlist : (Value.list ⟨0⟩).Plain s.toCells (· = body.ref) := by
    refine .list (by decide) fun x hx => ?_
    rw [show s.lists.get 0 = [Value.set [.int 1, .tuple []], .map [(.str "k", .null)]].toArray from rfl,
      List.mem_toArray] at hx
    revert x
    simp only [List.forall_mem_cons]
    refine ⟨.elements rfl hset ?_, .map (.set ?_ (by simp)) ?_ ?_, by simp⟩
    all_goals simp only [List.map_cons, List.forall_mem_cons]
    · exact ⟨hleaf rfl (by simp) (by simp) rfl, .tuple (by simp), by simp⟩
    · exact ⟨.atom rfl, by simp⟩
    · exact ⟨hleaf rfl (by simp) (by simp) rfl, by simp⟩
    · exact ⟨hleaf rfl (by simp) (by simp) rfl, by simp⟩
  have hblockText : s.Shows ⟨[], ⟨0⟩⟩ 3 (.block body.ref) text := by
    refine ⟨s, ?_⟩
    show (Deeper.within 3).blockText (s.block body.ref) s = _
    rw [hblock]
    rfl
  have hlistText : s.Shows ⟨[], ⟨0⟩⟩ 3 (.list ⟨0⟩) text := ⟨s, by rfl⟩
  have htrue : (evalExpr ⟨[], ⟨0⟩⟩ (.binary a .equal b) false).run (Deeper.within 3) s = .ok (.bool true) s := by rfl
  obtain ⟨⟨answer, ⟨s₁, hab⟩, ⟨s₂, hba⟩, -⟩, -⟩ := equality_symmetric.1 ⟨[], ⟨0⟩⟩ 3 s (· = body.ref) "x" "y" _ _ text
    text p p false false false hrests (.stored _) (.stored _)
    (.atom rfl (fun _ h => by cases h; rfl) (by simp) (by simp [Value.shown?])) hlist hblockText hlistText
  cases hab.symm.trans htrue
  exact ⟨_, s₂, hab, hba⟩

end Stencil
