import Stencil.Proofs.Binding

/-!
# What assignments change

An assignment hides the parameters of its name on the way to the variables of the evaluation, and
remembers in each call what takes that back. Here both directions are split into steps that change one
call or one parameter that is hidden, and each step gets the laws of what can be read after it.
-/

namespace Stencil

theorem CallRef.index_inj {c d : CallRef} : c.index = d.index ↔ c = d := by
  cases c
  cases d
  simp

theorem RootRef.index_inj {r q : RootRef} : r.index = q.index ↔ r = q := by
  cases r
  cases q
  simp

theorem LoaderRef.index_inj {r q : LoaderRef} : r.index = q.index ↔ r = q := by
  cases r
  cases q
  simp

namespace Store

variable {s : Store} {c d : CallRef} {r q : RootRef} {x y : String}

/-- The argument that a parameter of a call stands for, unless it is hidden. -/
def arg (s : Store) (x : String) (c : CallRef) : Option Thunk :=
  (s.call c).params.get? x

/-- The value of a variable of an evaluation. -/
def var (s : Store) (x : String) (r : RootRef) : Option Value :=
  (s.root r).vars.get? x

/-! ### Stores that share a part -/

theorem root_of_eq {s' : Store} (h : s'.roots = s.roots) (r : RootRef) : s'.root r = s.root r := by
  rw [root, h]
  rfl

theorem call_of_eq {s' : Store} (h : s'.calls = s.calls) (c : CallRef) : s'.call c = s.call c := by
  rw [call, h]
  rfl

theorem shadow_of_eq {s' : Store} (h : s'.shadows = s.shadows) (k : Nat) :
    s'.shadow k = s.shadow k := by
  rw [shadow, h]
  rfl

/-! ### Steps that change one call -/

theorem setCall_setCall (f g : CallFrame) : (s.setCall c f).setCall c g = s.setCall c g := by
  simp only [setCall, Heap.set_set]

theorem setCall_comm (hcd : c ≠ d) (f g : CallFrame) :
    (s.setCall c f).setCall d g = (s.setCall d g).setCall c f := by
  simp only [setCall, Heap.set_comm _ (mt CallRef.index_inj.1 hcd)]

theorem setCall_of_ge (hc : s.calls.size ≤ c.index) (f : CallFrame) : s.setCall c f = s := by
  rw [setCall, Heap.set_of_ge _ hc]

theorem call_setCall_of_ne (hd : d ≠ c) (f : CallFrame) : (s.setCall c f).call d = s.call d :=
  Heap.get_set_of_ne _ (mt CallRef.index_inj.1 hd) f

theorem call_setCall (hc : c.index < s.calls.size) (f : CallFrame) (d : CallRef) :
    (s.setCall c f).call d = if d = c then f else s.call d := by
  simp only [call, setCall, Heap.get_set hc, CallRef.index_inj]

/-- Changing a call otherwise leaves its block alone. -/
theorem block_setCall {f : CallFrame} (hf : f.block = (s.call c).block) (d : CallRef) :
    ((s.setCall c f).call d).block = (s.call d).block := by
  rcases Nat.lt_or_ge c.index s.calls.size with hc | hc
  · rw [call_setCall hc]
    by_cases hd : d = c <;> simp [hd, hf]
  · rw [setCall, Heap.set_of_ge _ hc]

theorem root_setRoot (hr : r.index < s.roots.size) (f : RootFrame) (q : RootRef) :
    (s.setRoot r f).root q = if q = r then f else s.root q := by
  simp only [root, setRoot, Heap.get_set hr, RootRef.index_inj]

theorem lt_of_arg_eq_some {t : Thunk} (h : s.arg x c = some t) : c.index < s.calls.size := by
  rcases Nat.lt_or_ge c.index s.calls.size with hc | hc
  · exact hc
  · have hd : s.call c = default := by
      simp [call, Heap.get, Array.getElem?_eq_none hc]
    rw [arg, hd] at h
    cases h

/-! ### The steps -/

/-- Hides a parameter of a call. -/
def hide (s : Store) (c : CallRef) (x : String) : Store :=
  s.setCall c { s.call c with params := (s.call c).params.remove x }

/-- Remembers a parameter that was hidden, in its call. -/
def remember (s : Store) (p : Shadow) (inner : Undo) : Store :=
  { s with shadows := s.shadows.alloc p }.setCall p.call
    { s.call p.call with hidden := .unhide s.shadows.size inner :: (s.call p.call).hidden }

/-- Marks a parameter that was hidden as taken back. -/
def finish (s : Store) (h : Nat) : Store :=
  { s with shadows := s.shadows.set h { s.shadow h with done := true } }

/-- Gives a parameter that was hidden its argument again. -/
def giveBack (s : Store) (p : Shadow) : Store :=
  s.setCall p.call { s.call p.call with params := (s.call p.call).params.put p.param p.thunk }

theorem assignIn_nil (root : RootRef) (x : String) (v : Value) (s : Store) :
    assignIn root x v [] s = s.assignRoot root x v := rfl

theorem assignIn_cons_of_none {cs : List CallRef} {root : RootRef} {v : Value}
    (h : s.arg x c = none) : assignIn root x v (c :: cs) s = assignIn root x v cs s := by
  simp only [assignIn, show (s.call c).params.get? x = none from h]

theorem assignIn_cons_of_some {cs : List CallRef} {root : RootRef} {v : Value} {t : Thunk}
    (h : s.arg x c = some t) :
    assignIn root x v (c :: cs) s =
      (.unhide (assignIn root x v cs (s.hide c x)).2.shadows.size
          (assignIn root x v cs (s.hide c x)).1,
        (assignIn root x v cs (s.hide c x)).2.remember ⟨c, x, t, false⟩
          (assignIn root x v cs (s.hide c x)).1) := by
  simp only [assignIn, show (s.call c).params.get? x = some t from h]
  rfl

theorem undo_unhide (h : Nat) (inner : Undo) (s : Store) :
    undo (.unhide h inner) s =
      if (s.shadow h).done then s else (undo inner (s.finish h)).giveBack (s.shadow h) := by
  rw [undo]
  rfl

/-! ### What can be read after a step -/

section

variable {p : Shadow} {inner : Undo} {h k : Nat} {v : Value}

theorem arg_hide (hc : c.index < s.calls.size) (y : String) (d : CallRef) :
    (s.hide c x).arg y d = if d = c ∧ y = x then none else s.arg y d := by
  rw [arg, hide, call_setCall hc]
  by_cases hd : d = c
  · subst hd
    simp only [if_true, Bindings.get?_remove, true_and]
    rfl
  · simp [hd, arg]

theorem hidden_hide (hc : c.index < s.calls.size) (d : CallRef) :
    ((s.hide c x).call d).hidden = (s.call d).hidden := by
  rw [hide, call_setCall hc]
  by_cases hd : d = c <;> simp [hd]

theorem block_hide (d : CallRef) : ((s.hide c x).call d).block = (s.call d).block :=
  block_setCall (by rfl) d

@[simp] theorem size_calls_hide : (s.hide c x).calls.size = s.calls.size := by
  simp [hide, setCall]

theorem call_remember (hp : p.call.index < s.calls.size) (d : CallRef) :
    (s.remember p inner).call d =
      if d = p.call then
        { s.call p.call with hidden := .unhide s.shadows.size inner :: (s.call p.call).hidden }
      else s.call d :=
  call_setCall (s := { s with shadows := s.shadows.alloc p }) hp _ d

theorem arg_remember (hp : p.call.index < s.calls.size) (y : String) (d : CallRef) :
    (s.remember p inner).arg y d = s.arg y d := by
  rw [arg, call_remember hp]
  by_cases hd : d = p.call <;> simp [hd, arg]

theorem hidden_remember (hp : p.call.index < s.calls.size) (d : CallRef) :
    ((s.remember p inner).call d).hidden =
      if d = p.call then .unhide s.shadows.size inner :: (s.call d).hidden
      else (s.call d).hidden := by
  rw [call_remember hp]
  by_cases hd : d = p.call <;> simp [hd]

theorem block_remember (d : CallRef) :
    ((s.remember p inner).call d).block = (s.call d).block :=
  block_setCall (s := { s with shadows := s.shadows.alloc p }) (by rfl) d

theorem shadow_remember : (s.remember p inner).shadow k =
    if k = s.shadows.size then p else s.shadow k :=
  Heap.get_alloc ..

theorem shadow_remember_self : (s.remember p inner).shadow s.shadows.size = p := by
  rw [shadow_remember, if_pos rfl]

theorem shadow_remember_of_lt (hk : k < s.shadows.size) :
    (s.remember p inner).shadow k = s.shadow k := by
  rw [shadow_remember, if_neg (Nat.ne_of_lt hk)]

@[simp] theorem size_calls_remember : (s.remember p inner).calls.size = s.calls.size := by
  simp [remember, setCall]

@[simp] theorem size_shadows_remember :
    (s.remember p inner).shadows.size = s.shadows.size + 1 := by
  simp [remember, setCall]

theorem shadow_finish (hh : h < s.shadows.size) (k : Nat) :
    (s.finish h).shadow k = if k = h then { s.shadow h with done := true } else s.shadow k :=
  Heap.get_set hh _ _

@[simp] theorem size_shadows_finish : (s.finish h).shadows.size = s.shadows.size := by
  simp [finish]

theorem arg_giveBack (hp : p.call.index < s.calls.size) (y : String) (d : CallRef) :
    (s.giveBack p).arg y d = if d = p.call ∧ y = p.param then some p.thunk else s.arg y d := by
  rw [arg, giveBack, call_setCall hp]
  by_cases hd : d = p.call
  · subst hd
    simp only [if_true, Bindings.get?_put, true_and]
    rfl
  · simp [hd, arg]

theorem hidden_giveBack (hp : p.call.index < s.calls.size) (d : CallRef) :
    ((s.giveBack p).call d).hidden = (s.call d).hidden := by
  rw [giveBack, call_setCall hp]
  by_cases hd : d = p.call <;> simp [hd]

theorem block_giveBack (d : CallRef) :
    ((s.giveBack p).call d).block = (s.call d).block :=
  block_setCall (by rfl) d

@[simp] theorem size_calls_giveBack : (s.giveBack p).calls.size = s.calls.size := by
  simp [giveBack, setCall]

theorem var_setRoot_put (hr : r.index < s.roots.size) (y : String) (q : RootRef) :
    (s.setRoot r { s.root r with vars := (s.root r).vars.put x v }).var y q =
      if q = r ∧ y = x then some v else s.var y q := by
  rw [var, root_setRoot hr]
  by_cases hq : q = r
  · subst hq
    simp only [if_true, Bindings.get?_put, true_and]
    rfl
  · simp [hq, var]

theorem var_setRoot_remove (hr : r.index < s.roots.size) (y : String) (q : RootRef) :
    (s.setRoot r { s.root r with vars := (s.root r).vars.remove x }).var y q =
      if q = r ∧ y = x then none else s.var y q := by
  rw [var, root_setRoot hr]
  by_cases hq : q = r
  · subst hq
    simp only [if_true, Bindings.get?_remove, true_and]
    rfl
  · simp [hq, var]

end

end Store

end Stencil
