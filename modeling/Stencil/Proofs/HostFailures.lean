import Stencil.Host.Access

/-!
# What host code fails with

A step of host code stops with an ordinary error or with an access error, never with an error of reading a
template or a resource, and keeps every invariant of the cells: `Step.Fails`. One rule for each way to put
steps together, and one lemma for each operation on host values. Where no stream fails, taking items never
does.
-/

namespace Stencil

namespace Failure

/-- Whether a failure is an evaluation error. -/
def IsEvaluation : Failure → Prop
  | evaluation _ => True
  | _ => False

/-- Whether a failure is an evaluation error or an ordinary error of host code. -/
def IsOrdinary : Failure → Prop
  | evaluation _ | fault _ => True
  | _ => False

/-- Whether a failure is one of using a host value. -/
def IsUse : Failure → Prop
  | evaluation _ | fault _ | access _ => True
  | _ => False

/-- Whether a failure is an ordinary error of host code, as it is. -/
def IsFault : Failure → Prop
  | fault _ => True
  | _ => False

/-- Whether a failure is an ordinary error or an access error of host code, as it is. -/
def IsOfHost : Failure → Prop
  | fault _ | access _ => True
  | _ => False

/-- Whether no macro is in the trace of an evaluation error. -/
def IsFresh : Failure → Prop
  | evaluation e => e.trace = []
  | _ => True

/-- Whether a failure is an error of host code or of reading a resource, as it is. -/
def IsRaw : Failure → Prop
  | fault _ | resource _ => True
  | _ => False

variable {f : Failure}

theorem IsOrdinary.isUse (h : f.IsOrdinary) : f.IsUse := by
  cases f <;> trivial

theorem IsFault.isOrdinary (h : f.IsFault) : f.IsOrdinary := by
  cases f <;> trivial

theorem IsOfHost.isUse (h : f.IsOfHost) : f.IsUse := by
  cases f <;> trivial

theorem IsOfHost.isFresh (h : f.IsOfHost) : f.IsFresh := by
  cases f <;> trivial

theorem IsFault.isOfHost (h : f.IsFault) : f.IsOfHost := by
  cases f <;> trivial

end Failure

/-- What holds of all cells still does after a change of one to which it applies. -/
theorem Heap.forall_get_set {α : Type} [Inhabited α] {P : α → Prop} {h : Heap α} (hh : ∀ i, P (h.get i))
    {i : Nat} {a : α} (ha : P a) (j : Nat) : P ((h.set i a).get j) := by
  by_cases hi : i < h.size
  · rw [get_set hi]
    split
    · exact ha
    · exact hh j
  · rw [set_of_ge h (Nat.le_of_not_lt hi)]
    exact hh j

/-- What holds of cells whatever host code does with them: it takes items from streams, changes all other
cells, and gives out numbers. -/
structure Cells.Invariant where
  Holds : Cells → Prop
  other : ∀ {c c' : Cells}, Holds c → c'.streams = c.streams → c.nextId ≤ c'.nextId → Holds c'
  stream : ∀ {c : Cells}, Holds c → ∀ (i : Nat) (t : Stream),
    t.failure = none ∨ t.failure = (c.streams.get i).failure → Holds { c with streams := c.streams.set i t }

/-- Whether a step of host code that begins where an invariant holds stops with failures of a kind only, and
leaves cells where it holds. -/
def Step.Fails {α : Type} (Q : Cells.Invariant) (F : Failure → Prop) (x : Step α) : Prop :=
  ∀ c : Cells, Q.Holds c → match x c with
    | .ok _ c' => Q.Holds c'
    | .error (.failure f) c' => Q.Holds c' ∧ F f
    | .error .exhausted c' => Q.Holds c'

/-- A step that looks at the cells first goes on from the same cells. -/
theorem Step.get_bind {α : Type} (f : Cells → Step α) (c : Cells) : (get >>= f) c = f c c := rfl

namespace Step.Fails

variable {α β : Type} {Q : Cells.Invariant} {F G : Failure → Prop}

theorem mono {x : Step α} (h : x.Fails Q F) (hFG : ∀ f, F f → G f) : x.Fails Q G := by
  intro c hc
  have hx := h c hc
  split at hx
  · exact hx
  · exact ⟨hx.1, hFG _ hx.2⟩
  · exact hx

theorem pure (a : α) : Step.Fails Q F (Pure.pure a) := fun _ hc => hc

theorem fail {f : Failure} (h : F f) : Step.Fails Q F (Step.fail f : Step α) := fun _ hc => ⟨hc, h⟩

theorem exhausted : Step.Fails Q F (Step.exhausted : Step α) := fun _ hc => hc

theorem fault (kind : FaultKind) (text : String) :
    Step.Fails Q Failure.IsFault (Step.fault kind text : Step α) := .fail trivial

theorem bind {x : Step β} {f : β → Step α} (hx : x.Fails Q F) (hf : ∀ b, (f b).Fails Q F) :
    Step.Fails Q F (x >>= f) := by
  intro c hc
  have h := hx c hc
  show match EStateM.bind x f c with
    | .ok _ c' => Q.Holds c'
    | .error (.failure f) c' => Q.Holds c' ∧ F f
    | .error .exhausted c' => Q.Holds c'
  rw [EStateM.bind]
  cases hxc : x c with
  | ok b c' =>
    rw [hxc] at h
    exact hf b c' h
  | error e c' =>
    rw [hxc] at h
    cases e <;> exact h

/-- A step that only looks at the cells never fails. -/
theorem reads (f : Cells → α) : Step.Fails Q F (do return f (← get) : Step α) := fun _ hc => hc

/-- A step that changes other cells than streams never fails. -/
theorem modifyGet {f : Cells → α × Cells}
    (h : ∀ c, (f c).2.streams = c.streams ∧ c.nextId ≤ (f c).2.nextId) :
    Step.Fails Q F (modifyGet f : Step α) :=
  fun c hc => Q.other hc (h c).1 (h c).2

theorem modify {f : Cells → Cells}
    (h : ∀ c, (f c).streams = c.streams ∧ c.nextId ≤ (f c).nextId) : Step.Fails Q F (modify f : Step PUnit) :=
  modifyGet h

end Step.Fails

open Step (Fails)

variable {Q : Cells.Invariant} {F : Failure → Prop}

/-! ### Cells -/

namespace Run

open Failure (IsFault)

theorem fails_newList (items : Array Value) : Fails Q F (newList items) :=
  .modifyGet fun _ => ⟨rfl, Nat.le_refl _⟩

theorem fails_listItems (r : ListRef) : Fails Q F (listItems r) := .reads _

theorem fails_changeList (r : ListRef) (change : Array Value → Array Value) : Fails Q F (changeList r change) :=
  .modify fun _ => ⟨rfl, Nat.le_refl _⟩

theorem fails_newObject (cls : HostClass) (state : ObjectState) : Fails Q F (newObject cls state) :=
  .modifyGet fun _ => ⟨rfl, Nat.le_refl _⟩

theorem fails_objectState (r : ObjectRef) : Fails Q F (objectState r) := .reads _

theorem fails_setObject (r : ObjectRef) (state : ObjectState) : Fails Q F (setObject r state) :=
  .modify fun _ => ⟨rfl, Nat.le_refl _⟩

theorem fails_allLists : Fails Q F allLists := .reads _

theorem fails_objectCount : Fails Q F objectCount := .reads _

theorem fails_loopState (r : LoopRef) : Fails Q F (loopState r) := .reads _

theorem fails_setLoop (r : LoopRef) (l : LoopState) : Fails Q F (setLoop r l) :=
  .modify fun _ => ⟨rfl, Nat.le_refl _⟩

theorem fails_newLoop (source : Source) : Fails Q F (newLoop source) :=
  .modifyGet fun _ => ⟨rfl, Nat.le_refl _⟩

theorem fails_freshId : Fails Q F freshId := .modifyGet fun _ => ⟨rfl, Nat.le_succ _⟩

/-! ### Taking items -/

theorem streamNext_of_items {r : StreamRef} {c : Cells} {v : Value} {vs : List Value}
    (h : (c.streams.get r.index).items = v :: vs) :
    streamNext r c = .ok (some v)
      { c with streams := c.streams.set r.index { c.streams.get r.index with items := vs } } := by
  rw [streamNext, Step.get_bind, h]
  rfl

/-- A stream without items comes to its end, or fails once. -/
theorem streamNext_of_empty {r : StreamRef} {c : Cells} (h : (c.streams.get r.index).items = []) :
    streamNext r c = (match (c.streams.get r.index).failure with
      | some text => Step.fault .badValue text
      | none => return none : Step (Option Value)) { c with streams := c.streams.set r.index ⟨[], none⟩ } := by
  rw [streamNext, Step.get_bind, h]
  rfl

theorem fails_streamNext (h : ∀ e, F (.fault e)) (r : StreamRef) : Fails Q F (streamNext r) := by
  intro c hc
  cases hitems : (c.streams.get r.index).items with
  | cons v vs =>
    rw [streamNext_of_items hitems]
    exact Q.stream hc _ _ (.inr rfl)
  | nil =>
    rw [streamNext_of_empty hitems]
    cases (c.streams.get r.index).failure with
    | none => exact Q.stream hc _ _ (.inl rfl)
    | some text => exact ⟨Q.stream hc _ _ (.inl rfl), h _⟩

theorem fails_sourceNext {next : LoopRef → Step (Option Value)} (hstream : ∀ r, Fails Q F (streamNext r))
    (h : ∀ r, Fails Q F (next r)) (source : Source) : Fails Q F (sourceNext next source) := by
  unfold sourceNext
  split
  case h_5 r position =>
    refine .bind (fails_listItems r) fun items => ?_
    split <;> exact .pure _
  case h_6 r => exact .bind (hstream r) fun _ => .pure _
  case h_7 r => exact .bind (h r) fun _ => .pure _
  all_goals exact .pure _

theorem fails_lookAheadWith {next : LoopRef → Step (Option Value)} (hstream : ∀ r, Fails Q F (streamNext r))
    (h : ∀ r, Fails Q F (next r)) (r : LoopRef) : Fails Q F (lookAheadWith next r) := by
  refine .bind (fails_loopState r) fun l => ?_
  split
  · exact .pure _
  · exact .bind (fails_sourceNext hstream h _) fun _ => .bind (fails_loopState r) fun _ =>
      .bind (fails_setLoop r _) fun _ => .pure _

theorem fails_loopNextWithin (hstream : ∀ r, Fails Q F (streamNext r)) (n : Nat) (r : LoopRef) :
    Fails Q F (loopNextWithin n r) := by
  induction n generalizing r with
  | zero => exact .pure _
  | succ n ih =>
    refine .bind (fails_lookAheadWith hstream ih r) fun more => ?_
    split
    · exact .bind (fails_loopState r) fun _ => .bind (fails_setLoop r _) fun _ => .pure _
    · exact .pure _

/-- Taking an item from a loop fails as taking items from streams does. -/
theorem fails_loopNext (hstream : ∀ r, Fails Q F (streamNext r)) (r : LoopRef) : Fails Q F (loopNext r) :=
  fails_loopNextWithin hstream _ r

theorem fails_lookAhead (r : LoopRef) : Fails Q IsFault (lookAhead r) :=
  have hstream := fails_streamNext (Q := Q) fun _ => trivial
  fails_lookAheadWith hstream (fails_loopNextWithin hstream _) r

theorem fails_collect (taken : Array Value) (n : Nat) (source : Source) :
    Fails Q IsFault (collect taken n source) := by
  have hstream := fails_streamNext (Q := Q) (F := IsFault) fun _ => trivial
  induction n generalizing taken source with
  | zero => exact .exhausted
  | succ n ih =>
    refine .bind (fails_sourceNext hstream (fails_loopNext hstream) source) fun next => ?_
    split
    · exact ih _ _
    · exact .pure _

theorem fails_forSource {use : Value → Step Unit} (h : ∀ v, Fails Q IsFault (use v)) (n : Nat)
    (source : Source) : Fails Q IsFault (forSource use n source) := by
  have hstream := fails_streamNext (Q := Q) (F := IsFault) fun _ => trivial
  induction n generalizing source with
  | zero => exact .exhausted
  | succ n ih =>
    refine .bind (fails_sourceNext hstream (fails_loopNext hstream) source) fun next => ?_
    split
    · exact .bind (h _) fun _ => ih _
    · exact .pure _

end Run

/-! ### Built-in values -/

namespace Builtin

open Failure (IsFault)

theorem fails_index (v : Value) : Fails Q IsFault (index v) := by
  unfold index
  split
  · exact .pure _
  · exact .pure _
  · exact .fault _ _

theorem fails_smallIndex (v : Value) : Fails Q IsFault (smallIndex v) := by
  refine .bind (fails_index v) fun n => ?_
  split
  · exact .pure _
  · exact .fault _ _

theorem fails_limit (v : Value) : Fails Q IsFault (limit v) :=
  .bind (fails_smallIndex v) fun _ => .pure _

theorem fails_textArgument (method : String) (position : Nat) (v : Value) :
    Fails Q IsFault (textArgument method position v) := by
  unfold textArgument
  split
  · exact .pure _
  · exact .fault _ _

theorem fails_joinTexts (sep : String) (items : List Value) : Fails Q IsFault (joinTexts sep items) := by
  unfold joinTexts
  split
  · exact .fault _ _
  · exact .pure _

theorem fails_slicePosition (size fallback : Nat) (v : Value) :
    Fails Q IsFault (slicePosition size fallback v) := by
  unfold slicePosition
  split
  · exact .pure _
  · exact .bind (fails_index _) fun _ => .pure _
  · exact .bind (fails_index _) fun _ => .pure _
  · exact .fault _ _

theorem fails_affixTest (name : String) (test : String → String → Bool) (s : String) (args : List Value) :
    Fails Q IsFault (affixTest name test s args) := by
  have hparts : ∀ (fits : String → Bool) (ps : List Value), Fails Q IsFault (affixTest.go name fits ps) := by
    intro fits ps
    fun_induction affixTest.go name fits ps with
    | case1 => exact .pure _
    | case2 => exact .pure _
    | case3 _ _ _ ih => exact ih
    | case4 => exact .fault _ _
  unfold affixTest
  split
  · exact .fault _ _
  · dsimp only
    split
    · exact .fault _ _
    · refine .bind (fails_slicePosition _ _ _) fun start => .bind (fails_slicePosition _ _ _) fun stop => ?_
      split
      · exact .pure _
      · exact hparts _ _
      · exact .fault _ _

theorem fails_callText (fuel : Nat) (s name : String) (args : List Value) :
    Fails Q IsFault (callText fuel s name args) := by
  unfold callText
  split
  case h_8 =>
    exact .bind (fails_textArgument _ _ _) fun _ => .bind (fails_textArgument _ _ _) fun _ =>
      .bind (fails_limit _) fun _ => .pure _
  case h_9 =>
    split
    · exact .bind (fails_limit _) fun _ => .bind (.pure _) fun _ => Run.fails_newList _
    · exact .bind (fails_limit _) fun _ => .bind (.fault _ _) fun _ => Run.fails_newList _
    · exact .bind (fails_limit _) fun _ => .bind (.pure _) fun _ => Run.fails_newList _
    · exact .bind (fails_limit _) fun _ => .bind (.fault _ _) fun _ => Run.fails_newList _
  case h_10 =>
    split
    · exact .fault _ _
    · exact .bind (Run.fails_collect _ _ _) fun _ => .bind (fails_joinTexts _ _) fun _ => .pure _
  case h_11 => exact fails_affixTest _ _ _ _
  case h_12 => exact fails_affixTest _ _ _ _
  all_goals first
    | exact .pure _
    | exact .fault _ _

theorem fails_callList (fuel : Nat) (r : ListRef) (name : String) (args : List Value) :
    Fails Q IsFault (callList fuel r name args) := by
  have hchange : ∀ change, Fails Q IsFault (do Run.changeList r change; return Value.null) := fun change =>
    .bind (Run.fails_changeList r change) fun _ => .pure _
  unfold callList
  split
  case h_1 => exact hchange _
  case h_2 =>
    have hpop : ∀ n : Int, Fails Q IsFault (do
        let items ← Run.listItems r
        Run.changeList r fun items => items.eraseIdxIfInBounds n.toNat
        return items.getD n.toNat .null) := fun n =>
      .bind (Run.fails_listItems r) fun _ => .bind (Run.fails_changeList r _) fun _ => .pure _
    refine .bind (fails_smallIndex _) fun n => .bind (Run.fails_listItems r) fun items => ?_
    dsimp only
    repeat' split
    all_goals first
      | exact .fault _ _
      | exact hpop _
  case h_3 => exact .bind Run.fails_allLists fun _ => .bind (Run.fails_listItems r) fun _ => .pure _
  case h_4 => exact .bind (Run.fails_listItems r) fun _ => Run.fails_newList _
  case h_5 other => exact .bind (Run.fails_listItems other) fun _ => hchange _
  case h_6 =>
    split
    · exact .fault _ _
    · exact .bind (Run.fails_forSource (fun v => Run.fails_changeList r _) _ _) fun _ => .pure _
  case h_7 => exact hchange _
  case h_8 => exact hchange _
  case h_9 => exact .pure _

theorem fails_lookup (entries : List (Value × Value)) (key fallback : Value) :
    Fails Q IsFault (lookup entries key fallback) := by
  unfold lookup
  split
  · exact .fault _ _
  · exact .pure _

theorem fails_attribute (v : Value) (name : String) : Fails Q IsFault (attribute? v name) := by
  unfold attribute?
  split
  all_goals first
    | exact .pure _
    | exact .bind (Run.fails_loopState _) fun _ => .pure _
    | exact .bind (Run.fails_lookAhead _) fun _ => .pure _

theorem fails_call (fuel : Nat) (v : Value) (name : String) (args : List Value) :
    Fails Q IsFault (call fuel v name args) := by
  unfold call
  split
  · exact fails_callText _ _ _ _
  · exact fails_callList _ _ _ _
  · exact .bind Run.fails_allLists fun _ => .pure _
  · exact fails_lookup _ _ _
  · exact .pure _
  · exact .fault _ _
  · exact .pure _
  · exact .pure _
  · exact .pure _

end Builtin

/-! ### Objects -/

namespace Object

open Failure (IsFault)

theorem fails_isFull (v : Value) : Fails Q F (isFull v) := by
  unfold isFull
  split
  case h_12 => exact .bind (Run.fails_listItems _) fun _ => .pure _
  all_goals exact .pure _

theorem fails_makePerson (name tags : Value) : Fails Q F (makePerson name tags) := by
  refine .bind (fails_isFull tags) fun full => ?_
  split
  · exact .bind (.pure _) fun _ => Run.fails_newObject _ _
  · exact .bind (Run.fails_newList _) fun _ => Run.fails_newObject _ _

theorem fails_make (cls : HostClass) (args : List Value) : Fails Q F (make cls args) := by
  unfold make
  split
  · exact fails_makePerson _ _
  · exact Run.fails_newObject _ _
  · exact Run.fails_newObject _ _
  · exact Run.fails_newObject _ _

theorem fails_noItems (v : Value) : Fails Q IsFault (noItems v) := by
  unfold noItems
  split <;> exact .fault _ _

theorem fails_firstItems (n : Nat) (v : Value) : Fails Q IsFault (firstItems n v) := by
  unfold firstItems
  split
  case h_5 => exact .bind (Run.fails_listItems _) fun _ => Run.fails_newList _
  case h_6 => exact .fault _ _
  case h_7 => exact fails_noItems _
  all_goals exact .pure _

theorem fails_getter (ref : ObjectRef) (name : String) : Fails Q IsFault (getter ref name) := by
  refine .bind (Run.fails_objectState ref) fun state => ?_
  split
  · exact .bind (fails_firstItems _ _) fun _ => .pure _
  · exact .fault _ _
  · exact .pure _

theorem fails_attribute (cls : HostClass) (ref : ObjectRef) (name : String) :
    Fails Q IsFault (attribute? cls ref name) := by
  unfold attribute?
  split
  · exact fails_getter _ _
  · refine .bind (Run.fails_objectState ref) fun state => ?_
    split <;> exact .pure _

theorem fails_attributeOf (self : Value) (name : String) : Fails Q IsFault (attributeOf self name) := by
  unfold attributeOf
  split
  · refine .bind (fails_attribute _ _ _) fun found => ?_
    split
    · exact .pure _
    · exact .fault _ _
  · exact .fault _ _
  · exact .fault _ _

end Object

/-! ### Members and items -/

open Failure (IsFault IsOfHost)

theorem Member.fails_find (v : Value) (name : String) : Fails Q IsFault (find v name) := by
  unfold find
  split
  · split
    · exact .pure _
    · split
      · exact .pure _
      · refine .bind (Object.fails_attribute _ _ _) fun found => ?_
        split <;> exact .pure _
  · repeat' split
    all_goals exact .pure _
  · split
    · exact .pure _
    · refine .bind (Builtin.fails_attribute _ _) fun found => ?_
      split <;> exact .pure _

namespace Host

theorem fails_candidates (v : Value) (found : List (String × Member)) (names : List String) :
    Fails Q IsFault (candidates v found names) := by
  induction names generalizing found with
  | nil => exact .pure _
  | cons name names ih =>
    unfold candidates
    split
    · exact ih found
    · refine .bind (Member.fails_find v name) fun m => .bind Run.fails_allLists fun lists => ?_
      dsimp only
      repeat' split
      all_goals exact ih _

theorem fails_itemAt (size : Nat) (item : Nat → Value) (n : Int) : Fails Q IsOfHost (itemAt size item n) := by
  unfold itemAt
  repeat' split
  all_goals first
    | exact .pure _
    | exact .fail trivial

end Host

/-! ### Invariants -/

namespace Cells

/-- Whether no stream ends with a failure. -/
def Calm (c : Cells) : Prop :=
  ∀ i, (c.streams.get i).failure = none

namespace Invariant

/-- What holds of all cells. -/
def any : Invariant := ⟨fun _ => True, fun _ _ _ => trivial, fun _ _ _ _ => trivial⟩

/-- No stream ends with a failure. -/
def calm : Invariant where
  Holds := Calm
  other := fun hc hstreams _ i => by
    rw [hstreams]
    exact hc i
  stream := fun hc i t ht => Heap.forall_get_set (P := fun t : Stream => t.failure = none) hc
    (ht.elim id fun ht => ht.trans (hc i))

end Invariant

/-- Taking an item from a stream that does not end with a failure never fails. -/
theorem Calm.fails_streamNext (r : StreamRef) : Fails Invariant.calm F (Run.streamNext r) := by
  intro c hc
  cases hitems : (c.streams.get r.index).items with
  | cons v vs =>
    rw [Run.streamNext_of_items hitems]
    exact Invariant.calm.stream hc _ _ (.inr rfl)
  | nil =>
    rw [Run.streamNext_of_empty hitems, hc r.index]
    exact Invariant.calm.stream hc _ _ (.inl rfl)

end Cells

end Stencil
