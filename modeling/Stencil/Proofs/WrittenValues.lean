import Mathlib.Data.List.Perm.Subperm
import Stencil.Evaluate.Render
import Stencil.Proofs.EqualValues
import Stencil.Proofs.Script

/-!
# Values in the notation of the host

How a value without floats is written depends on the cells that it leads to and on no others: new cells change
nothing, although they allow to follow lists and objects further. Lists are written from outside in, and a list that
is around is not followed again (`Plain.written_eq`); an object shows a row of others, of which no two are the same
(`Plain.run_formattedWithin`).
-/

namespace Stencil

/-- Whether the cells of a heap are those of another one too. -/
structure Heap.Keeps {α : Type} [Inhabited α] (h h' : Heap α) : Prop where
  size : h.size ≤ h'.size
  get : ∀ i < h.size, h'.get i = h.get i

theorem Heap.Keeps.refl {α : Type} [Inhabited α] (h : Heap α) : h.Keeps h :=
  ⟨Nat.le_refl _, fun _ _ => rfl⟩

/-- As many different numbers as there are below a bound are all of them. -/
theorem mem_of_nodup_of_le_length {is : List Nat} {n i : Nat} (hnodup : is.Nodup) (hbound : ∀ j ∈ is, j < n)
    (hlength : n ≤ is.length) (hi : i < n) : i ∈ is := by
  have hsub : is ⊆ List.range n := fun j hj => List.mem_range.2 (hbound j hj)
  have hperm := (hnodup.subperm hsub).perm_of_length_le (by rwa [List.length_range])
  exact hperm.mem_iff.2 (List.mem_range.2 hi)

theorem length_le_of_nodup {is : List Nat} {n : Nat} (hnodup : is.Nodup) (hbound : ∀ j ∈ is, j < n) :
    is.length ≤ n := by
  have hsub : is ⊆ List.range n := fun j hj => List.mem_range.2 (hbound j hj)
  simpa using (hnodup.subperm hsub).length_le

namespace Value

variable {c : Cells} {quiet : BlockRef → Prop} {v w : Value} {lists lists' : Heap (Array Value)}

/-! ### Lists -/

theorem writtenItems_congr {f g : ListRef → String} {xs : List Value}
    (h : ∀ x ∈ xs, x.writtenWith f = x.writtenWith g) : writtenItems f xs = writtenItems g xs := by
  induction xs with
  | nil => rfl
  | cons x xs ih =>
    rw [List.forall_mem_cons] at h
    rw [writtenItems, writtenItems, h.1, ih h.2]

theorem writtenEntries_congr {f g : ListRef → String} {es : List (Value × Value)}
    (hk : ∀ e ∈ es, e.1.writtenWith f = e.1.writtenWith g) (hv : ∀ e ∈ es, e.2.writtenWith f = e.2.writtenWith g) :
    writtenEntries f es = writtenEntries g es := by
  induction es with
  | nil => rfl
  | cons e es ih =>
    rw [List.forall_mem_cons] at hk hv
    rw [writtenEntries, writtenEntries, hk.1, hv.1, ih hk.2 hv.2]

/-- Two notations of lists that agree on the lists of a value write it in the same way. -/
theorem Plain.writtenWith_congr {f g : ListRef → String} (hv : v.Plain c quiet)
    (hfg : ∀ r, (Value.list r).Plain c quiet → f r = g r) : v.writtenWith f = v.writtenWith g := by
  induction hv with
  | @atom v hatom =>
    cases v <;> first | (cases hatom; done) | simp only [writtenWith]
  | @tuple xs _ ih =>
    rcases xs with _ | ⟨x, _ | ⟨y, xs⟩⟩
    · simp only [writtenWith, writtenItems]
    · simp only [writtenWith, ih x List.mem_cons_self]
    · simp only [writtenWith, writtenItems_congr ih]
  | list hr hitems =>
    simp only [writtenWith]
    exact hfg _ (.list hr hitems)
  | @elements v xs hxs _ _ ih =>
    cases v with
    | set | keys =>
      cases hxs
      cases xs <;> simp only [writtenWith, writtenItems_congr ih]
    | _ => cases hxs
  | map _ _ _ ihk ihv => simp only [writtenWith, writtenEntries_congr ihk ihv]

/-- How a list is written inside others, with so many levels of lists. -/
def writtenList (lists : Heap (Array Value)) (n : Nat) (around : List ListRef) (r : ListRef) : String :=
  match n with
  | 0 => listAgain
  | n + 1 =>
    if around.contains r then listAgain
    else "[" ++ ", ".intercalate ((lists.get r.index).toList.map (writtenWithin lists n (r :: around))) ++ "]"

theorem writtenWithin_eq (n : Nat) (around : List ListRef) :
    writtenWithin lists n around v = v.writtenWith (writtenList lists n around) := by
  cases n <;> rfl

theorem writtenList_of_mem {n : Nat} {around : List ListRef} {r : ListRef} (hr : r ∈ around) :
    writtenList lists n around r = listAgain := by
  cases n with
  | zero => rfl
  | succ n => rw [writtenList, if_pos (List.contains_iff_mem.2 hr)]

/-- A list that is not around leaves a level for itself. -/
theorem level_of_not_mem {size n : Nat} {around : List ListRef} {r : ListRef}
    (hnodup : (around.map ListRef.index).Nodup) (hbound : ∀ r ∈ around, r.index < size)
    (hn : size ≤ n + around.length) (hr : r.index < size) (hmem : r ∉ around) : ∃ k, n = k + 1 := by
  cases n with
  | succ k => exact ⟨k, rfl⟩
  | zero =>
    have hindex := mem_of_nodup_of_le_length hnodup (by simpa using hbound) (by simpa using hn) hr
    obtain ⟨r', hr', hsame⟩ := List.mem_map.1 hindex
    cases r'
    cases hsame
    exact absurd hr' hmem

/-- Lists around which there are different ones are written in the same way, if the levels that are left are enough
for the others. -/
theorem Plain.writtenList_eq (hlists : c.lists.Keeps lists) (hlists' : c.lists.Keeps lists') {n m : Nat}
    {around : List ListRef} (hnodup : (around.map ListRef.index).Nodup)
    (hbound : ∀ r ∈ around, r.index < c.lists.size) (hn : c.lists.size ≤ n + around.length)
    (hm : c.lists.size ≤ m + around.length) {r : ListRef} (hr : (Value.list r).Plain c quiet) :
    writtenList lists n around r = writtenList lists' m around r := by
  obtain ⟨hsize, hitems⟩ := hr.of_list
  by_cases hmem : r ∈ around
  · rw [writtenList_of_mem hmem, writtenList_of_mem hmem]
  obtain ⟨k, rfl⟩ := level_of_not_mem hnodup hbound hn hsize hmem
  obtain ⟨l, rfl⟩ := level_of_not_mem hnodup hbound hm hsize hmem
  have hnot : around.contains r = false := by simpa using hmem
  have hcons : ((r :: around).map ListRef.index).Nodup := by
    refine List.nodup_cons.2 ⟨fun h => ?_, hnodup⟩
    obtain ⟨⟨i⟩, hr', rfl⟩ := List.mem_map.1 h
    exact hmem hr'
  rw [writtenList, writtenList, hnot, hlists.get _ hsize, hlists'.get _ hsize]
  simp only [Bool.false_eq_true, if_false]
  congr 3
  refine List.map_congr_left fun x hx => ?_
  rw [writtenWithin_eq, writtenWithin_eq]
  refine (hitems x (Array.mem_toList_iff.1 hx)).writtenWith_congr fun r' hr' => ?_
  exact hr'.writtenList_eq hlists hlists' hcons (List.forall_mem_cons.2 ⟨hsize, hbound⟩)
    (by rw [List.length_cons]; omega) (by rw [List.length_cons]; omega)
termination_by n

/-- How a value is written does not depend on cells that it does not lead to. -/
theorem Plain.written_eq (hlists : c.lists.Keeps lists) (hv : v.Plain c quiet) :
    v.written lists = v.written c.lists := by
  rw [written, written, writtenWithin_eq, writtenWithin_eq]
  refine hv.writtenWith_congr fun r hr => ?_
  have hnodup : (([] : List ListRef).map ListRef.index).Nodup := List.nodup_nil
  exact hr.writtenList_eq hlists (.refl _) hnodup nofun hlists.size (Nat.le_refl _)

/-! ### Objects -/

theorem exists_of_shown? {objects : Heap ObjectState} (h : v.shown? objects = some w) :
    ∃ r, v = object .person r := by
  unfold shown? at h
  split at h
  · exact ⟨_, rfl⟩
  · cases h

/-- The objects that the text of a value shows, from the outside in. -/
inductive Row (objects : Heap ObjectState) : Value → List Nat → Prop
  | stop {v : Value} : v.shown? objects = none → Row objects v []
  | more {r : ObjectRef} {w : Value} {is : List Nat} : (object .person r).shown? objects = some w →
      Row objects w is → Row objects (object .person r) (r.index :: is)

namespace Row

variable {objects : Heap ObjectState} {is js : List Nat}

theorem unique (h : Row objects v is) (h' : Row objects v js) : is = js := by
  induction h generalizing js with
  | stop hv =>
    cases h' with
    | stop => rfl
    | more hw => cases hv.symm.trans hw
  | more hw _ ih =>
    cases h' with
    | stop hv => cases hv.symm.trans hw
    | more hw' hrow =>
      cases hw.symm.trans hw'
      rw [ih hrow]

theorem of_mem (h : Row objects v is) {i : Nat} (hi : i ∈ is) :
    ∃ js, Row objects (object .person ⟨i⟩) (i :: js) ∧ js.length < is.length := by
  induction h with
  | stop => cases hi
  | @more r w is hw hrow ih =>
    obtain rfl | hi := List.mem_cons.1 hi
    · exact ⟨is, .more hw hrow, Nat.lt_succ_self _⟩
    · obtain ⟨js, hjs, hlength⟩ := ih hi
      exact ⟨js, hjs, Nat.lt_succ_of_lt hlength⟩

/-- An object that shows itself would show a row shorter than itself. -/
theorem nodup (h : Row objects v is) : is.Nodup := by
  induction h with
  | stop => exact List.nodup_nil
  | @more r w is hw hrow ih =>
    refine List.nodup_cons.2 ⟨fun hr => ?_, ih⟩
    obtain ⟨js, hjs, hlength⟩ := hrow.of_mem hr
    have hsame := hjs.unique (.more hw hrow)
    cases hsame
    exact Nat.lt_irrefl _ hlength

end Row

namespace Plain

theorem exists_row (hv : v.Plain c quiet) : ∃ is, Row c.objects v is ∧ ∀ i ∈ is, i < c.objects.size := by
  have hstop {v : Value} (h : v.shown? c.objects = none) : ∃ is, Row c.objects v is ∧ ∀ i ∈ is, i < c.objects.size :=
    ⟨[], .stop h, by simp⟩
  induction hv with
  | @atom v _ _ hbound _ ih =>
    cases hshown : v.shown? c.objects with
    | none => exact hstop hshown
    | some w =>
      obtain ⟨is, hrow, his⟩ := ih w hshown
      obtain ⟨r, rfl⟩ := exists_of_shown? hshown
      exact ⟨_, .more hshown hrow, List.forall_mem_cons.2 ⟨hbound _ r rfl, his⟩⟩
  | @elements v _ h => exact hstop (by cases v <;> first | rfl | cases h)
  | _ => exact hstop rfl

/-- How an object is formatted that shows another value: by that value's text. -/
theorem run_formattedWithin_shown {scope : Scope} {n k : Nat} {s : Store} {r : ObjectRef}
    (hw : (object .person r).shown? s.objects = some w) :
    (formattedWithin (k + 1) (object .person r) : Script scope String).run (Deeper.within n) s =
      (do return s!"Person({← formattedWithin k w})" : Script scope String).run (Deeper.within n) s := by
  have hstate : ∃ tags, s.objects.get r.index = .person w tags := by
    unfold shown? at hw
    dsimp only at hw
    split at hw
    · rename_i tags hget
      cases hw
      exact ⟨tags, hget⟩
    · cases hw
  obtain ⟨tags, hstate⟩ := hstate
  have hrun : (Script.act (.step (Run.objectState r)) : Script scope ObjectState).run (Deeper.within n) s =
      .ok (.person w tags) s := by
    rw [← hstate]
    rfl
  exact (Run.bind_ok hrun).trans rfl

/-- How a value is formatted that shows no other one: in one step. -/
theorem run_formattedWithin_of_stop {scope : Scope} {n k l : Nat} {s : Store} (hv : v.shown? s.objects = none) :
    (formattedWithin (k + 1) v : Script scope String).run (Deeper.within n) s =
      (formattedWithin (l + 1) v : Script scope String).run (Deeper.within n) s := by
  cases v with
  | object cls r =>
    refine Run.bind_eq_bind rfl fun state s' hstate => ?_
    cases hstate
    cases cls with
    | person =>
      cases hget : s.objects.get r.index with
      | person name tags =>
        unfold shown? at hv
        dsimp only at hv
        rw [hget] at hv
        cases hv
      | _ => rfl
    | _ => rfl
  | _ => rfl

/-- How a value is formatted does not depend on how many objects may be shown, if they are more than it shows. -/
theorem run_formattedWithin {scope : Scope} {n : Nat} {s : Store} (hobjects : c.objects.Keeps s.objects)
    {is : List Nat} (hrow : Row c.objects v is) (hv : v.Plain c quiet) {k l : Nat} (hk : is.length < k)
    (hl : is.length < l) : (formattedWithin k v : Script scope String).run (Deeper.within n) s =
      (formattedWithin l v : Script scope String).run (Deeper.within n) s := by
  have hshown {v : Value} (hv : v.Plain c quiet) : v.shown? s.objects = v.shown? c.objects := by
    cases v with
    | object cls r => cases cls <;> first | rfl | rw [shown?, shown?, hobjects.get _ hv.of_object]
    | _ => rfl
  induction hrow generalizing k l with
  | @stop v hstop =>
    obtain ⟨k, rfl⟩ := Nat.exists_eq_add_one_of_ne_zero (Nat.ne_of_gt hk)
    obtain ⟨l, rfl⟩ := Nat.exists_eq_add_one_of_ne_zero (Nat.ne_of_gt hl)
    exact run_formattedWithin_of_stop ((hshown hv).trans hstop)
  | @more r w is hw hrow ih =>
    obtain ⟨k, rfl⟩ := Nat.exists_eq_add_one_of_ne_zero (Nat.ne_of_gt (Nat.zero_lt_of_lt hk))
    obtain ⟨l, rfl⟩ := Nat.exists_eq_add_one_of_ne_zero (Nat.ne_of_gt (Nat.zero_lt_of_lt hl))
    have hw' := (hshown hv).trans hw
    rw [run_formattedWithin_shown hw', run_formattedWithin_shown hw']
    exact Run.bind_eq_bind (ih (hv.of_shown hw) (Nat.lt_of_succ_lt_succ hk) (Nat.lt_of_succ_lt_succ hl))
      fun _ _ _ => rfl

end Plain

end Value

end Stencil
