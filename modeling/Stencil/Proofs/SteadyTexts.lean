import Stencil.Proofs.Binding
import Stencil.Proofs.WrittenValues

/-!
# Values whose texts do not change

Converting a value to text renders the blocks in it. If these have no side effects, the conversion gives the same text
every time and in any order: `Resting` says of some stores that such blocks lead from one to another of them, and
`Resting.textOf` that then all conversions do, with the same text from each of them.
-/

namespace Stencil

variable {scope : Scope} {α β : Type} {P : Store → Prop} {n : Nat}

/-- Whether a script that gives something from one of some stores gives the same from each of them, and always comes
to another one of them. -/
def Script.Steady (P : Store → Prop) (n : Nat) (x : Script scope α) : Prop :=
  ∀ s a s₁, P s → x.run (Deeper.within n) s = .ok a s₁ →
    P s₁ ∧ ∀ s', P s' → ∃ s₁', x.run (Deeper.within n) s' = .ok a s₁' ∧ P s₁'

open Script (Steady)

theorem Run.mapFailure_eq_ok {f : Failure → Failure} {x : Run α} {a : α} {s s' : Store} :
    Run.mapFailure f x s = .ok a s' ↔ x s = .ok a s' := by
  rw [Run.mapFailure]
  split <;> simp_all

namespace Script.Steady

variable {x : Script scope α}

/-- What gives one and the same and leaves the store as it is. -/
theorem of_eq (a : α) (h : ∀ s, P s → x.run (Deeper.within n) s = .ok a s) : Steady P n x := by
  intro s a' s₁ hs hx
  rw [h s hs] at hx
  cases hx
  exact ⟨hs, fun s' hs' => ⟨s', h s' hs', hs'⟩⟩

/-- What gives nothing. -/
theorem of_error (h : ∀ s, ∃ e s₁, x.run (Deeper.within n) s = .error e s₁) : Steady P n x := by
  intro s a s₁ _ hx
  obtain ⟨e, s₂, he⟩ := h s
  cases he.symm.trans hx

/-- What does the same from each of the stores. -/
theorem congr {y : Script scope α} (h : ∀ s, P s → x.run (Deeper.within n) s = y.run (Deeper.within n) s)
    (hy : Steady P n y) : Steady P n x := by
  intro s a s₁ hs hx
  rw [h s hs] at hx
  obtain ⟨hs₁, hagain⟩ := hy s a s₁ hs hx
  refine ⟨hs₁, fun s' hs' => ?_⟩
  rw [h s' hs']
  exact hagain s' hs'

theorem done (a : α) : Steady P n (.done a : Script scope α) :=
  .of_eq a fun _ _ => rfl

theorem exhausted : Steady P n (Script.exhausted : Script scope α) :=
  .of_error fun s => ⟨_, s, rfl⟩

theorem fault (kind : FaultKind) (text : String) : Steady P n (Script.fault kind text : Script scope α) :=
  .of_error fun s => ⟨_, s, rfl⟩

theorem bind {x : Script scope β} {f : β → Script scope α} (hx : Steady P n x)
    (hf : ∀ b, Steady P n (f b)) : Steady P n (x >>= f) := by
  intro s a s₂ hs h
  obtain ⟨b, s₁, hb, ha⟩ := Run.bind_eq_ok.1 h
  obtain ⟨hs₁, hagain⟩ := hx s b s₁ hs hb
  obtain ⟨hs₂, hagain'⟩ := hf b s₁ a s₂ hs₁ ha
  refine ⟨hs₂, fun s' hs' => ?_⟩
  obtain ⟨s₁', hb', hs₁'⟩ := hagain s' hs'
  obtain ⟨s₂', ha', hs₂'⟩ := hagain' s₁' hs₁'
  exact ⟨s₂', (Run.bind_ok hb').trans ha', hs₂'⟩

/-- What is read of the store is the same in each of them. -/
theorem read {x : Script scope β} {f : β → Script scope α} (b : β)
    (hx : ∀ s, P s → x.run (Deeper.within n) s = .ok b s) (hf : Steady P n (f b)) : Steady P n (x >>= f) :=
  .congr (fun s hs => Run.bind_ok (hx s hs)) hf

theorem map {x : Script scope β} (f : β → α) (hx : Steady P n x) :
    Steady P n (x >>= fun b => Pure.pure (f b)) :=
  hx.bind fun _ => .done _

theorem rethrow (f : Failure → Failure) (hx : Steady P n x) : Steady P n (.rethrow f x) := by
  intro s a s₁ hs h
  obtain ⟨hs₁, hagain⟩ := hx s a s₁ hs (Run.mapFailure_eq_ok.1 h)
  refine ⟨hs₁, fun s' hs' => ?_⟩
  obtain ⟨s₁', h', hs₁'⟩ := hagain s' hs'
  exact ⟨s₁', Run.mapFailure_eq_ok.2 h', hs₁'⟩

/-- The text of an item of a list, which is converted one level deeper. -/
theorem text {v : Value} (h : ∀ m < n, Steady P m (textOf v : Script default String)) :
    Steady P n (.text v : Script scope String) := by
  cases n with
  | zero => exact .of_error fun s => ⟨_, s, rfl⟩
  | succ n => exact h n n.lt_succ_self

end Script.Steady

/-- Stores in which the lists and objects that there are stay the same, and between which blocks of which something
holds lead: each of these gives the same text from all of them. -/
structure Resting (c : Cells) (quiet : BlockRef → Prop) (P : Store → Prop) : Prop where
  lists : ∀ s, P s → c.lists.Keeps s.lists
  objects : ∀ s, P s → c.objects.Keeps s.objects
  blocks : ∀ b, quiet b → ∀ n, Steady P n (.block b : Script default String)

namespace Resting

variable {c : Cells} {quiet : BlockRef → Prop} {v : Value}

theorem listItems (hP : Resting c quiet P) {r : ListRef} (hr : r.index < c.lists.size)
    {f : Array Value → Script scope α} (hf : Steady P n (f (c.lists.get r.index))) :
    Steady P n (.act (.step (Run.listItems r)) >>= f) :=
  .read _ (fun s hs => by rw [← (hP.lists s hs).get _ hr]; rfl) hf

theorem objectState (hP : Resting c quiet P) {r : ObjectRef} (hr : r.index < c.objects.size)
    {f : ObjectState → Script scope α} (hf : Steady P n (f (c.objects.get r.index))) :
    Steady P n (.act (.step (Run.objectState r)) >>= f) :=
  .read _ (fun s hs => by rw [← (hP.objects s hs).get _ hr]; rfl) hf

theorem written (hP : Resting c quiet P) (hv : v.Plain c quiet) :
    Steady P n (do return v.written (← Run.allLists) : Script scope String) := by
  refine .of_eq (v.written c.lists) fun s hs => ?_
  rw [← hv.written_eq (hP.lists s hs)]
  rfl

theorem formattedWithin (hP : Resting c quiet P) (k : Nat) (hv : v.Plain c quiet) :
    Steady P n (formattedWithin k v : Script scope String) := by
  induction k generalizing v with
  | zero => exact .exhausted
  | succ k ih =>
    unfold Stencil.formattedWithin
    split
    · exact .done _
    · refine hP.objectState hv.of_object ?_
      split
      · rename_i hstate
        exact .map _ (ih (hv.of_shown (by rw [Value.shown?, hstate])))
      · exact .fault _ _
      · exact .done _
      · exact .done _
    · exact .done _
    · exact hP.blocks _ hv.of_block n
    · exact .done _
    · exact .done _
    · exact hP.written hv

/-- The number of objects that may be shown differs from store to store, but is always enough. -/
theorem formatted (hP : Resting c quiet P) (hv : v.Plain c quiet) : Steady P n (formatted v : Script scope String) := by
  obtain ⟨is, hrow, hbound⟩ := hv.exists_row
  have hgo (s : Store) (hs : P s) : (Stencil.formatted v : Script scope String).run (Deeper.within n) s =
      (Stencil.formattedWithin (c.objects.size + 1) v : Script scope String).run (Deeper.within n) s := by
    have hlength := Nat.lt_succ_of_le (length_le_of_nodup hrow.nodup hbound)
    exact hv.run_formattedWithin (hP.objects s hs) hrow
      (Nat.lt_of_lt_of_le hlength (Nat.succ_le_succ (hP.objects s hs).size)) hlength
  exact .congr hgo (hP.formattedWithin _ hv)

theorem listTextsFrom (hP : Resting c quiet P) {r : ListRef} (hsize : r.index < c.lists.size)
    (texts : Array String) (k position : Nat)
    (hr : ∀ v ∈ c.lists.get r.index, ∀ m < n, Steady P m (Stencil.textOf v : Script default String)) :
    Steady P n (listTextsFrom r texts k position : Script scope (List String)) := by
  induction k generalizing texts position with
  | zero => exact .exhausted
  | succ k ih =>
    unfold Stencil.listTextsFrom
    refine hP.listItems hsize ?_
    split
    · rename_i hitem
      exact .bind (.text (hr _ (Array.mem_of_getElem? hitem))) fun _ => ih _ _
    · exact .done _

theorem textsOf {vs : List Value} (h : ∀ v ∈ vs, Steady P n (Stencil.textOf v : Script scope String)) :
    Steady P n (Stencil.textsOf vs : Script scope (List String)) := by
  induction vs with
  | nil => exact .done _
  | cons v vs ih =>
    rw [List.forall_mem_cons] at h
    exact .bind h.1 fun _ => .map _ (ih h.2)

theorem entryTextsOf {es : List (Value × Value)} (hk : ∀ e ∈ es, Steady P n (Stencil.textOf e.1 : Script scope String))
    (hv : ∀ e ∈ es, Steady P n (Stencil.textOf e.2 : Script scope String)) :
    Steady P n (Stencil.entryTextsOf es : Script scope (List String)) := by
  induction es with
  | nil => exact .done _
  | cons e es ih =>
    rw [List.forall_mem_cons] at hk hv
    exact .bind hk.1 fun _ => .bind hv.1 fun _ => .map _ (ih hk.2 hv.2)

/-- The text of a value is the same from each of the stores, and its conversion leads from one to another of them. -/
theorem textOf (hP : Resting c quiet P) (hv : v.Plain c quiet) : Steady P n (textOf v : Script scope String) := by
  induction n using Nat.strongRecOn generalizing scope v with
  | ind n deeper =>
    induction hv with
    | @atom v hatom hquiet hbound hshown =>
      have hv : v.Plain c quiet := .atom hatom hquiet hbound hshown
      cases v with
      | null | bool | range => exact .done _
      | float | nan | tuple | set | keys | map | list => cases hatom
      | _ => exact hP.formatted hv
    | tuple _ ih => exact .map _ (textsOf ih)
    | list hsize hitems =>
      exact .read n (fun _ _ => rfl)
        (.map _ (hP.listTextsFrom hsize _ _ _ fun v hv m hm => deeper m hm (hitems v hv)))
    | @elements v xs hxs _ _ ih =>
      cases v with
      | set | keys =>
        cases hxs
        exact .map _ (textsOf ih)
      | _ => cases hxs
    | map _ _ _ ihk ihv => exact .map _ (entryTextsOf ihk ihv)

theorem hostTextOf (hP : Resting c quiet P) (host : HostKind) (hv : v.Plain c quiet) :
    Steady P n (host.textOf v : Script scope String) := by
  cases host with
  | standard => exact hP.textOf hv
  | shouting => exact .map _ (hP.textOf hv)
  | failing => exact .fault _ _

end Resting

end Stencil
