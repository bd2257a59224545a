import Mathlib.Data.List.Forall2
import Stencil.Run.Store
import Stencil.Value.Equality

/-!
# Equality of values

Equality of values without floats is reflexive and symmetric. Among keys it is an equivalence, numbers and booleans
counted as one kind; so a set of which each element is in another one of the same size has all of its elements
(`exists_of_length_eq`), and the same goes for the keys of maps. Lists are compared through their cells, a level for
each of them.
-/

namespace Stencil

/-- If no two of some things are related to the same one, and each is related to one of as many others, then all of
those are. -/
theorem exists_of_length_eq {α β : Type} {R : α → β → Prop} {xs : List α} {ys : List β}
    (hlength : xs.length = ys.length) (hapart : xs.Pairwise fun x x' => ∀ y ∈ ys, R x y → ¬ R x' y)
    (hsub : ∀ x ∈ xs, ∃ y ∈ ys, R x y) : ∀ y ∈ ys, ∃ x ∈ xs, R x y := by
  induction xs generalizing ys with
  | nil =>
    rw [List.length_nil, eq_comm, List.length_eq_zero_iff] at hlength
    simp [hlength]
  | cons x xs ih =>
    rw [List.pairwise_cons] at hapart
    obtain ⟨y, hy, hxy⟩ := hsub x List.mem_cons_self
    obtain ⟨before, after, rfl⟩ := List.append_of_mem hy
    have hmem {z : β} : z ∈ before ++ y :: after ↔ z = y ∨ z ∈ before ++ after := by
      simp only [List.mem_append, List.mem_cons]
      tauto
    -- What is related to another one than the first is not the partner of the first.
    have hrest := @ih (before ++ after) (by rw [List.length_append, List.length_cons, List.length_cons] at *; omega)
      (hapart.2.imp fun h z hz => h z (hmem.2 (.inr hz))) fun x' hx' => by
        obtain ⟨z, hz, hxz⟩ := hsub x' (List.mem_cons_of_mem x hx')
        obtain rfl | hz := hmem.1 hz
        · exact absurd hxz (hapart.1 x' hx' z hy hxy)
        · exact ⟨z, hz, hxz⟩
    intro z hz
    obtain rfl | hz := hmem.1 hz
    · exact ⟨x, List.mem_cons_self, hxy⟩
    · obtain ⟨x', hx', hxz⟩ := hrest z hz
      exact ⟨x', List.mem_cons_of_mem x hx', hxz⟩

namespace Value

variable {sl sl' : ListRef → ListRef → Bool} {a b c : Value} {xs ys : List Value}
  {es fs : List (Value × Value)}

/-! ### The parts of containers -/

theorem itemsEqual_iff : itemsEqual sl xs ys = true ↔ xs.length = ys.length ∧
    ∀ i (hx : i < xs.length) (hy : i < ys.length), equalsWith sl xs[i] ys[i] = true := by
  have h : itemsEqual sl xs ys = true ↔ List.Forall₂ (fun x y => equalsWith sl x y = true) xs ys := by
    induction xs generalizing ys with
    | nil => cases ys <;> simp [itemsEqual]
    | cons x xs ih => cases ys <;> simp [itemsEqual, ih]
  rw [h, List.forall₂_iff_get]
  rfl

theorem itemsIn_iff : itemsIn sl xs ys = true ↔ ∀ x ∈ xs, ∃ y ∈ ys, equalsWith sl x y = true := by
  induction xs with
  | nil => simp [itemsIn]
  | cons x xs ih => simp [itemsIn, ih]

theorem entriesIn_iff : entriesIn sl es fs = true ↔
    ∀ e ∈ es, ∃ f ∈ fs, equalsWith sl e.1 f.1 = true ∧ equalsWith sl e.2 f.2 = true := by
  induction es with
  | nil => simp [entriesIn]
  | cons e es ih =>
    obtain ⟨k, v⟩ := e
    simp only [entriesIn, Bool.and_eq_true, List.any_eq_true, ih, List.forall_mem_cons]

/-- The elements of a set or of a view of keys. -/
def elements? : Value → Option (List Value)
  | set xs | keys xs => some xs
  | _ => none

theorem equalsWith_tuple : equalsWith sl (tuple xs) b = true ↔
    ∃ ys, b = tuple ys ∧ xs.length = ys.length ∧
      ∀ i (hx : i < xs.length) (hy : i < ys.length), equalsWith sl xs[i] ys[i] = true := by
  cases b <;> simp [equalsWith, itemsEqual_iff]

theorem equalsWith_list {r : ListRef} : equalsWith sl (list r) b = true ↔
    ∃ r', b = list r' ∧ (r = r' ∨ sl r r' = true) := by
  cases b <;> simp [equalsWith]

theorem equalsWith_map : equalsWith sl (map es) b = true ↔ ∃ fs, b = map fs ∧ es.length = fs.length ∧
    ∀ e ∈ es, ∃ f ∈ fs, equalsWith sl e.1 f.1 = true ∧ equalsWith sl e.2 f.2 = true := by
  cases b <;> simp [equalsWith, entriesIn_iff]

theorem equalsWith_elements (h : a.elements? = some xs) : equalsWith sl a b = true ↔
    ∃ ys, b.elements? = some ys ∧ xs.length = ys.length ∧ ∀ x ∈ xs, ∃ y ∈ ys, equalsWith sl x y = true := by
  cases a with
  | set | keys =>
    cases h
    cases b <;> simp [equalsWith, elements?, itemsIn_iff]
  | _ => cases h

/-! ### Values without parts -/

/-- Whether a value has no parts and is no float. -/
def isAtom : Value → Bool
  | float _ | nan _ | tuple _ | set _ | keys _ | map _ | list _ => false
  | _ => true

/-- What a value without parts is compared by: a boolean is a number, a range its numbers, a moment its instant, an
object or a block its number. -/
def compared : Value → Value
  | bool b => int (boolInt b)
  | range a b c =>
    let n := rangeLength a b c
    tuple [int n, int (if n = 0 then 0 else a), int (if n ≤ 1 then 0 else c)]
  | moment m => tuple [bool m.zone.isSome, int m.instant]
  | object _ r => object default r
  | block b => block ⟨b.id, ""⟩
  | v => v

theorem sameRange_iff {a b c a' b' c' : Int} :
    sameRange a b c a' b' c' = true ↔ (range a b c).compared = (range a' b' c').compared := by
  simp only [sameRange, compared, Bool.and_eq_true, Bool.or_eq_true, beq_iff_eq, tuple.injEq, List.cons.injEq,
    int.injEq, and_true, Int.natCast_inj]
  grind

theorem boolInt_inj {b b' : Bool} : boolInt b = boolInt b' ↔ b = b' := by
  cases b <;> cases b' <;> decide

/-- Values without parts are equal if they are compared by the same. -/
theorem equalsWith_atom (ha : a.isAtom = true) (hb : b.isAtom = true) :
    equalsWith sl a b = true ↔ a.compared = b.compared := by
  cases a with
  | float | nan | tuple | set | keys | map | list => cases ha
  | range =>
    cases b with
    | float | nan | tuple | set | keys | map | list => cases hb
    | range => rw [equalsWith, sameRange_iff]
    | _ => simp [equalsWith, compared]
  | _ =>
    cases b with
    | float | nan | tuple | set | keys | map | list => cases hb
    | _ => simp [equalsWith, compared, boolInt_inj, Moment.same, Moment.isComparable]

/-- Whether a value is a float. -/
def isFloat : Value → Bool
  | float _ | nan _ => true
  | _ => false

/-- What equals a value without parts has none itself. -/
theorem isAtom_of_equalsWith (ha : a.isAtom = true) (hb : b.isFloat = false) (h : equalsWith sl a b = true) :
    b.isAtom = true := by
  cases b with
  | float | nan => cases hb
  | tuple | set | keys | map | list => cases a <;> first | (cases ha; done) | simp [equalsWith] at h
  | _ => rfl

/-! ### Keys -/

/-- Values that may be keys of maps and elements of sets, and are not floats. No two elements of a set are equal. -/
inductive IsKey : Value → Prop
  | atom {v : Value} : v.isAtom = true → IsKey v
  | tuple {xs : List Value} : (∀ x ∈ xs, IsKey x) → IsKey (tuple xs)
  | set {xs : List Value} : (∀ x ∈ xs, IsKey x) → xs.Pairwise (fun x y => x.sameKey y = false) → IsKey (set xs)

namespace IsKey

theorem isFloat (h : a.IsKey) : a.isFloat = false := by
  cases h with
  | atom h => cases a <;> first | rfl | cases h
  | tuple | set => rfl

theorem of_tuple (h : (Value.tuple xs).IsKey) : ∀ x ∈ xs, x.IsKey := by
  cases h with
  | atom h => cases h
  | tuple h => exact h

theorem of_elements? (h : a.IsKey) (hxs : a.elements? = some xs) :
    (∀ x ∈ xs, x.IsKey) ∧ xs.Pairwise fun x y => x.sameKey y = false := by
  cases h with
  | atom h => cases a <;> cases hxs <;> cases h
  | tuple => cases hxs
  | set h hapart =>
    cases hxs
    exact ⟨h, hapart⟩

/-- No list is met in comparing keys. -/
theorem equalsWith_of_equalsWith (ha : a.IsKey) (hb : b.IsKey) (h : equalsWith sl a b = true) :
    equalsWith sl' a b = true := by
  induction ha generalizing b with
  | atom ha =>
    have hb := isAtom_of_equalsWith ha hb.isFloat h
    exact (equalsWith_atom ha hb).2 ((equalsWith_atom ha hb).1 h)
  | tuple _ ih =>
    obtain ⟨ys, rfl, hlength, hitems⟩ := equalsWith_tuple.1 h
    exact equalsWith_tuple.2 ⟨ys, rfl, hlength, fun i hx hy =>
      ih _ (List.getElem_mem hx) (hb.of_tuple _ (List.getElem_mem hy)) (hitems i hx hy)⟩
  | set _ _ ih =>
    obtain ⟨ys, hys, hlength, hsub⟩ := (equalsWith_elements rfl).1 h
    refine (equalsWith_elements rfl).2 ⟨ys, hys, hlength, fun x hx => ?_⟩
    obtain ⟨y, hy, hxy⟩ := hsub x hx
    exact ⟨y, hy, ih x hx ((hb.of_elements? hys).1 y hy) hxy⟩

theorem trans (ha : a.IsKey) (hb : b.IsKey) (hc : c.IsKey) (hab : equalsWith sl a b = true)
    (hbc : equalsWith sl b c = true) : equalsWith sl a c = true := by
  induction ha generalizing b c with
  | atom ha =>
    have hb' := isAtom_of_equalsWith ha hb.isFloat hab
    have hc' := isAtom_of_equalsWith hb' hc.isFloat hbc
    exact (equalsWith_atom ha hc').2 (((equalsWith_atom ha hb').1 hab).trans ((equalsWith_atom hb' hc').1 hbc))
  | tuple _ ih =>
    obtain ⟨ys, rfl, hlength, hitems⟩ := equalsWith_tuple.1 hab
    obtain ⟨zs, rfl, hlength', hitems'⟩ := equalsWith_tuple.1 hbc
    exact equalsWith_tuple.2 ⟨zs, rfl, hlength.trans hlength', fun i hx hz =>
      have hy := hlength ▸ hx
      ih _ (List.getElem_mem hx) (hb.of_tuple _ (List.getElem_mem hy)) (hc.of_tuple _ (List.getElem_mem hz))
        (hitems i hx hy) (hitems' i hy hz)⟩
  | set _ _ ih =>
    obtain ⟨ys, hys, hlength, hsub⟩ := (equalsWith_elements rfl).1 hab
    obtain ⟨zs, hzs, hlength', hsub'⟩ := (equalsWith_elements hys).1 hbc
    refine (equalsWith_elements rfl).2 ⟨zs, hzs, hlength.trans hlength', fun x hx => ?_⟩
    obtain ⟨y, hy, hxy⟩ := hsub x hx
    obtain ⟨z, hz, hyz⟩ := hsub' y hy
    exact ⟨z, hz, ih x hx ((hb.of_elements? hys).1 y hy) ((hc.of_elements? hzs).1 z hz) hxy hyz⟩

/-- What equals two keys that are apart is none. -/
theorem not_equalsWith (ha : a.IsKey) (hb : b.IsKey) (hc : c.IsKey) (hapart : a.sameKey c = false)
    (hab : equalsWith sl a b = true) : equalsWith sl b c = false := by
  by_contra hbc
  rw [Bool.not_eq_false] at hbc
  rw [sameKey, Bool.eq_false_iff] at hapart
  exact hapart (ha.equalsWith_of_equalsWith hc (ha.trans hb hc hab hbc))

theorem symm (ha : a.IsKey) (hb : b.IsKey) (h : equalsWith sl a b = true) : equalsWith sl b a = true := by
  induction ha generalizing b with
  | atom ha =>
    have hb := isAtom_of_equalsWith ha hb.isFloat h
    exact (equalsWith_atom hb ha).2 ((equalsWith_atom ha hb).1 h).symm
  | tuple _ ih =>
    obtain ⟨ys, rfl, hlength, hitems⟩ := equalsWith_tuple.1 h
    exact equalsWith_tuple.2 ⟨_, rfl, hlength.symm, fun i hy hx =>
      ih _ (List.getElem_mem hx) (hb.of_tuple _ (List.getElem_mem hy)) (hitems i hx hy)⟩
  | @set xs hxs hapart ih =>
    obtain ⟨ys, hys, hlength, hsub⟩ := (equalsWith_elements rfl).1 h
    have hkeys := (hb.of_elements? hys).1
    -- Two elements of the one set that equal the same of the other one would be equal.
    have hback := exists_of_length_eq hlength (hapart.imp_of_mem fun {x x'} hx hx' hxx' y hy hxy hxy' =>
      Bool.false_ne_true (((hxs x hx).not_equalsWith (hkeys y hy) (hxs x' hx') hxx' hxy).symm.trans
        (ih x' hx' (hkeys y hy) hxy'))) hsub
    refine (equalsWith_elements hys).2 ⟨xs, rfl, hlength.symm, fun y hy => ?_⟩
    obtain ⟨x, hx, hxy⟩ := hback y hy
    exact ⟨x, hx, ih x hx (hkeys y hy) hxy⟩

end IsKey

/-! ### Values without floats -/

/-- What the text of an object shows of it. -/
def shown? (objects : Heap ObjectState) : Value → Option Value
  | object .person r =>
    match objects.get r.index with
    | .person name _ => some name
    | _ => none
  | _ => none

/-- Values without floats, nested to any depth without cycles, in cells that exist. No two elements of a set are equal
and no two keys of a map, and of each block in them something holds. -/
inductive Plain (c : Cells) (quiet : BlockRef → Prop) : Value → Prop
  | atom {v : Value} : v.isAtom = true → (∀ b, v = block b → quiet b) →
      (∀ cls r, v = object cls r → r.index < c.objects.size) →
      (∀ w, v.shown? c.objects = some w → Plain c quiet w) → Plain c quiet v
  | tuple {xs : List Value} : (∀ x ∈ xs, Plain c quiet x) → Plain c quiet (tuple xs)
  | list {r : ListRef} : r.index < c.lists.size → (∀ x ∈ c.lists.get r.index, Plain c quiet x) →
      Plain c quiet (list r)
  | elements {v : Value} {xs : List Value} : v.elements? = some xs → IsKey (set xs) →
      (∀ x ∈ xs, Plain c quiet x) → Plain c quiet v
  | map {es : List (Value × Value)} : IsKey (set (es.map (·.1))) → (∀ e ∈ es, Plain c quiet e.1) →
      (∀ e ∈ es, Plain c quiet e.2) → Plain c quiet (map es)

namespace Plain

variable {cells : Cells} {quiet : BlockRef → Prop}

theorem isFloat (h : a.Plain cells quiet) : a.isFloat = false := by
  cases h with
  | atom h => cases a <;> first | rfl | cases h
  | elements h => cases a <;> first | rfl | cases h
  | _ => rfl

theorem of_tuple (h : (Value.tuple xs).Plain cells quiet) : ∀ x ∈ xs, x.Plain cells quiet := by
  cases h with
  | atom h | elements h => cases h
  | tuple h => exact h

theorem of_block {b : BlockRef} (h : (Value.block b).Plain cells quiet) : quiet b := by
  cases h with
  | atom _ h => exact h b rfl
  | elements h => cases h

theorem of_object {cls : HostClass} {r : ObjectRef} (h : (Value.object cls r).Plain cells quiet) :
    r.index < cells.objects.size := by
  cases h with
  | atom _ _ h => exact h cls r rfl
  | elements h => cases h

theorem of_shown (h : a.Plain cells quiet) (hb : a.shown? cells.objects = some b) : b.Plain cells quiet := by
  cases h with
  | atom _ _ _ h => exact h b hb
  | elements h => cases a <;> first | (cases h; done) | cases hb
  | _ => cases hb

theorem of_list {r : ListRef} (h : (Value.list r).Plain cells quiet) :
    r.index < cells.lists.size ∧ ∀ x ∈ cells.lists.get r.index, x.Plain cells quiet := by
  cases h with
  | atom h | elements h => cases h
  | list hr h => exact ⟨hr, h⟩

theorem of_elements? (h : a.Plain cells quiet) (hxs : a.elements? = some xs) : IsKey (set xs) := by
  cases h with
  | atom h => cases a <;> cases hxs <;> cases h
  | elements h hkeys =>
    cases h.symm.trans hxs
    exact hkeys
  | _ => cases hxs

theorem of_map (h : (Value.map es).Plain cells quiet) :
    IsKey (set (es.map (·.1))) ∧ ∀ e ∈ es, e.2.Plain cells quiet := by
  cases h with
  | atom h | elements h => cases h
  | map hkeys _ hvalues => exact ⟨hkeys, hvalues⟩

theorem refl (h : a.Plain cells quiet) : equalsWith sl a a = true := by
  induction h with
  | atom h => exact (equalsWith_atom h h).2 rfl
  | tuple _ ih => exact equalsWith_tuple.2 ⟨_, rfl, rfl, fun i hx _ => ih _ (List.getElem_mem hx)⟩
  | list => exact equalsWith_list.2 ⟨_, rfl, .inl rfl⟩
  | elements h _ _ ih => exact (equalsWith_elements h).2 ⟨_, h, rfl, fun x hx => ⟨x, hx, ih x hx⟩⟩
  | map _ _ _ ihkeys ihvalues =>
    exact equalsWith_map.2 ⟨_, rfl, rfl, fun e he => ⟨e, he, ihkeys e he, ihvalues e he⟩⟩

/-- Given that lists are compared symmetrically, so are values. -/
theorem symm (hsl : ∀ {r r' : ListRef}, (Value.list r).Plain cells quiet → (Value.list r').Plain cells quiet →
      sl r r' = true → sl r' r = true)
    (ha : a.Plain cells quiet) (hb : b.Plain cells quiet) (h : equalsWith sl a b = true) :
    equalsWith sl b a = true := by
  induction ha generalizing b with
  | atom ha =>
    have hb := isAtom_of_equalsWith ha hb.isFloat h
    exact (equalsWith_atom hb ha).2 ((equalsWith_atom ha hb).1 h).symm
  | tuple _ ih =>
    obtain ⟨ys, rfl, hlength, hitems⟩ := equalsWith_tuple.1 h
    exact equalsWith_tuple.2 ⟨_, rfl, hlength.symm, fun i hy hx =>
      ih _ (List.getElem_mem hx) (hb.of_tuple _ (List.getElem_mem hy)) (hitems i hx hy)⟩
  | @list r hr hitems =>
    obtain ⟨r', rfl, hsame⟩ := equalsWith_list.1 h
    exact equalsWith_list.2 ⟨r, rfl, hsame.imp Eq.symm (hsl (.list hr hitems) hb)⟩
  | elements hxs hkeys =>
    obtain ⟨ys, hys, hsets⟩ := (equalsWith_elements hxs).1 h
    have hback := hkeys.symm (hb.of_elements? hys) ((equalsWith_elements rfl).2 ⟨ys, rfl, hsets⟩)
    obtain ⟨_, hzs, hsets⟩ := (equalsWith_elements rfl).1 hback
    cases hzs
    exact (equalsWith_elements hys).2 ⟨_, hxs, hsets⟩
  | @map es hkeys _ _ _ ih =>
    obtain ⟨fs, rfl, hlength, hsub⟩ := equalsWith_map.1 h
    obtain ⟨hkeys', hvalues⟩ := hb.of_map
    obtain ⟨he, hapart⟩ := hkeys.of_elements? rfl
    have hf := (hkeys'.of_elements? rfl).1
    rw [List.forall_mem_map] at he hf
    rw [List.pairwise_map] at hapart
    have hback := exists_of_length_eq hlength (hapart.imp_of_mem fun {e e'} hmem hmem' hee f hfs hef hef' =>
      Bool.false_ne_true (((he e hmem).not_equalsWith (hf f hfs) (he e' hmem') hee hef.1).symm.trans
        ((he e' hmem').symm (hf f hfs) hef'.1))) hsub
    refine equalsWith_map.2 ⟨es, rfl, hlength.symm, fun f hfs => ?_⟩
    obtain ⟨e, hes, hkey, hvalue⟩ := hback f hfs
    exact ⟨e, hes, (he e hes).symm (hf f hfs) hkey, ih e hes (hvalues f hfs) hvalue⟩

/-- However deep lists are followed, they are compared symmetrically. -/
theorem equalsWithin_symm {n : Nat} (ha : a.Plain cells quiet) (hb : b.Plain cells quiet)
    (h : equalsWithin cells.lists n a b = true) : equalsWithin cells.lists n b a = true := by
  induction n generalizing a b with
  | zero => exact ha.symm (fun _ _ h => h) hb h
  | succ n ih =>
    refine ha.symm (fun {r r'} hr hr' hsame => ?_) hb h
    obtain ⟨hsize, hitems⟩ := Bool.and_eq_true_iff.1 hsame
    rw [Array.all_eq_true] at hitems
    refine Bool.and_eq_true_iff.2 ⟨beq_iff_eq.2 (beq_iff_eq.1 hsize).symm, Array.all_eq_true.2 fun i hi => ?_⟩
    rw [Array.size_zip, Nat.min_comm, ← Array.size_zip] at hi
    have hitem := hitems i hi
    simp only [Array.getElem_zip] at hitem ⊢
    exact ih (hr.of_list.2 _ (Array.getElem_mem _)) (hr'.of_list.2 _ (Array.getElem_mem _)) hitem

theorem equals_comm (ha : a.Plain cells quiet) (hb : b.Plain cells quiet) :
    equals cells.lists a b = equals cells.lists b a :=
  Bool.eq_iff_iff.2 ⟨ha.equalsWithin_symm hb, hb.equalsWithin_symm ha⟩

theorem equals_self (ha : a.Plain cells quiet) : equals cells.lists a a = true := by
  rw [equals]
  cases cells.lists.size <;> exact ha.refl

end Plain

end Value

end Stencil
