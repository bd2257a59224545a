import Stencil.Proofs.After

/-!
# Looking one item ahead

A loop takes its items from a source, and may have taken the next one already to see whether there is one.
`Source.Yields` says which items a source has, and `Cells.Left` which items are left to a loop, whether or
not the first of them was taken already. Looking ahead changes nothing about what is left
(`Cells.Left.lookAhead`), and taking an item leaves the others (`Cells.Left.loopNext`). So the queries of the
state of a loop answer by its index and by whether an item is left: `Cells.Left.candidates_query`.
-/

namespace Stencil

/-- Whether a source gives the listed items and then ends without a failure. A loop takes items from loops
below the number `b` only. -/
inductive Source.Yields (c : Cells) : Nat → Source → List Value → Prop
  | items {b : Nat} {vs : List Value} : Yields c b (.items vs) vs
  | numbers {b n : Nat} {next step : Int} : Yields c b (.numbers next step n) (rangeItems next step n)
  | listFrom {b position : Nat} {r : ListRef} :
      Yields c b (.listFrom r position) ((c.lists.get r.index).toList.drop position)
  | stream {b : Nat} {r : StreamRef} (h : (c.streams.get r.index).failure = none) :
      Yields c b (.stream r) (c.streams.get r.index).items
  | loop {b : Nat} {r : LoopRef} {vs : List Value} (hb : r.index < b) (hr : r.index < c.loops.size)
      (h : Yields c r.index (c.loops.get r.index).source vs) :
      Yields c b (.loop r) ((c.loops.get r.index).ahead.toList ++ vs)

/-- The items of a value that is a collection: a tuple, a set, the keys or the values of a map, the numbers of a
range, a list as it is, or a stream that does not fail. -/
inductive Value.HasItems (c : Cells) : Value → List Value → Prop
  | tuple {vs : List Value} : HasItems c (.tuple vs) vs
  | set {vs : List Value} : HasItems c (.set vs) vs
  | keys {vs : List Value} : HasItems c (.keys vs) vs
  | map {entries : List (Value × Value)} : HasItems c (.map entries) (entries.map (·.2))
  | range {start stop step : Int} :
      HasItems c (.range start stop step) (rangeItems start step (rangeLength start stop step))
  | list {r : ListRef} : HasItems c (.list r) (c.lists.get r.index).toList
  | stream {r : StreamRef} (h : (c.streams.get r.index).failure = none) :
      HasItems c (.stream r) (c.streams.get r.index).items

/-- A loop over a collection is given its items. -/
theorem Source.Yields.of_value {c : Cells} {v : Value} {vs : List Value} (h : v.HasItems c vs) {source : Source}
    (hsource : Run.source? v = some source) {b : Nat} : source.Yields c b vs := by
  cases h <;> cases hsource
  case tuple | set | keys | map => exact .items
  case range => exact .numbers
  case list => exact .listFrom
  case stream h => exact .stream h

theorem Step.bind_ok {α β : Type} {x : Step β} {f : β → Step α} {b : β} {c c' : Cells}
    (h : x c = .ok b c') : (x >>= f) c = f b c' := by
  show EStateM.bind x f c = _
  rw [EStateM.bind, h]

namespace Cells

/-- Whether cells have the loops from a number on as they were. -/
structure SameLoopsFrom (b : Nat) (c c' : Cells) : Prop where
  size : c'.loops.size = c.loops.size
  get : ∀ k, b ≤ k → c'.loops.get k = c.loops.get k

/-- Whether these items are left to a loop, of which the first may have been taken already, and the index of
its current item. -/
def Left (c : Cells) (r : LoopRef) (vs : List Value) (i : Int) : Prop :=
  r.index < c.loops.size ∧ (c.loops.get r.index).index = i ∧
    ∃ us, (c.loops.get r.index).source.Yields c r.index us ∧ vs = (c.loops.get r.index).ahead.toList ++ us

theorem SameLoopsFrom.refl (b : Nat) (c : Cells) : SameLoopsFrom b c c :=
  ⟨rfl, fun _ _ => rfl⟩

end Cells

namespace Source

variable {c c' : Cells} {b : Nat} {source : Source} {vs : List Value}

/-- What a source gives depends on lists, streams and older loops only. -/
theorem Yields.congr (h : source.Yields c b vs) (hlists : c'.lists = c.lists)
    (hstreams : c'.streams = c.streams) (hsize : c.loops.size ≤ c'.loops.size)
    (hloops : ∀ k < b, k < c.loops.size → c'.loops.get k = c.loops.get k) : source.Yields c' b vs := by
  induction h with
  | items => exact .items
  | numbers => exact .numbers
  | listFrom =>
    rw [← hlists]
    exact .listFrom
  | stream h =>
    rw [← hstreams] at h ⊢
    exact .stream h
  | @loop b r vs hb hr _ ih =>
    have hsame := hloops r.index hb hr
    have hrest := ih fun k hk hk' => hloops k (Nat.lt_trans hk hb) hk'
    rw [← hsame] at hrest ⊢
    exact .loop hb (Nat.lt_of_lt_of_le hr hsize) hrest

/-- Changing a loop does not matter to older loops. -/
theorem Yields.setLoop (h : source.Yields c b vs) {k : Nat} (hk : b ≤ k) (l : LoopState) :
    source.Yields { c with loops := c.loops.set k l } b vs := by
  refine h.congr rfl rfl (by simp) fun j hj _ => ?_
  exact Heap.get_set_of_ne _ (by omega) l

/-- Whether taking the next item of a source gives the first of the listed items and leaves the others. -/
def Takes (next : LoopRef → Step (Option Value)) (c : Cells) (b : Nat) (source : Source) (vs : List Value) :
    Prop :=
  ∃ source' c', Run.sourceNext next source c = .ok (vs.head?, source') c' ∧ source'.Yields c' b vs.tail ∧
    c.SameLoopsFrom b c'

end Source

namespace Run

variable {next : LoopRef → Step (Option Value)} {c : Cells} {r : LoopRef} {vs us : List Value} {i : Int}

/-- A loop that looks ahead has the item that it sees, and nothing is changed about what is left. -/
theorem lookAheadWith_of_takes (hr : r.index < c.loops.size)
    (hsource : (c.loops.get r.index).source.Yields c r.index us)
    (htakes : Source.Takes next c r.index (c.loops.get r.index).source us)
    (hvs : vs = (c.loops.get r.index).ahead.toList ++ us) :
    ∃ c', lookAheadWith next r c = .ok vs.head?.isSome c' ∧
      c'.Left r vs (c.loops.get r.index).index ∧ (c'.loops.get r.index).ahead = vs.head? ∧
      c.SameLoopsFrom (r.index + 1) c' := by
  have hstate : loopState r c = .ok (c.loops.get r.index) c := rfl
  rw [lookAheadWith, Step.bind_ok hstate]
  cases hahead : (c.loops.get r.index).ahead with
  | some v =>
    rw [hahead] at hvs
    exact ⟨c, by rw [hvs]; rfl, ⟨hr, rfl, us, hsource, by rw [hahead, hvs]⟩, by rw [hahead, hvs]; rfl, .refl _ c⟩
  | none =>
    rw [hahead] at hvs
    obtain rfl : vs = us := hvs
    obtain ⟨source', c₁, hnext, hyields, hsame⟩ := htakes
    have hget := hsame.get r.index (Nat.le_refl _)
    have hr₁ : r.index < c₁.loops.size := hsame.size ▸ hr
    refine ⟨{ c₁ with loops := c₁.loops.set r.index ⟨source', vs.head?, (c₁.loops.get r.index).index⟩ },
      ?_, ?_, ?_, ?_⟩
    · exact Step.bind_ok hnext
    · refine ⟨by simpa using hr₁, ?_, vs.tail, ?_, ?_⟩
      · rw [Heap.get_set hr₁, if_pos rfl, hget]
      · rw [Heap.get_set hr₁, if_pos rfl]
        exact hyields.setLoop (Nat.le_refl _) _
      · rw [Heap.get_set hr₁, if_pos rfl]
        cases vs <;> rfl
    · rw [Heap.get_set hr₁, if_pos rfl]
    · refine ⟨by simpa using hsame.size, fun k hk => ?_⟩
      rw [← hsame.get k (Nat.le_of_succ_le hk)]
      exact Heap.get_set_of_ne _ (by omega) _

/-- A loop gives the first item that is left, and the others are left then. -/
theorem loopNextWith_of_takes (hr : r.index < c.loops.size)
    (hsource : (c.loops.get r.index).source.Yields c r.index us)
    (htakes : Source.Takes next c r.index (c.loops.get r.index).source us)
    (hvs : vs = (c.loops.get r.index).ahead.toList ++ us) :
    ∃ c', loopNextWith next r c = .ok vs.head? c' ∧
      c'.Left r vs.tail ((c.loops.get r.index).index + if vs.head?.isSome then 1 else 0) ∧
      (c'.loops.get r.index).ahead = none ∧ c.SameLoopsFrom (r.index + 1) c' := by
  obtain ⟨c₁, hlook, ⟨hr₁, hindex, us', hyields, hleft⟩, hahead, hsame⟩ :=
    lookAheadWith_of_takes hr hsource htakes hvs
  rw [loopNextWith, Step.bind_ok hlook]
  cases vs with
  | nil => exact ⟨c₁, rfl, ⟨hr₁, by rw [hindex]; simp, us', hyields, hleft⟩, hahead, hsame⟩
  | cons v vs =>
    rw [hahead] at hleft
    obtain rfl : vs = us' := (List.cons.inj hleft).2
    let l := c₁.loops.get r.index
    refine ⟨{ c₁ with loops := c₁.loops.set r.index ⟨l.source, none, l.index + 1⟩ }, ?_, ?_, ?_, ?_⟩
    · have hstate : loopState r c₁ = .ok (c₁.loops.get r.index) c₁ := rfl
      rw [List.head?_cons, Option.isSome_some, if_pos rfl, Step.bind_ok hstate]
      show EStateM.Result.ok (c₁.loops.get r.index).ahead _ = _
      rw [hahead]
      rfl
    · refine ⟨by simpa using hr₁, ?_, vs, ?_, ?_⟩
      · rw [Heap.get_set hr₁, if_pos rfl, hindex]
        rfl
      · rw [Heap.get_set hr₁, if_pos rfl]
        exact hyields.setLoop (Nat.le_refl _) _
      · rw [Heap.get_set hr₁, if_pos rfl]
        rfl
    · rw [Heap.get_set hr₁, if_pos rfl]
    · refine ⟨by simpa using hsame.size, fun k hk => ?_⟩
      rw [← hsame.get k hk]
      exact Heap.get_set_of_ne _ (by omega) _

/-- A stream that does not fail gives its first item and keeps the others. -/
theorem streamNext_eq {q : StreamRef} (h : (c.streams.get q.index).failure = none) :
    streamNext q c = .ok (c.streams.get q.index).items.head?
      { c with streams := c.streams.set q.index ⟨(c.streams.get q.index).items.tail, none⟩ } := by
  have hstate : (get : Step Cells) c = .ok c c := rfl
  rw [streamNext, Step.bind_ok hstate]
  cases hitems : (c.streams.get q.index).items with
  | nil =>
    simp only [h]
    rfl
  | cons v vs =>
    simp only [h]
    rfl

theorem get_streamNext (q : StreamRef) :
    (c.streams.set q.index ⟨(c.streams.get q.index).items.tail, none⟩).get q.index =
      ⟨(c.streams.get q.index).items.tail, none⟩ := by
  rcases Nat.lt_or_ge q.index c.streams.size with hq | hq
  · rw [Heap.get_set hq, if_pos rfl]
  · have hnone : c.streams.get q.index = ⟨[], none⟩ := by
      rw [Heap.get, Array.getD_eq_getD_getElem?, Array.getElem?_eq_none hq]
      rfl
    rw [Heap.set_of_ge _ hq, hnone]
    rfl

end Run

/-- A source gives its items one after another, if it may go through enough loops. -/
theorem Source.Yields.takes {c : Cells} {b : Nat} {source : Source} {vs : List Value}
    (h : source.Yields c b vs) {n : Nat} (hn : b ≤ n) :
    Source.Takes (Run.loopNextWithin n) c b source vs := by
  induction h generalizing n with
  | @items b vs =>
    cases vs with
    | nil => exact ⟨_, c, rfl, .items, .refl _ c⟩
    | cons v vs => exact ⟨_, c, rfl, .items, .refl _ c⟩
  | @numbers b m next step =>
    cases m with
    | zero => exact ⟨_, c, rfl, .items, .refl _ c⟩
    | succ m => exact ⟨_, c, rfl, .numbers, .refl _ c⟩
  | @listFrom b position r =>
    have hitems : Run.listItems r c = .ok (c.lists.get r.index) c := rfl
    have hhead : ((c.lists.get r.index).toList.drop position).head? = (c.lists.get r.index)[position]? := by
      rw [List.head?_drop, Array.getElem?_toList]
    cases hv : (c.lists.get r.index)[position]? with
    | some v =>
      rw [hv] at hhead
      refine ⟨.listFrom r (position + 1), c, ?_, ?_, .refl _ c⟩
      · rw [Run.sourceNext, Step.bind_ok hitems, hv, hhead]
        rfl
      · rw [List.tail_drop]
        exact .listFrom
    | none =>
      rw [hv] at hhead
      refine ⟨.items [], c, ?_, ?_, .refl _ c⟩
      · rw [Run.sourceNext, Step.bind_ok hitems, hv, hhead]
        rfl
      · rw [List.head?_eq_none_iff.1 hhead]
        exact .items
  | @stream b r h =>
    have hrest := Run.get_streamNext (c := c) r
    have hyields := Source.Yields.stream (b := b) (r := r)
      (c := { c with streams := c.streams.set r.index ⟨(c.streams.get r.index).items.tail, none⟩ })
      (congrArg Stream.failure hrest)
    rw [congrArg Stream.items hrest] at hyields
    exact ⟨.stream r, _, Step.bind_ok (f := fun v => pure (v, Source.stream r)) (Run.streamNext_eq h), hyields,
      rfl, fun _ _ => rfl⟩
  | @loop b r vs hb hr hsource ih =>
    obtain ⟨m, rfl⟩ : ∃ m, n = m + 1 := ⟨n - 1, by omega⟩
    obtain ⟨c', hnext, ⟨hr', -, us, hyields, hleft⟩, hahead, hsame⟩ :=
      Run.loopNextWith_of_takes hr hsource (ih (n := m) (by omega)) rfl
    have hloop := Yields.loop hb hr' hyields
    rw [← hleft] at hloop
    exact ⟨.loop r, c', Step.bind_ok (f := fun v => pure (v, Source.loop r)) hnext, hloop, hsame.size,
      fun k hk => hsame.get k (by omega)⟩

/-! ### Queries -/

/-- What the body of a loop may ask the state of the loop. -/
inductive Query where
  | index
  | count
  | first
  | hasNext
  | last

namespace Query

/-- The property that a query reads. -/
def name : Query → String
  | index => "index"
  | count => "count"
  | first => "first"
  | hasNext => "hasNext"
  | last => "last"

/-- The attribute that the property stands for. -/
def member : Query → String
  | hasNext => "has_next"
  | q => q.name

/-- The answer to a query, given the index of the current item and whether there is a next one. -/
def answer (i : Int) (more : Bool) : Query → Value
  | index => .int i
  | count => .int (i + 1)
  | first => .bool (i == 0)
  | hasNext => .bool more
  | last => .bool !more

end Query

/-- The state of a loop has no attributes but those that queries read. -/
theorem Builtin.attribute?_loop (r : LoopRef) (name : String) :
    (∃ q : Query, name = q.member) ∨ attribute? (.loop r) name = pure none := by
  unfold attribute?
  split
  case h_8 => exact .inl ⟨.index, rfl⟩
  case h_9 => exact .inl ⟨.count, rfl⟩
  case h_10 => exact .inl ⟨.first, rfl⟩
  case h_11 => exact .inl ⟨.hasNext, rfl⟩
  case h_12 => exact .inl ⟨.last, rfl⟩
  case h_13 => exact .inr rfl
  all_goals contradiction

/-- The member that an attribute is, if there is one. -/
def Member.ofAttribute : Option Value → Member
  | some a => .value a
  | none => .absent

/-- The state of a loop has attributes only. -/
theorem Member.find_loop {r : LoopRef} {name : String} {c c' : Cells} {a : Option Value}
    (h : Builtin.attribute? (.loop r) name c = .ok a c') :
    Member.find (.loop r) name c = .ok (.ofAttribute a) c' := by
  refine (Step.bind_ok h).trans ?_
  cases a <;> rfl

namespace Cells

variable {c : Cells} {r : LoopRef} {vs : List Value} {i : Int}

/-- A new loop has all items of its source left. -/
theorem left_newLoop {source : Source} (h : source.Yields c c.loops.size vs) :
    Left { c with loops := c.loops.alloc ⟨source, none, -1⟩ } ⟨c.loops.size⟩ vs (-1) := by
  have hget : (c.loops.alloc ⟨source, none, -1⟩).get c.loops.size = ⟨source, none, -1⟩ := by
    rw [Heap.get_alloc, if_pos rfl]
  refine ⟨by simp, congrArg LoopState.index hget, vs, ?_, ?_⟩
  · rw [congrArg LoopState.source hget]
    refine h.congr rfl rfl (by simp) fun k hk _ => ?_
    rw [Heap.get_alloc, if_neg (Nat.ne_of_lt hk)]
  · rw [congrArg LoopState.ahead hget]
    rfl

namespace Left

/-- Looking ahead tells whether an item is left. -/
theorem lookAhead (h : c.Left r vs i) :
    ∃ c', Run.lookAhead r c = .ok vs.head?.isSome c' ∧ c'.Left r vs i := by
  obtain ⟨hr, rfl, us, hyields, hvs⟩ := h
  obtain ⟨c', hlook, hleft, -⟩ := Run.lookAheadWith_of_takes hr hyields (hyields.takes (Nat.le_refl _)) hvs
  exact ⟨c', hlook, hleft⟩

/-- The first item that is left is taken, and becomes the current one. -/
theorem loopNext (h : c.Left r vs i) :
    ∃ c', Run.loopNext r c = .ok vs.head? c' ∧ c'.Left r vs.tail (i + if vs.head?.isSome then 1 else 0) := by
  obtain ⟨hr, rfl, us, hyields, hvs⟩ := h
  obtain ⟨c', hnext, hleft, -⟩ := Run.loopNextWith_of_takes hr hyields (hyields.takes (Nat.le_refl _)) hvs
  exact ⟨c', hnext, hleft⟩

/-- The attribute that a query reads is its answer. -/
theorem attribute?_query (h : c.Left r vs i) (q : Query) :
    ∃ c', Builtin.attribute? (.loop r) q.member c = .ok (some (q.answer i vs.head?.isSome)) c' ∧
      c'.Left r vs i := by
  obtain ⟨c', hlook, hleft⟩ := h.lookAhead
  obtain ⟨-, rfl, -⟩ := id h
  cases q with
  | index | count | first => exact ⟨c, rfl, h⟩
  | hasNext => exact ⟨c', Step.bind_ok (f := fun b => pure (some (Value.bool b))) hlook, hleft⟩
  | last => exact ⟨c', Step.bind_ok (f := fun b => pure (some (Value.bool !b))) hlook, hleft⟩

/-- Looking for a member of the state of a loop changes nothing about what is left. -/
theorem find (h : c.Left r vs i) (name : String) :
    ∃ m c', Member.find (.loop r) name c = .ok m c' ∧ c'.Left r vs i := by
  rcases Builtin.attribute?_loop r name with ⟨q, rfl⟩ | hnone
  · obtain ⟨c', ha, hleft⟩ := h.attribute?_query q
    exact ⟨_, c', Member.find_loop ha, hleft⟩
  · exact ⟨_, c, Member.find_loop (a := none) (by rw [hnone]; rfl), h⟩

/-- Neither does looking for the members that a property may stand for. -/
theorem candidates (h : c.Left r vs i) (found : List (String × Member)) (names : List String) :
    ∃ found' c', Host.candidates (.loop r) found names c = .ok found' c' ∧ c'.Left r vs i := by
  induction names generalizing c found with
  | nil => exact ⟨found, c, rfl, h⟩
  | cons name names ih =>
    rw [Host.candidates]
    split
    · exact ih h found
    · obtain ⟨m, c', hm, hleft⟩ := h.find name
      have heither {p : Prop} [Decidable p] {y y' : Step (List (String × Member))}
          (hy : ∃ found' c₁, y c' = .ok found' c₁ ∧ c₁.Left r vs i)
          (hy' : ∃ found' c₁, y' c' = .ok found' c₁ ∧ c₁.Left r vs i) :
          ∃ found' c₁, (if p then y else y') c' = .ok found' c₁ ∧ c₁.Left r vs i := by
        split
        · exact hy
        · exact hy'
      have hlists : Run.allLists c' = .ok c'.lists c' := rfl
      rw [Step.bind_ok hm, Step.bind_ok hlists]
      exact heither (ih hleft _) (ih hleft _)

end Left

end Cells

namespace Host

variable {c c' : Cells} {v a : Value} {name : String} {names : List String}

theorem candidates_absent {found : List (String × Member)} (hname : isHiddenName name = false)
    (h : Member.find v name c = .ok .absent c') :
    candidates v found (name :: names) c = candidates v found names c' := by
  have hlists : Run.allLists c' = .ok c'.lists c' := rfl
  rw [candidates, hname, if_neg Bool.false_ne_true, Step.bind_ok h, Step.bind_ok hlists]
  rfl

theorem candidates_value (hname : isHiddenName name = false)
    (h : Member.find v name c = .ok (.value a) c') :
    candidates v [] (name :: names) c = candidates v [(name, .value a)] names c' := by
  have hlists : Run.allLists c' = .ok c'.lists c' := rfl
  rw [candidates, hname, if_neg Bool.false_ne_true, Step.bind_ok h, Step.bind_ok hlists]
  rfl

theorem candidates_alone {other : String} (hname : isHiddenName name = false)
    (hother : isHiddenName other = false) (h : Member.find v name c = .ok (.value a) c')
    (habsent : Member.find v other c' = .ok .absent c') :
    candidates v [] [name, other] c = .ok [(name, .value a)] c' := by
  rw [candidates_value hname h, candidates_absent hother habsent]
  rfl

end Host

namespace Cells.Left

variable {c : Cells} {r : LoopRef} {vs : List Value} {i : Int}

/-- One attribute alone is found for a query. -/
theorem candidates_query (h : c.Left r vs i) (q : Query) :
    ∃ c', Host.candidates (.loop r) [] (propertyNames q.name) c =
        .ok [(q.member, .value (q.answer i vs.head?.isSome))] c' ∧ c'.Left r vs i := by
  obtain ⟨c', hattribute, hleft⟩ := h.attribute?_query q
  have hfind : Member.find (.loop r) q.member c = .ok (.value (q.answer i vs.head?.isSome)) c' :=
    Member.find_loop hattribute
  have habsent (name : String) (c : Cells) (hname : Builtin.attribute? (.loop r) name c = .ok none c) :
      Member.find (.loop r) name c = .ok .absent c := Member.find_loop hname
  refine ⟨c', ?_, hleft⟩
  cases q with
  | index =>
    show Host.candidates (.loop r) [] (propertyNames "index") c = _
    have hnames : propertyNames "index" = ["index", "Index"] := by decide +kernel
    rw [hnames]
    exact Host.candidates_alone (by decide +kernel) (by decide +kernel) hfind (habsent "Index" c' rfl)
  | count =>
    show Host.candidates (.loop r) [] (propertyNames "count") c = _
    have hnames : propertyNames "count" = ["count", "Count"] := by decide +kernel
    rw [hnames]
    exact Host.candidates_alone (by decide +kernel) (by decide +kernel) hfind (habsent "Count" c' rfl)
  | first =>
    show Host.candidates (.loop r) [] (propertyNames "first") c = _
    have hnames : propertyNames "first" = ["first", "First"] := by decide +kernel
    rw [hnames]
    exact Host.candidates_alone (by decide +kernel) (by decide +kernel) hfind (habsent "First" c' rfl)
  | hasNext =>
    show Host.candidates (.loop r) [] (propertyNames "hasNext") c = _
    have hnames : propertyNames "hasNext" = ["hasNext", "HasNext", "has_next"] := by decide +kernel
    rw [hnames, Host.candidates_absent (by decide +kernel) (habsent "hasNext" c rfl),
      Host.candidates_absent (by decide +kernel) (habsent "HasNext" c rfl)]
    exact Host.candidates_value (by decide +kernel) hfind
  | last =>
    show Host.candidates (.loop r) [] (propertyNames "last") c = _
    have hnames : propertyNames "last" = ["last", "Last"] := by decide +kernel
    rw [hnames]
    exact Host.candidates_alone (by decide +kernel) (by decide +kernel) hfind (habsent "Last" c' rfl)

end Cells.Left

end Stencil
