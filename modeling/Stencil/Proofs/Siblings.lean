import Stencil.Proofs.Reading

/-!
# The white space rule on a whole sequence

The rule on white space before assignments is applied node by node while a sequence is being read.
`givesWayAt` states it on the nodes as they were read, before any of them was dropped, and the sequence
that reading gives is that of the nodes without those that give way: `Read.nodes_eq_ok_iff`,
`assemble_eq`. A macro body may lose its first node as well: `dropInitialBlank_assemble`.
-/

namespace Stencil

/-- Nodes that are read one after another up to a mark: what each reading of an item gives. -/
inductive ReadsItems (readInner : ReadInner) : Nat → Reader → List Node → Mark → Reader → Prop
  | mark {n : Nat} {r r' : Reader} {m : Mark} (h : Read.item readInner n r = .ok (.mark m) r') :
      ReadsItems readInner (n + 1) r [] m r'
  | node {n : Nat} {r r₁ r' : Reader} {x : Node} {xs : List Node} {m : Mark}
      (h : Read.item readInner n r = .ok (.node x) r₁) (hs : ReadsItems readInner n r₁ xs m r') :
      ReadsItems readInner (n + 1) r (x :: xs) m r'

/-! ### The rule -/

/-- Whether a node may be dropped before an assignment, given the node before it: blank text on one line
that begins the sequence or follows a reference, or blank text after a comment or a directive. -/
def Node.givesWayAfter (before : Option Node) (space : Node) : Bool :=
  match before with
  | none => space.isBlankOnLine
  | some before =>
    before.isReference && space.isBlankOnLine || (before.isComment || before.isDirective) && space.isBlank

/-- Whether the node at a place of a sequence, as it was read, is dropped before an assignment. -/
def givesWayAt (raw : List Node) (i : Nat) : Bool :=
  raw[i + 1]?.any Node.isAssign && raw[i]?.any (Node.givesWayAfter (if i = 0 then none else raw[i - 1]?))

/-- Whether the node at a place of a macro body, as it was read, is dropped: also blank text of several
lines that begins the body, before an assignment. -/
def givesWayInMacro (raw : List Node) (i : Nat) : Bool :=
  givesWayAt raw i || i == 0 && raw[0]?.any Node.isBlank && raw[1]?.any Node.isAssign

/-- The nodes of a sequence, counted from `k` on, without those at the places that `drop` names. -/
def leaveOut (drop : Nat → Bool) (k : Nat) (raw : List Node) : List Node :=
  ((raw.zipIdx k).filter fun p => !drop p.2).map Prod.fst

/-- The characters of a text node that are not blank. -/
def Node.solid : Node → List Char
  | .text _ s => s.toList.filter fun c => !Text.isBlank c
  | _ => []

/-- The characters of the texts of a sequence that are not blank. -/
def solidText (nodes : List Node) : List Char :=
  nodes.flatMap Node.solid

namespace Node

variable {x before : Node}

theorem isBlank_of_onLine (h : x.isBlankOnLine = true) : x.isBlank = true := by
  cases x with
  | text p s => exact (Bool.and_eq_true_iff.1 h).1
  | _ => cases h

theorem isBlank_of_givesWayAfter {before : Option Node} (h : givesWayAfter before x = true) :
    x.isBlank = true := by
  cases before with
  | none => exact isBlank_of_onLine h
  | some before =>
    rcases Bool.or_eq_true_iff.1 h with h | h
    · exact isBlank_of_onLine (Bool.and_eq_true_iff.1 h).2
    · exact (Bool.and_eq_true_iff.1 h).2

theorem not_isBlank_of_isAssign (h : x.isAssign = true) : x.isBlank = false := by
  cases x with
  | assign => rfl
  | _ => cases h

/-- Nothing gives way after blank text. -/
theorem not_givesWayAfter_blank (h : before.isBlank = true) : givesWayAfter (some before) x = false := by
  cases before with
  | text => rfl
  | _ => cases h

theorem solid_of_isBlank (h : x.isBlank = true) : x.solid = [] := by
  cases x with
  | text p s =>
    refine List.filter_eq_nil_iff.2 fun c hc => ?_
    simp [List.all_eq_true.1 h c hc]
  | _ => cases h

end Node

/-- The rule as it is applied while the sequence grows looks at the same two nodes. -/
theorem givesWay_cons (space : Node) (done : List Node) :
    givesWay (space :: done) = space.givesWayAfter done.head? := by
  cases done with
  | nil => rfl
  | cons before done =>
    rw [givesWay, List.head?_cons, Node.givesWayAfter]
    cases before with
    | output e => cases e <;> simp [Node.isReference, Node.isComment, Node.isDirective]
    | _ => simp [Node.isReference, Node.isComment, Node.isDirective]

section Places

variable {drop : Nat → Bool} {k : Nat} {x next : Node} {passed raw rest : List Node} {i : Nat}

theorem leaveOut_cons : leaveOut drop k (x :: raw) =
    if drop k = true then leaveOut drop (k + 1) raw else x :: leaveOut drop (k + 1) raw := by
  rw [leaveOut, leaveOut, List.zipIdx_cons, List.filter_cons]
  cases drop k <;> simp

theorem leaveOut_drops (h : drop k = true) : leaveOut drop k (x :: raw) = leaveOut drop (k + 1) raw := by
  rw [leaveOut_cons, if_pos h]

theorem leaveOut_stays (h : drop k = false) :
    leaveOut drop k (x :: raw) = x :: leaveOut drop (k + 1) raw := by
  rw [leaveOut_cons, h, if_neg Bool.false_ne_true]

theorem leaveOut_append (drop : Nat → Bool) (k : Nat) (xs ys : List Node) :
    leaveOut drop k (xs ++ ys) = leaveOut drop k xs ++ leaveOut drop (k + xs.length) ys := by
  rw [leaveOut, leaveOut, leaveOut, List.zipIdx_append, List.filter_append, List.map_append]

theorem leaveOut_congr {drop' : Nat → Bool} (h : ∀ i, k ≤ i → drop i = drop' i) :
    leaveOut drop k raw = leaveOut drop' k raw := by
  induction raw generalizing k with
  | nil => rfl
  | cons x raw ih =>
    rw [leaveOut_cons, leaveOut_cons, h k (Nat.le_refl k), ih fun i hi => h i (Nat.le_of_succ_le hi)]

/-- No node is moved. -/
theorem leaveOut_sublist (drop : Nat → Bool) (k : Nat) (raw : List Node) :
    (leaveOut drop k raw).Sublist raw := by
  have h := (List.filter_sublist (p := fun p => !drop p.2) (l := raw.zipIdx k)).map Prod.fst
  rwa [List.zipIdx_map_fst] at h

/-- Where only blank nodes are left out, no character of a text is lost but blanks. -/
theorem solidText_leaveOut (h : ∀ i x, drop (k + i) = true → raw[i]? = some x → x.isBlank = true) :
    solidText (leaveOut drop k raw) = solidText raw := by
  rw [solidText, solidText]
  induction raw generalizing k with
  | nil => rfl
  | cons x raw ih =>
    have hrest := ih (k := k + 1) fun i y hi hy =>
      h (i + 1) y (by rwa [Nat.add_comm i 1, ← Nat.add_assoc]) hy
    rw [leaveOut_cons]
    split
    · rename_i hk
      rw [hrest, List.flatMap_cons, Node.solid_of_isBlank (h 0 x hk rfl), List.nil_append]
    · rw [List.flatMap_cons, List.flatMap_cons, hrest]

/-- Where only blank nodes are left out, nodes in a row that are not blank stay in a row. -/
theorem infix_leaveOut {row : List Node} (h : ∀ i x, drop i = true → raw[i]? = some x → x.isBlank = true)
    (hrow : ∀ x ∈ row, x.isBlank = false) (hraw : row <:+: raw) : row <:+: leaveOut drop 0 raw := by
  obtain ⟨before, after, rfl⟩ := hraw
  have hstay (i : Nat) (hi : i < row.length) : drop (before.length + i) = false := by
    refine Bool.eq_false_iff.2 fun hdrop => ?_
    have hblank := h _ row[i] hdrop (by simp [List.getElem?_append, hi])
    rw [hrow _ (List.getElem_mem hi)] at hblank
    cases hblank
  have hself : leaveOut drop before.length row = row := by
    have hall : (row.zipIdx before.length).filter (fun p => !drop p.2) = row.zipIdx before.length := by
      refine List.filter_eq_self.2 fun p hp => ?_
      obtain ⟨hle, hlt, -⟩ := List.mem_zipIdx hp
      rw [← Nat.add_sub_cancel' hle, hstay _ (by omega)]
      rfl
    rw [leaveOut, hall, List.zipIdx_map_fst]
  rw [leaveOut_append, leaveOut_append, Nat.zero_add, hself]
  exact ⟨_, _, rfl⟩

theorem isBlank_of_givesWayAt (h : givesWayAt raw i = true) (hx : raw[i]? = some x) : x.isBlank = true := by
  rw [givesWayAt, hx] at h
  exact Node.isBlank_of_givesWayAfter (Bool.and_eq_true_iff.1 h).2

theorem isBlank_of_givesWayInMacro (h : givesWayInMacro raw i = true) (hx : raw[i]? = some x) :
    x.isBlank = true := by
  rcases Bool.or_eq_true_iff.1 h with h | h
  · exact isBlank_of_givesWayAt h hx
  · obtain ⟨h, -⟩ := Bool.and_eq_true_iff.1 h
    obtain ⟨h0, h⟩ := Bool.and_eq_true_iff.1 h
    obtain rfl := beq_iff_eq.1 h0
    rw [hx] at h
    exact h

theorem givesWayAt_append : givesWayAt (passed ++ x :: next :: rest) passed.length =
    (next.isAssign && x.givesWayAfter passed.getLast?) := by
  have hbefore : (if passed.length = 0 then none else (passed ++ x :: next :: rest)[passed.length - 1]?)
      = passed.getLast? := by
    rcases List.eq_nil_or_concat passed with rfl | ⟨passed, y, rfl⟩ <;> simp
  rw [givesWayAt, hbefore]
  simp

/-- The last node stays. -/
theorem givesWayAt_last (passed : List Node) (x : Node) :
    givesWayAt (passed ++ [x]) passed.length = false := by
  simp [givesWayAt]

end Places

/-! ### The sequence as it grows -/

/-- The nodes that are added after `x` leave out what gives way from `x` on. If `x` is blank, the node before
it is still the last one that was kept, since only an assignment drops a node. -/
theorem reverse_foldl_addNode (rest passed done : List Node) (x : Node)
    (hx : x.isBlank = true → done.head? = passed.getLast?) :
    (rest.foldl addNode (x :: done)).reverse =
      done.reverse ++ leaveOut (givesWayAt (passed ++ x :: rest)) passed.length (x :: rest) := by
  induction rest generalizing passed done x with
  | nil =>
    rw [leaveOut_stays (givesWayAt_last passed x)]
    exact List.reverse_cons
  | cons next rest ih =>
    have hsame : (next.isAssign && givesWay (x :: done)) =
        givesWayAt (passed ++ x :: next :: rest) passed.length := by
      rw [givesWayAt_append, givesWay_cons]
      cases hb : x.isBlank with
      | true => rw [hx hb]
      | false =>
        have hstays (before : Option Node) : x.givesWayAfter before = false :=
          Bool.eq_false_iff.2 fun h => by rw [Node.isBlank_of_givesWayAfter h] at hb; cases hb
        rw [hstays, hstays]
    have happend : passed ++ x :: next :: rest = (passed ++ [x]) ++ next :: rest := by simp
    have hlength : passed.length + 1 = (passed ++ [x]).length := by simp
    rw [List.foldl_cons, addNode, hsame]
    cases hdrop : givesWayAt (passed ++ x :: next :: rest) passed.length with
    | true =>
      rw [hdrop] at hsame
      rw [if_pos rfl, leaveOut_drops hdrop, happend, hlength]
      refine ih (passed ++ [x]) done next fun hb => ?_
      rw [Node.not_isBlank_of_isAssign (Bool.and_eq_true_iff.1 hsame).1] at hb
      cases hb
    | false =>
      rw [if_neg Bool.false_ne_true, leaveOut_stays hdrop, happend, hlength,
        ih (passed ++ [x]) (x :: done) next fun _ => by simp, List.reverse_cons, List.append_assoc]
      rfl

/-- What a sequence keeps of the nodes that are added to it. -/
theorem assemble_eq (raw : List Node) : assemble raw = leaveOut (givesWayAt raw) 0 raw := by
  cases raw with
  | nil => rfl
  | cons x rest =>
    have hfirst : addNode [] x = [x] := by simp [addNode, givesWay]
    rw [assemble, List.foldl_cons, hfirst]
    exact reverse_foldl_addNode rest [] [] x fun _ => rfl

/-- A line feed after a comment gives way to an assignment, and text with a letter does not. -/
example (p : Place) (e : Expr) :
    assemble [.comment p, .text p "\n", .assign "x" e, .text p " a ", .assign "y" e] =
      [.comment p, .assign "x" e, .text p " a ", .assign "y" e] := by
  rfl

theorem dropInitialBlank_cons {x : Node} {nodes : List Node} (h : x.isBlank = false) :
    dropInitialBlank (x :: nodes) = x :: nodes := by
  cases nodes with
  | nil => rfl
  | cons next nodes => rw [dropInitialBlank, h, Bool.false_and, if_neg Bool.false_ne_true]

/-- A macro body also drops the blank text that begins it. The node after blank text is dropped by no
rule, so it is still the one that was read there. -/
theorem dropInitialBlank_assemble (raw : List Node) :
    dropInitialBlank (assemble raw) = leaveOut (givesWayInMacro raw) 0 raw := by
  rw [assemble_eq]
  match raw with
  | [] => rfl
  | [x] =>
    have hmacro : givesWayInMacro [x] 0 = false := by simp [givesWayInMacro, givesWayAt]
    have hplain : givesWayAt [x] 0 = false := givesWayAt_last [] x
    rw [leaveOut_stays hmacro, leaveOut_stays hplain]
    rfl
  | x :: next :: rest =>
    have hlater (k : Nat) (nodes : List Node) : leaveOut (givesWayInMacro (x :: next :: rest)) (k + 1) nodes =
        leaveOut (givesWayAt (x :: next :: rest)) (k + 1) nodes := by
      refine leaveOut_congr fun i hi => ?_
      rw [givesWayInMacro, beq_false_of_ne (by omega), Bool.false_and, Bool.false_and, Bool.or_false]
    have hmacro : givesWayInMacro (x :: next :: rest) 0 =
        (givesWayAt (x :: next :: rest) 0 || x.isBlank && next.isAssign) := rfl
    cases hfirst : givesWayAt (x :: next :: rest) 0 with
    | true =>
      have hassign : next.isAssign = true := (Bool.and_eq_true_iff.1 hfirst).1
      have hnext := Node.not_isBlank_of_isAssign hassign
      have hstays : givesWayAt (x :: next :: rest) 1 = false :=
        Bool.eq_false_iff.2 fun h => by simp [isBlank_of_givesWayAt h rfl] at hnext
      rw [hfirst, Bool.true_or] at hmacro
      rw [leaveOut_drops hfirst, leaveOut_drops hmacro, hlater, leaveOut_stays hstays,
        dropInitialBlank_cons hnext]
    | false =>
      rw [hfirst, Bool.false_or] at hmacro
      have hbody : leaveOut (givesWayInMacro (x :: next :: rest)) 0 (x :: next :: rest) = _ := leaveOut_cons
      rw [leaveOut_stays hfirst, hbody, hmacro, hlater]
      cases hblank : x.isBlank with
      | true =>
        have hstays : givesWayAt (x :: next :: rest) 1 = false := by
          have hafter : next.givesWayAfter (some x) = false := Node.not_givesWayAfter_blank hblank
          simp [givesWayAt, hafter]
        rw [leaveOut_stays hstays, dropInitialBlank, hblank]
      | false => rw [dropInitialBlank_cons hblank, Bool.false_and, if_neg Bool.false_ne_true]

/-- Nodes in a row that are not blank stay in a row, in a sequence and in a macro body. -/
theorem infix_assemble {row raw : List Node} (hrow : ∀ x ∈ row, x.isBlank = false) (hraw : row <:+: raw) :
    row <:+: assemble raw ∧ row <:+: dropInitialBlank (assemble raw) := by
  rw [dropInitialBlank_assemble, assemble_eq]
  exact ⟨infix_leaveOut (fun _ _ h hx => isBlank_of_givesWayAt h hx) hrow hraw,
    infix_leaveOut (fun _ _ h hx => isBlank_of_givesWayInMacro h hx) hrow hraw⟩

/-! ### Reading -/

/-- Reads the name and the parameters of a macro, from its parenthesis on. -/
def Scan.macroHead (n : Nat) : Scan (String × List String) := do
  expect '('
  skipBlanks
  let x ← name "Macro name"
  return (x, ← parameters n)

namespace Read

variable {α β : Type} {readInner : ReadInner} {n : Nat} {r r' : Reader} {m : Mark}

theorem bind_eq_ok {x : Read β} {f : β → Read α} {a : α} :
    (x >>= f) r = .ok a r' ↔ ∃ b r₁, x r = .ok b r₁ ∧ f b r₁ = .ok a r' := by
  show EStateM.bind x f r = _ ↔ _
  cases hx : x r <;> simp [EStateM.bind, hx, and_assoc]

theorem pure_eq_ok {a b : α} : (pure a : Read α) r = .ok b r' ↔ b = a ∧ r' = r := by
  show EStateM.Result.ok a r = _ ↔ _
  simp [eq_comm]

theorem scan_eq_ok {x : Scan α} {a : α} :
    (x : Read α) r = .ok a r' ↔ ∃ s, x r.scanner = .ok a s ∧ r' = ⟨s, r.macros⟩ := by
  show Read.scan x r = _ ↔ _
  rw [Read.scan]
  cases x r.scanner <;> simp [eq_comm, and_assoc]

theorem scan_bind (x : Scan β) (f : β → Scan α) :
    Read.scan (x >>= f) = Read.scan x >>= fun b => Read.scan (f b) := by
  funext r
  show Read.scan (EStateM.bind x f) r = EStateM.bind (Read.scan x) (fun b => Read.scan (f b)) r
  simp only [Read.scan, EStateM.bind]
  cases x r.scanner <;> rfl

theorem close_eq_ok {allowed : List Mark} {inside : Enclosure} {s s' : Scanner} {u : Unit} :
    Scan.close allowed inside m s = .ok u s' ↔ m ∈ allowed ∧ s' = s := by
  rw [Scan.close]
  split
  · rename_i h
    simp only [List.contains_iff_mem] at h
    show EStateM.Result.ok () s = _ ↔ _
    simp [h, eq_comm]
  · rename_i h
    simp only [List.contains_iff_mem] at h
    simp only [h, false_and, iff_false]
    exact fun hfail => by cases hfail

/-- Reading a sequence reads its items one after another, and adds each node to those before it. -/
theorem nodes_eq_ok_iff {done body : List Node} :
    nodes readInner n done r = .ok (body, m) r' ↔
      ∃ raw, ReadsItems readInner n r raw m r' ∧ body = (raw.foldl addNode done).reverse := by
  induction n generalizing done r with
  | zero =>
    constructor
    · intro h
      cases h
    · rintro ⟨raw, h, -⟩
      cases h
  | succ n ih =>
    rw [nodes, bind_eq_ok]
    constructor
    · rintro ⟨i, r₁, hi, h⟩
      cases i with
      | mark found =>
        obtain ⟨hends, rfl⟩ := pure_eq_ok.1 h
        obtain ⟨rfl, rfl⟩ := Prod.mk.inj hends
        exact ⟨[], .mark hi, rfl⟩
      | node x =>
        obtain ⟨raw, hraw, rfl⟩ := ih.1 h
        exact ⟨x :: raw, .node hi hraw, rfl⟩
    · rintro ⟨raw, hraw, rfl⟩
      cases hraw with
      | mark hi => exact ⟨_, _, hi, rfl⟩
      | node hi hrest => exact ⟨_, _, hi, ih.2 ⟨_, hrest, rfl⟩⟩

/-- A macro is defined by its head and by the nodes up to its end. -/
theorem macroDefinition_eq : macroDefinition readInner (n + 1) = (do
    let place ← Scan.here
    let (x, params) ← Scan.macroHead n
    let (body, _) ← block readInner n [.endBlock] (.directive "#macro" place.line)
    define ⟨place, x, params, dropInitialBlank body⟩
    return .sequence (← Scan.here) []) := by
  rw [macroDefinition]
  simp only [Scan.macroHead, liftM, monadLift, MonadLift.monadLift, scan_bind, bind_assoc]
  rfl

/-- A block is a sequence after one line feed, up to a mark that it allows. -/
theorem block_eq_ok_iff {allowed : List Mark} {inside : Enclosure} {body : List Node} :
    block readInner n allowed inside r = .ok (body, m) r' ↔
      ∃ k raw, n = k + 1 ∧ ReadsItems readInner k ⟨r.scanner.skipNewline, r.macros⟩ raw m r' ∧
        m ∈ allowed ∧ body = assemble raw := by
  cases n with
  | zero =>
    constructor
    · intro h
      cases h
    · rintro ⟨k, raw, h, -⟩
      cases h
  | succ n =>
    rw [block, bind_eq_ok]
    constructor
    · rintro ⟨_, r₁, hskip, h⟩
      obtain ⟨⟨found, m'⟩, r₂, hnodes, h⟩ := bind_eq_ok.1 h
      obtain ⟨_, r₃, hclose, h⟩ := bind_eq_ok.1 h
      obtain ⟨hends, rfl⟩ := pure_eq_ok.1 h
      obtain ⟨rfl, rfl⟩ := Prod.mk.inj hends
      obtain ⟨s, hmark, rfl⟩ := scan_eq_ok.1 hclose
      obtain ⟨hallowed, rfl⟩ := close_eq_ok.1 hmark
      obtain ⟨raw, hraw, rfl⟩ := nodes_eq_ok_iff.1 hnodes
      cases hskip
      exact ⟨n, raw, rfl, hraw, hallowed, rfl⟩
    · rintro ⟨k, raw, h, hraw, hallowed, rfl⟩
      obtain rfl := Nat.succ.inj h
      refine ⟨(), _, rfl, bind_eq_ok.2 ⟨_, _, nodes_eq_ok_iff.2 ⟨raw, hraw, rfl⟩, bind_eq_ok.2 ⟨(), r', ?_, rfl⟩⟩⟩
      exact scan_eq_ok.2 ⟨r'.scanner, close_eq_ok.2 ⟨hallowed, rfl⟩, rfl⟩

theorem macroDefinition_eq_ok_iff {x : Node} : macroDefinition readInner n r = .ok x r' ↔
    ∃ k name params s raw r₁, n = k + 2 ∧ Scan.macroHead (k + 1) r.scanner = .ok (name, params) s ∧
      ReadsItems readInner k ⟨s.skipNewline, r.macros⟩ raw .endBlock r₁ ∧
      r' = ⟨r₁.scanner, addMacro r₁.macros
        ⟨r.scanner.place, name, params, dropInitialBlank (assemble raw)⟩⟩ ∧
      x = .sequence r₁.scanner.place [] := by
  cases n with
  | zero =>
    constructor
    · intro h
      cases h
    · rintro ⟨k, name, params, s, raw, r₁, h, -⟩
      cases h
  | succ n =>
    rw [macroDefinition_eq, bind_eq_ok]
    constructor
    · rintro ⟨place, r₂, hplace, h⟩
      obtain ⟨⟨name, params⟩, r₃, hhead, h⟩ := bind_eq_ok.1 h
      obtain ⟨⟨body, m⟩, r₁, hblock, h⟩ := bind_eq_ok.1 h
      obtain ⟨_, r₄, hdefine, h⟩ := bind_eq_ok.1 h
      cases hplace
      cases hdefine
      obtain ⟨s, hs, rfl⟩ := scan_eq_ok.1 hhead
      obtain ⟨k, raw, rfl, hraw, hm, rfl⟩ := block_eq_ok_iff.1 hblock
      obtain rfl := List.mem_singleton.1 hm
      cases h
      exact ⟨k, name, params, s, raw, r₁, rfl, hs, hraw, rfl, rfl⟩
    · rintro ⟨k, name, params, s, raw, r₁, h, hhead, hraw, rfl, rfl⟩
      obtain rfl := Nat.succ.inj h
      refine ⟨r.scanner.place, r, rfl, bind_eq_ok.2 ⟨(name, params), _, scan_eq_ok.2 ⟨s, hhead, rfl⟩, ?_⟩⟩
      refine bind_eq_ok.2 ⟨_, r₁, block_eq_ok_iff.2 ⟨k, raw, rfl, hraw, List.mem_singleton.2 rfl, rfl⟩, ?_⟩
      exact bind_eq_ok.2 ⟨(), _, rfl, rfl⟩

/-- The white space rule on whole sequences. A sequence is read exactly if its items can be read one after
another up to a mark, and it then holds the nodes that were read without those that give way to an
assignment after them. A macro is defined with the nodes of its block that are left in this way, of which
blank text in front of an assignment at the beginning is left out as well. What is left stands in the
order in which it was read, and no character of a text is lost but blanks. -/
theorem blanks_before_assign (readInner : ReadInner) (n : Nat) (r r' : Reader) :
    (∀ body m, nodes readInner n [] r = .ok (body, m) r' ↔
      ∃ raw, ReadsItems readInner n r raw m r' ∧ body = leaveOut (givesWayAt raw) 0 raw) ∧
    (∀ x, macroDefinition readInner n r = .ok x r' ↔
      ∃ k name params s raw r₁, n = k + 2 ∧ Scan.macroHead (k + 1) r.scanner = .ok (name, params) s ∧
        ReadsItems readInner k ⟨s.skipNewline, r.macros⟩ raw .endBlock r₁ ∧
        r' = ⟨r₁.scanner, addMacro r₁.macros
          ⟨r.scanner.place, name, params, leaveOut (givesWayInMacro raw) 0 raw⟩⟩ ∧
        x = .sequence r₁.scanner.place []) ∧
    ∀ raw : List Node,
      (leaveOut (givesWayAt raw) 0 raw).Sublist raw ∧
      (leaveOut (givesWayInMacro raw) 0 raw).Sublist raw ∧
      solidText (leaveOut (givesWayAt raw) 0 raw) = solidText raw ∧
      solidText (leaveOut (givesWayInMacro raw) 0 raw) = solidText raw := by
  refine ⟨fun body m => ?_, fun x => ?_, fun raw => ⟨leaveOut_sublist .., leaveOut_sublist .., ?_, ?_⟩⟩
  · simp only [nodes_eq_ok_iff, ← assemble_eq]
    rfl
  · simp only [macroDefinition_eq_ok_iff, dropInitialBlank_assemble]
  · exact solidText_leaveOut fun i y hi hy => isBlank_of_givesWayAt (Nat.zero_add i ▸ hi) hy
  · exact solidText_leaveOut fun i y hi hy => isBlank_of_givesWayInMacro (Nat.zero_add i ▸ hi) hy

end Read

end Stencil
