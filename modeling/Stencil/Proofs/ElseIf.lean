import Stencil.Proofs.History
import Stencil.Proofs.InPlace

/-!
# Chains of `#elseif`

A choice with further conditions stands for choices nested in the branches of `#else`: `#elseif` goes on
with the choice, and `#else` with a choice in it closes one block more. Both forms are read to the same
conditions and bodies, and the text after them is read alike, up to the line feed after the last `#end`.
-/

namespace Stencil

open Stencil.Text

/-! ### Texts -/

/-- The characters of a text as they are read. -/
def readChars (s : String) : List Char :=
  unifyNewlines s.toList

/-- A condition in parentheses, and a body. -/
def armText (arm : String × String) : String :=
  " (" ++ arm.1 ++ ")" ++ arm.2

/-- What ends a choice, before more text: the branch of `#else`, if there is one, and the mark of the end. -/
def endText (other : Option String) (rest : String) : String :=
  match other with
  | none => "#end" ++ rest
  | some b => "#\x7belse\x7d" ++ b ++ ("#end" ++ rest)

/-- The arms of a choice after the first one, and its end, before more text. -/
def elseIfs (other : Option String) : List (String × String) → String → String
  | [], rest => endText other rest
  | arm :: arms, rest => "#elseif" ++ armText arm ++ elseIfs other arms rest

/-- The same arms, each in a choice of its own in the branch of `#else` of the one before it. -/
def elses (other : Option String) : List (String × String) → String → String
  | [], rest => endText other rest
  | arm :: arms, rest => "#\x7belse\x7d" ++ ("#if" ++ armText arm ++ elses other arms ("#end" ++ rest))

/-- Line ends are unified in each of two texts by itself, unless one meets the other. -/
theorem readChars_append {t : String} (ht : t.toList.head? ≠ some '\n') (s : String) :
    readChars (s ++ t) = readChars s ++ readChars t := by
  rw [readChars, readChars, readChars, String.toList_append]
  cases hcs : t.toList with
  | nil => rw [List.append_nil, unifyNewlines, List.append_nil]
  | cons c cs =>
    rw [hcs] at ht
    exact unifyNewlines_append_cons (fun hc => ht (congrArg some hc)) _ _

theorem readChars_mark {w : String} (hw : '\r' ∉ w.toList) (t : String) :
    readChars (w ++ t) = w.toList ++ readChars t := by
  rw [readChars, String.toList_append, unifyNewlines_append_of_no_return hw]
  rfl

theorem head?_endText (other : Option String) (rest : String) : (endText other rest).toList.head? = some '#' := by
  cases other <;> simp [endText, String.toList_append]

theorem head?_elseIfs (other : Option String) (arms : List (String × String)) (rest : String) :
    (elseIfs other arms rest).toList.head? = some '#' := by
  cases arms with
  | nil => exact head?_endText other rest
  | cons arm arms => simp [elseIfs, String.toList_append]

theorem head?_elses (other : Option String) (arms : List (String × String)) (rest : String) :
    (elses other arms rest).toList.head? = some '#' := by
  cases arms with
  | nil => exact head?_endText other rest
  | cons arm arms => simp [elses, String.toList_append]

theorem readChars_end (t : String) : readChars ("#end" ++ t) = '#' :: ("end".toList ++ readChars t) :=
  readChars_mark (by decide) t

theorem readChars_if (t : String) : readChars ("#if" ++ t) = '#' :: ("if".toList ++ readChars t) :=
  readChars_mark (by decide) t

theorem readChars_elseIf (t : String) : readChars ("#elseif" ++ t) = '#' :: ("elseif".toList ++ readChars t) :=
  readChars_mark (by decide) t

theorem readChars_otherwise (t : String) :
    readChars ("#\x7belse\x7d" ++ t) = '#' :: '\x7b' :: ("else".toList ++ '\x7d' :: readChars t) :=
  readChars_mark (by decide) t

theorem readChars_of_hash {t : String} (ht : t.toList.head? = some '#') : ∃ more, readChars t = '#' :: more := by
  obtain ⟨cs, hcs⟩ := List.head?_eq_some_iff.1 ht
  exact ⟨unifyNewlines cs, by rw [readChars, hcs]; rfl⟩

/-- What follows the first arms is more than a hash sign. -/
theorem readChars_elseIfs (other : Option String) (arms : List (String × String)) (rest : String) :
    ∃ more, more ≠ [] ∧ readChars (elseIfs other arms rest) = '#' :: more := by
  cases arms with
  | nil =>
    cases other with
    | none => exact ⟨_, by simp, readChars_end _⟩
    | some b =>
      rw [elseIfs, endText, String.append_assoc]
      exact ⟨_, by simp, readChars_otherwise _⟩
  | cons arm arms =>
    rw [elseIfs, String.append_assoc]
    exact ⟨_, by simp, readChars_elseIf _⟩

/-- A condition and a body begin with a blank, and their characters do not depend on what follows them. -/
theorem readChars_arm (arm : String × String) :
    ∃ p, ∀ t : String, t.toList.head? = some '#' → readChars (armText arm ++ t) = ' ' :: (p ++ readChars t) := by
  refine ⟨readChars ("(" ++ arm.1 ++ ")" ++ arm.2), fun t ht => ?_⟩
  have hblank : armText arm ++ t = " " ++ (("(" ++ arm.1 ++ ")" ++ arm.2) ++ t) := by
    simp only [armText, ← String.append_assoc]
    rfl
  rw [hblank, readChars_mark (by decide), readChars_append (by simp [ht])]
  rfl

/-! ### Trees -/

/-- What a choice takes when its condition is false, read as a chain: further choices, and in the end the
nodes of `#else`. -/
inductive Chained (no : List Node) : List (Expr × List Node) → Node → Prop
  | nil {p : Place} : Chained no [] (.sequence p no)
  | cons {p : Place} {c : Expr} {yes : List Node} {conds : List (Expr × List Node)} {x : Node}
      (h : Chained no conds x) : Chained no ((c, yes) :: conds) (.choose p c yes x)

/-- The same, read as choices in the branches of `#else`. -/
inductive Nested (no : List Node) : List (Expr × List Node) → Node → Prop
  | nil {p : Place} : Nested no [] (.sequence p no)
  | cons {p q : Place} {c : Expr} {yes : List Node} {conds : List (Expr × List Node)} {x : Node}
      (h : Nested no conds x) : Nested no ((c, yes) :: conds) (.sequence p [.choose q c yes x])

/-- Evaluates conditions in their order up to the first true one, and renders what belongs to it, or what is
left if none is true. -/
def firstTrue (scope : Scope) (no : List Node) : List (Expr × List Node) → Script scope Unit
  | [] => renderNodes scope no
  | (c, yes) :: conds => do
    if (← evalExpr scope c true).isTrue then renderNodes scope yes
    else firstTrue scope no conds

section Rendering

variable {no : List Node} {conds : List (Expr × List Node)} {x : Node} {scope : Scope} {d : Deeper}

theorem run_choose {p : Place} {c : Expr} {yes : List Node}
    (h : (renderNode scope x).run d = (firstTrue scope no conds).run d) :
    (renderNode scope (.choose p c yes x)).run d = (firstTrue scope no ((c, yes) :: conds)).run d := by
  rw [renderNode, firstTrue, Script.run_bind, Script.run_bind]
  congr 1
  funext v
  split
  · rfl
  · exact h

theorem Chained.run (h : Chained no conds x) : (renderNode scope x).run d = (firstTrue scope no conds).run d := by
  induction h with
  | nil => rfl
  | cons _ ih => exact run_choose ih

theorem Nested.run (h : Nested no conds x) : (renderNode scope x).run d = (firstTrue scope no conds).run d := by
  induction h with
  | nil => rfl
  | @cons p q c yes conds x _ ih =>
    have hone : (renderNode scope (.sequence p [.choose q c yes x])).run d =
        (renderNode scope (.choose q c yes x)).run d := bind_pure _
    exact hone.trans (run_choose ih)

end Rendering

/-! ### What stands in the text -/

/-- Reads the condition of a choice, in parentheses, and a line feed after it. -/
def Scan.condition (readInner : ReadInner) (n : Nat) : Scan Expr := do
  expect '('
  let c ← expr readInner n
  expect ')'
  skipNewline
  return c

theorem Scan.below_condition {readInner : ReadInner} {n m : Nat} (h : n ≤ m) :
    Below (condition readInner n) (condition readInner m) :=
  .after fun _ => .bind (Call.expr.below h) fun _ => .refl _

theorem Scan.Local.condition {readInner : ReadInner} (n : Nat) : Local (condition readInner n) :=
  (expect _).bind fun _ => (Call.expr.isLocal n).bind fun _ => (expect _).bind fun _ => skipNewline.bind fun _ => pure

theorem Scan.condition_goes {readInner : ReadInner} (n : Nat) (s : Scanner) :
    Goes (condition readInner n) s fun _ _ => True := by
  have hcourse : Course readInner n (8 * s.left + 8) (condition readInner n) s fun _ _ => True :=
    .seq (.expect fun t ht => .seq (.expr (by omega) fun c u hu => .seq (.expect fun v hv =>
      .seq (.skipNewline fun w hw => .pure trivial))))
  exact hcourse.goes fun c t hr => c.goes n t hr

/-- The reader behind a word that stands here. -/
def Reader.past (word : String) (r : Reader) : Reader :=
  { r with scanner := r.scanner.advanceBy word.toList.length }

/-- The reader behind one line feed, if there is one here. -/
def Reader.skipNewline (r : Reader) : Reader :=
  { r with scanner := r.scanner.skipNewline }

theorem Reader.past_atStart {word : String} {resource : Option String} {line : Nat} {cs : List Char}
    {ms : List MacroDef} (hword : '\n' ∉ word.toList) :
    past word ⟨Scanner.atStart resource (word.toList ++ cs) line, ms⟩ = ⟨Scanner.atStart resource cs line, ms⟩ :=
  congrArg (Reader.mk · ms) (Scanner.advanceBy_atStart hword)

/-- A condition and the nodes of a body that are read here, one after the other. -/
inductive ReadsArm (readInner : ReadInner) (r : Reader) (c : Expr) : List Node → Reader → Prop
  | intro {n : Nat} {s : Scanner} {xs : List Node} {r' : Reader}
      (hcondition : Scan.condition readInner n r.scanner = .ok c s)
      (hbody : ReadsNodes readInner ⟨s, r.macros⟩ xs r') : ReadsArm readInner r c (assemble xs) r'

/-- What is read behind a body of a choice, where the arms that follow and the end stand in the text: each body
is read up to the mark that is written after it. -/
inductive ReadsElseIfs (readInner : ReadInner) (other : Option String) (rest : String) :
    List (String × String) → Reader → List (Expr × List Node) → List Node → Prop
  | endBlock {r : Reader} (hother : other = none) : ReadsElseIfs readInner other rest [] r [] []
  | otherwise {b : String} {r r' : Reader} {xs : List Node} (hother : other = some b)
      (hbody : ReadsNodes readInner (r.past "#\x7belse\x7d").skipNewline xs r')
      (hend : r'.scanner.pending = readChars ("#end" ++ rest)) :
      ReadsElseIfs readInner other rest [] r [] (assemble xs)
  | elseIf {arm : String × String} {arms : List (String × String)} {r r' : Reader} {c : Expr}
      {yes no : List Node} {conds : List (Expr × List Node)}
      (harm : ReadsArm readInner (r.past "#elseif") c yes r')
      (hend : r'.scanner.pending = readChars (elseIfs other arms rest))
      (hnext : ReadsElseIfs readInner other rest arms r' conds no) :
      ReadsElseIfs readInner other rest (arm :: arms) r ((c, yes) :: conds) no

namespace Read

/-! ### How a choice is read -/

/-- Goes on with a choice behind the mark after its body. -/
def afterBody (readInner : ReadInner) (n : Nat) (place : Place) (c : Expr) (yes : List Node) : Mark → Read Node
  | .elseIf => return .choose place c yes (← choice readInner n "#elseif")
  | .otherwise => do
    let other ← Scan.here
    let (no, m) ← nodes readInner n []
    Scan.close [.endBlock] (.directive "#else" other.line) m
    return .choose place c yes (.sequence other no)
  | _ => return .choose place c yes (.sequence (← Scan.here) [])

variable {readInner : ReadInner} {n : Nat} {ms : List MacroDef}

theorem choice_eq (opener : String) : choice readInner (n + 2) opener = (do
    let place ← Scan.here
    let c ← Scan.condition readInner (n + 1)
    let (yes, m) ← nodes readInner n []
    Scan.close [.otherwise, .elseIf, .endBlock] (.directive opener place.line) m
    afterBody readInner (n + 1) place c yes m) := by
  rw [choice]
  simp only [Scan.condition, block, liftM, monadLift, MonadLift.monadLift, scan_bind, bind_assoc]
  rfl

/-- Whether a reader behind a body of a choice goes on to the node that is taken when the condition is false. -/
def Branches (readInner : ReadInner) (r : Reader) (x : Node) (r' : Reader) : Prop :=
  ∃ m r₁, m ∈ [Mark.otherwise, .elseIf, .endBlock] ∧ Comes (item readInner) r (.mark m) r₁ ∧
    ∀ place c yes, Comes (fun n => afterBody readInner n place c yes m) r₁ (.choose place c yes x) r'

variable {r r' r'' : Reader} {c : Expr} {yes : List Node} {x : Node} {resource : Option String} {line : Nat}
  {k : List Char}

theorem comes_choice (harm : ReadsArm readInner r c yes r') (h : Branches readInner r' x r'') (opener : String) :
    Comes (fun n => choice readInner n opener) r (.choose r.scanner.place c yes x) r'' := by
  obtain ⟨m, r₁, hallowed, hmark, hafter⟩ := h
  obtain @⟨j, s, xs, _, hcondition, hbody⟩ := harm
  obtain ⟨k, hk⟩ := hbody.nodes hmark []
  obtain ⟨l, hl⟩ := hafter r.scanner.place c (assemble xs)
  refine ⟨max j (max k l) + 2, fun n hn => ?_⟩
  obtain ⟨n, rfl⟩ : ∃ i, n = i + 2 := ⟨n - 2, by omega⟩
  have hc := (@Scan.below_condition readInner j (n + 1) (by omega)).ok hcondition
  refine (congrFun (choice_eq opener) r).trans ?_
  refine bind_eq_ok.2 ⟨_, _, rfl, bind_eq_ok.2 ⟨_, _, scan_eq_ok.2 ⟨_, hc, rfl⟩, ?_⟩⟩
  refine bind_eq_ok.2 ⟨_, _, hk n (by omega), bind_eq_ok.2 ⟨(), r₁, ?_, hl (n + 1) (by omega)⟩⟩
  exact scan_eq_ok.2 ⟨_, close_eq_ok.2 ⟨hallowed, rfl⟩, rfl⟩

/-! ### Marks in place -/

theorem comes_marker (m : Marker) (hk : ∀ c ∈ k.head?, isNameChar c = false) :
    Comes (item readInner) ⟨Scanner.atStart resource ('#' :: (m.name.toList ++ k)) line, ms⟩ (.mark m.mark)
      ⟨(Scanner.atStart resource k line).skipNewline, ms⟩ := by
  have hname := m.isName
  refine ⟨2, fun n hn => ?_⟩
  obtain ⟨n, rfl⟩ : ∃ i, n = i + 2 := ⟨n - 2, by omega⟩
  exact (item_named hname).trans (directive_marker (Scan.directiveName_atStart hname hk))

theorem comes_marker_braced (m : Marker) :
    Comes (item readInner) ⟨Scanner.atStart resource ('#' :: '\x7b' :: (m.name.toList ++ '\x7d' :: k)) line, ms⟩
      (.mark m.mark) ⟨(Scanner.atStart resource k line).skipNewline, ms⟩ := by
  have hname := m.isName
  refine ⟨2, fun n hn => ?_⟩
  obtain ⟨n, rfl⟩ : ∃ i, n = i + 2 := ⟨n - 2, by omega⟩
  refine (item_directive (Scanner.pending_atStart _ _ _) (.inr rfl)).trans (directive_marker ?_)
  exact Scan.directiveName_braced_atStart hname

/-! ### Choices in place -/

theorem replays_arm {p more : List Char} (hmore : more ≠ [])
    (h : ReadsArm readInner ⟨Scanner.atStart resource (p ++ '#' :: more) line, ms⟩ c yes r')
    (hpending : r'.scanner.pending = '#' :: more) :
    ∃ resource' line' ms', r' = ⟨Scanner.atStart resource' ('#' :: more) line', ms'⟩ ∧ ∀ other,
      ReadsArm readInner ⟨Scanner.atStart resource (p ++ '#' :: other) line, ms⟩ c yes
        ⟨Scanner.atStart resource' ('#' :: other) line', ms'⟩ := by
  obtain @⟨n, s, xs, _, hcondition, hbody⟩ := h
  have hsettled := (Scan.condition_goes n _).settled hcondition (.inl rfl)
  obtain ⟨resource', line', ms', hr', hreads⟩ :=
    hbody.replays_after (.condition n) hmore hcondition hsettled hpending
  refine ⟨resource', line', ms', hr', fun other => ?_⟩
  obtain ⟨t, ht, hxs⟩ := hreads other
  exact .intro ht hxs

theorem comes_if {cs : List Char}
    (h : Comes (fun n => choice readInner n "#if") ⟨Scanner.atStart resource (' ' :: cs) line, ms⟩ x r') :
    Comes (item readInner) ⟨Scanner.atStart resource ('#' :: ("if".toList ++ ' ' :: cs)) line, ms⟩ (.node x) r' := by
  have hname : IsName "if" := ⟨'i', ['f'], rfl, rfl, List.all_eq_true.1 rfl⟩
  obtain ⟨j, hj⟩ := h
  refine ⟨j + 2, fun n hn => ?_⟩
  obtain ⟨n, rfl⟩ : ∃ i, n = i + 2 := ⟨n - 2, by omega⟩
  have hdirective : Scan.directiveName
      (Scanner.atStart resource ('#' :: ("if".toList ++ ' ' :: cs)) line).advance = .ok "if" _ :=
    Scan.directiveName_atStart hname (by rintro _ ⟨⟩; decide)
  refine (item_named hname).trans ((directive_if hdirective).trans ?_)
  exact bind_eq_ok.2 ⟨x, r', hj n (by omega), rfl⟩

theorem branches_end (hk : ∀ c ∈ k.head?, isNameChar c = false) :
    ∃ p, Branches readInner ⟨Scanner.atStart resource ('#' :: ("end".toList ++ k)) line, ms⟩ (.sequence p [])
      ⟨(Scanner.atStart resource k line).skipNewline, ms⟩ :=
  ⟨_, .endBlock, _, by decide, comes_marker .endBlock hk, fun _ _ _ => ⟨0, fun _ _ => rfl⟩⟩

theorem branches_otherwise {xs : List Node}
    (hbody : ReadsNodes readInner ⟨(Scanner.atStart resource k line).skipNewline, ms⟩ xs r')
    (hend : Comes (item readInner) r' (.mark .endBlock) r'') :
    ∃ p, Branches readInner
      ⟨Scanner.atStart resource ('#' :: '\x7b' :: ("else".toList ++ '\x7d' :: k)) line, ms⟩
      (.sequence p (assemble xs)) r'' := by
  refine ⟨(Scanner.atStart resource k line).skipNewline.place, .otherwise, _, by decide,
    comes_marker_braced .otherwise, fun _ _ _ => ?_⟩
  obtain ⟨j, hj⟩ := hbody.nodes hend []
  refine ⟨j, fun n hn => ?_⟩
  refine bind_eq_ok.2 ⟨_, _, rfl, bind_eq_ok.2 ⟨_, _, hj n hn, bind_eq_ok.2 ⟨(), r'', ?_, rfl⟩⟩⟩
  exact scan_eq_ok.2 ⟨_, close_eq_ok.2 ⟨by decide, rfl⟩, rfl⟩

theorem branches_elseIf {cs : List Char}
    (h : Comes (fun n => choice readInner n "#elseif") ⟨Scanner.atStart resource (' ' :: cs) line, ms⟩ x r') :
    Branches readInner ⟨Scanner.atStart resource ('#' :: ("elseif".toList ++ ' ' :: cs)) line, ms⟩ x r' := by
  refine ⟨.elseIf, _, by decide, comes_marker .elseIf (by rintro _ ⟨⟩; decide), fun _ _ _ => ?_⟩
  obtain ⟨j, hj⟩ := h
  exact ⟨j, fun n hn => bind_eq_ok.2 ⟨x, r', hj n hn, rfl⟩⟩

/-- A choice in the branch of `#else`, and the end of the outer one. -/
theorem branches_nested {cs : List Char} {resource' : Option String} {line' : Nat} {ms' : List MacroDef}
    (harm : ReadsArm readInner ⟨Scanner.atStart resource (' ' :: cs) line, ms⟩ c yes r')
    (h : Branches readInner r' x ⟨Scanner.atStart resource' ('#' :: ("end".toList ++ k)) line', ms'⟩)
    (hk : ∀ c ∈ k.head?, isNameChar c = false) :
    ∃ p q, Branches readInner
      ⟨Scanner.atStart resource
        ('#' :: '\x7b' :: ("else".toList ++ '\x7d' :: '#' :: ("if".toList ++ ' ' :: cs))) line, ms⟩
      (.sequence p [.choose q c yes x]) ⟨(Scanner.atStart resource' k line').skipNewline, ms'⟩ := by
  obtain ⟨j, hj⟩ := comes_if (comes_choice harm h "#if")
  have hbody := ReadsNodes.cons (hj j (Nat.le_refl _)) .nil
  obtain ⟨p, hp⟩ := branches_otherwise (k := '#' :: ("if".toList ++ ' ' :: cs)) hbody (comes_marker .endBlock hk)
  exact ⟨p, _, hp⟩

/-- The branch of `#else`, up to the end, does not depend on what follows that. -/
theorem replays_otherwise {b rest : String} {xs : List Node}
    (hbody : ReadsNodes readInner (Reader.past "#\x7belse\x7d"
      ⟨Scanner.atStart resource (readChars (endText (some b) rest)) line, ms⟩).skipNewline xs r')
    (hend : r'.scanner.pending = readChars ("#end" ++ rest)) :
    ∃ resource' line' ms', ∀ rest', (∀ c ∈ (readChars rest').head?, isNameChar c = false) →
      ∃ p, Branches readInner ⟨Scanner.atStart resource (readChars (endText (some b) rest')) line, ms⟩
        (.sequence p (assemble xs)) ⟨(Scanner.atStart resource' (readChars rest') line').skipNewline, ms'⟩ := by
  have htext (rest' : String) : readChars (endText (some b) rest') =
      '#' :: '\x7b' :: ("else".toList ++ '\x7d' :: (readChars b ++ '#' :: ("end".toList ++ readChars rest'))) := by
    rw [endText, String.append_assoc, readChars_otherwise, readChars_append (by simp), readChars_end]
  have hpast : Reader.past "#\x7belse\x7d"
      ⟨Scanner.atStart resource (readChars (endText (some b) rest)) line, ms⟩ =
        ⟨Scanner.atStart resource (readChars b ++ '#' :: ("end".toList ++ readChars rest)) line, ms⟩ := by
    rw [htext]
    exact @Reader.past_atStart "#\x7belse\x7d" _ _ _ _ (by decide)
  rw [hpast] at hbody
  rw [readChars_end] at hend
  obtain ⟨resource', line', ms', rfl, hreads⟩ :=
    hbody.replays_after .skipNewline (by simp) rfl (.skipNewline rfl) hend
  refine ⟨resource', line', ms', fun rest' hrest' => ?_⟩
  obtain ⟨t, ht, hxs⟩ := hreads ("end".toList ++ readChars rest')
  cases ht
  rw [htext]
  exact branches_otherwise hxs (comes_marker .endBlock hrest')

/-- Where a chain is read, the nested choices are read too, and both end at the same place. -/
theorem branches_elseIfs {other : Option String} {rest : String} {arms : List (String × String)}
    {conds : List (Expr × List Node)} {no : List Node} (hs : ReadsElseIfs readInner other rest arms r conds no)
    (hrest : ∀ c ∈ (readChars rest).head?, isNameChar c = false)
    (hr : r = ⟨Scanner.atStart resource (readChars (elseIfs other arms rest)) line, ms⟩) :
    ∃ resource' line' ms',
      (∃ x, Chained no conds x ∧
        Branches readInner r x ⟨(Scanner.atStart resource' (readChars rest) line').skipNewline, ms'⟩) ∧
      ∀ rest', (∀ c ∈ (readChars rest').head?, isNameChar c = false) → ∃ x, Nested no conds x ∧
        Branches readInner ⟨Scanner.atStart resource (readChars (elses other arms rest')) line, ms⟩ x
          ⟨(Scanner.atStart resource' (readChars rest') line').skipNewline, ms'⟩ := by
  induction hs generalizing resource line ms with
  | endBlock hother =>
    subst hr hother
    have hend (rest' : String) (hrest' : ∀ c ∈ (readChars rest').head?, isNameChar c = false) :
        ∃ p, Branches readInner ⟨Scanner.atStart resource (readChars (endText none rest')) line, ms⟩
          (.sequence p []) ⟨(Scanner.atStart resource (readChars rest') line).skipNewline, ms⟩ := by
      rw [endText, readChars_end]
      exact branches_end hrest'
    obtain ⟨p, hp⟩ := hend rest hrest
    refine ⟨resource, line, ms, ⟨_, .nil, hp⟩, fun rest' hrest' => ?_⟩
    obtain ⟨q, hq⟩ := hend rest' hrest'
    exact ⟨_, .nil, hq⟩
  | otherwise hother hbody hend =>
    subst hr hother
    obtain ⟨resource', line', ms', hbranch⟩ := replays_otherwise hbody hend
    obtain ⟨p, hp⟩ := hbranch rest hrest
    refine ⟨resource', line', ms', ⟨_, .nil, hp⟩, fun rest' hrest' => ?_⟩
    obtain ⟨q, hq⟩ := hbranch rest' hrest'
    exact ⟨_, .nil, hq⟩
  | @elseIf arm arms r r' c yes no conds harm hend hnext ih =>
    subst hr
    obtain ⟨p, hp⟩ := readChars_arm arm
    obtain ⟨more, hmore, htail⟩ := readChars_elseIfs other arms rest
    have htext : readChars (elseIfs other (arm :: arms) rest) =
        "#elseif".toList ++ ((' ' :: p) ++ '#' :: more) := by
      rw [elseIfs, String.append_assoc, readChars_elseIf, hp _ (head?_elseIfs other arms rest), htail]
      rfl
    rw [htext, Reader.past_atStart (by decide)] at harm
    obtain ⟨resource₁, line₁, ms₁, rfl, hreads⟩ := replays_arm hmore harm (hend.trans htail)
    obtain ⟨resource', line', ms', ⟨x, hx, hchain⟩, hnested⟩ := ih (by rw [htail])
    have hbranch := branches_elseIf (comes_choice harm hchain "#elseif")
    refine ⟨resource', line', ms', ⟨_, .cons hx, by rw [htext]; exact hbranch⟩, fun rest' hrest' => ?_⟩
    obtain ⟨x', hx', hbranch'⟩ := hnested ("#end" ++ rest') (by rw [readChars_end]; rintro _ ⟨⟩; decide)
    obtain ⟨more', htail'⟩ := readChars_of_hash (head?_elses other arms ("#end" ++ rest'))
    rw [htail', readChars_end] at hbranch'
    obtain ⟨q, q', hq⟩ := branches_nested (hreads more') hbranch' hrest'
    have htext' : readChars (elses other (arm :: arms) rest') =
        '#' :: '\x7b' :: ("else".toList ++ '\x7d' :: '#' :: ("if".toList ++ ' ' :: (p ++ '#' :: more'))) := by
      rw [elses, readChars_otherwise, String.append_assoc, readChars_if, hp _ (head?_elses other arms _), htail']
    exact ⟨_, .cons hx', by rw [htext']; exact hq⟩

/-! ### The text behind a choice -/

/-- What is dropped before an assignment does not depend on the branches of a choice before it. -/
theorem addNode_first (ds : List Node) (y : Node) (p : Place) (c : Expr) (yes : List Node) :
    ∃ ds', ∀ x, addNode (ds ++ [.choose p c yes x]) y = ds' ++ [.choose p c yes x] := by
  match ds with
  | [] => exact ⟨[y], fun x => by rw [addNode, List.nil_append, givesWay]; simp [Node.isBlankOnLine]⟩
  | [d] =>
    refine ⟨if y.isAssign && d.isBlank then [y] else [y, d], fun x => ?_⟩
    have hgives : givesWay [d, .choose p c yes x] = d.isBlank := rfl
    rw [addNode, List.cons_append, List.nil_append, hgives]
    split <;> rfl
  | d :: e :: ds =>
    refine ⟨addNode (d :: e :: ds) y, fun x => ?_⟩
    have hgives : givesWay (d :: e :: ds ++ [.choose p c yes x]) = givesWay (d :: e :: ds) := rfl
    rw [addNode, addNode, hgives]
    split <;> rfl

theorem nodes_first (n : Nat) (ds : List Node) (r : Reader) (p : Place) (c : Expr) (yes : List Node) :
    (∃ e r', ∀ x, nodes readInner n (ds ++ [.choose p c yes x]) r = .error e r') ∨
      ∃ more m r', ∀ x, nodes readInner n (ds ++ [.choose p c yes x]) r = .ok (.choose p c yes x :: more, m) r' := by
  induction n generalizing ds r with
  | zero => exact .inl ⟨_, _, fun _ => rfl⟩
  | succ n ih =>
    cases hitem : item readInner n r with
    | error e r₁ =>
      refine .inl ⟨e, r₁, fun x => ?_⟩
      show EStateM.bind (item readInner n) _ r = _
      rw [EStateM.bind, hitem]
    | ok i r₁ =>
      cases i with
      | mark m =>
        refine .inr ⟨ds.reverse, m, r₁, fun x => bind_eq_ok.2 ⟨_, _, hitem, ?_⟩⟩
        show EStateM.Result.ok _ _ = _
        rw [List.reverse_append]
        rfl
      | node y =>
        obtain ⟨ds', hds'⟩ := addNode_first ds y p c yes
        have hnext (x : Node) : nodes readInner (n + 1) (ds ++ [.choose p c yes x]) r =
            nodes readInner n (ds' ++ [.choose p c yes x]) r₁ := by
          rw [← hds' x]
          show EStateM.bind (item readInner n) _ r = _
          rw [EStateM.bind, hitem]
        simp only [hnext]
        exact ih ds' r₁

theorem document_first {p : Place} {y y' : Node} {s s' : Scanner}
    (h : Comes (item readInner) ⟨s, []⟩ (.node (.choose p c yes y)) r)
    (h' : Comes (item readInner) ⟨s', []⟩ (.node (.choose p c yes y')) r) : ∃ k, ∀ n, k ≤ n →
      (∃ e r', document readInner n ⟨s, []⟩ = .error e r' ∧ document readInner n ⟨s', []⟩ = .error e r') ∨
        ∃ more r', document readInner n ⟨s, []⟩ = .ok (.choose p c yes y :: more) r' ∧
          document readInner n ⟨s', []⟩ = .ok (.choose p c yes y' :: more) r' := by
  obtain ⟨j, hj⟩ := h
  obtain ⟨j', hj'⟩ := h'
  refine ⟨max j j' + 1, fun n hn => ?_⟩
  obtain ⟨n, rfl⟩ : ∃ i, n = i + 1 := ⟨n - 1, by omega⟩
  have hstart {s : Scanner} {y : Node} (hs : item readInner n ⟨s, []⟩ = .ok (.node (.choose p c yes y)) r) :
      nodes readInner (n + 1) [] ⟨s, []⟩ = nodes readInner n [.choose p c yes y] r := by
    show EStateM.bind (item readInner n) _ _ = _
    rw [EStateM.bind, hs]
    rfl
  rcases @nodes_first readInner n [] r p c yes with ⟨e, r', he⟩ | ⟨more, m, r', hok⟩
  · have herror {s : Scanner} {y : Node}
        (hs : item readInner n ⟨s, []⟩ = .ok (.node (.choose p c yes y)) r) :
        document readInner (n + 1) ⟨s, []⟩ = .error e r' := by
      show EStateM.bind (nodes readInner (n + 1) []) _ _ = _
      rw [EStateM.bind, (hstart hs).trans (he y)]
    exact .inl ⟨e, r', herror (hj n (by omega)), herror (hj' n (by omega))⟩
  · have hclose {s : Scanner} {y : Node}
        (hs : item readInner n ⟨s, []⟩ = .ok (.node (.choose p c yes y)) r) :
        document readInner (n + 1) ⟨s, []⟩ = (do
          Scan.close [.endOfText] .document m
          return .choose p c yes y :: more : Read (List Node)) r' := by
      show EStateM.bind (nodes readInner (n + 1) []) _ _ = _
      rw [EStateM.bind, (hstart hs).trans (hok y)]
    rw [hclose (hj n (by omega)), hclose (hj' n (by omega))]
    show (∃ e r'', EStateM.bind _ _ r' = _ ∧ EStateM.bind _ _ r' = _) ∨
      ∃ more' r'', EStateM.bind _ _ r' = _ ∧ EStateM.bind _ _ r' = _
    simp only [EStateM.bind]
    cases (liftM (Scan.close [.endOfText] .document m) : Read Unit) r' with
    | ok _ r'' => exact .inr ⟨more, r'', rfl, rfl⟩
    | error e r'' => exact .inl ⟨e, r'', rfl, rfl⟩

end Read

/-! ### Chains and nested choices -/

/-- A choice with further conditions, and more text behind it. -/
def chainText (arm : String × String) (arms : List (String × String)) (other : Option String) (rest : String) :
    String :=
  "#if" ++ armText arm ++ elseIfs other arms rest

/-- The same choice with the further conditions in the branches of `#else`. -/
def nestedText (arm : String × String) (arms : List (String × String)) (other : Option String) (rest : String) :
    String :=
  "#if" ++ armText arm ++ elses other arms rest

section Chains

variable {resource : Option String} {arm : String × String} {arms : List (String × String)}
  {other : Option String} {rest : String} {c : Expr} {yes no : List Node} {conds : List (Expr × List Node)}
  {r : Reader}

theorem head?_readChars (hrest : ∀ c ∈ rest.toList.head?, isNameChar c = false) :
    ∀ c ∈ (readChars rest).head?, isNameChar c = false := by
  rw [readChars]
  generalize rest.toList = cs at hrest
  fun_cases unifyNewlines cs with
  | case1 => exact nofun
  | case2 =>
    rintro _ ⟨⟩
    decide
  | case3 c cs =>
    rintro _ ⟨⟩
    split
    · decide
    · exact hrest c rfl

/-- Both forms are read to a choice that goes on alike, or are read no further. -/
theorem read_chain (hrest : ∀ c ∈ rest.toList.head?, isNameChar c = false)
    (hfirst : ReadsArm Document.readInside
      (Reader.past "#if" ⟨Scanner.ofText (chainText arm arms other rest) resource, []⟩) c yes r)
    (hend : r.scanner.pending = readChars (elseIfs other arms rest))
    (hnext : ReadsElseIfs Document.readInside other rest arms r conds no) :
    ∃ p y y', Chained no conds y ∧ Nested no conds y' ∧
      ((∃ e, Document.read resource (chainText arm arms other rest) = .error e ∧
          Document.read resource (nestedText arm arms other rest) = .error e) ∨
        ∃ place more ms,
          Document.read resource (chainText arm arms other rest) = .ok ⟨place, .choose p c yes y :: more, ms⟩ ∧
          Document.read resource (nestedText arm arms other rest) =
            .ok ⟨place, .choose p c yes y' :: more, ms⟩) := by
  obtain ⟨p, hp⟩ := readChars_arm arm
  have hrest' := head?_readChars hrest
  have htext {t : String} (ht : t.toList.head? = some '#') :
      Scanner.ofText ("#if" ++ armText arm ++ t) resource =
        Scanner.atStart resource ("#if".toList ++ (' ' :: p ++ readChars t)) 1 := by
    rw [Scanner.ofText_eq_atStart, ← readChars, String.append_assoc, readChars_if, hp t ht]
    rfl
  have hchain := htext (head?_elseIfs other arms rest)
  have hnested := htext (head?_elses other arms rest)
  obtain ⟨more, hmore, htail⟩ := readChars_elseIfs other arms rest
  obtain ⟨more', htail'⟩ := readChars_of_hash (head?_elses other arms rest)
  rw [chainText, hchain, Reader.past_atStart (by decide), htail] at hfirst
  obtain ⟨resource₁, line₁, ms₁, rfl, hreads⟩ := Read.replays_arm hmore hfirst (hend.trans htail)
  obtain ⟨resource', line', ms', ⟨y, hy, hbranch⟩, hbranches⟩ :=
    Read.branches_elseIfs hnext hrest' (by rw [htail])
  obtain ⟨y', hy', hbranch'⟩ := hbranches rest hrest'
  rw [htail'] at hbranch'
  have hitem := Read.comes_if (Read.comes_choice hfirst hbranch "#if")
  have hitem' := Read.comes_if (Read.comes_choice (hreads more') hbranch' "#if")
  obtain ⟨k, hk⟩ := Read.document_first hitem hitem'
  let fuel := max k (max (Document.fuelFor (Scanner.ofText (chainText arm arms other rest) resource))
    (Document.fuelFor (Scanner.ofText (nestedText arm arms other rest) resource)))
  have hread : Document.read resource (chainText arm arms other rest) = _ :=
    Document.readWith_eq (n := fuel) Document.readInside_ends resource (by omega)
  have hread' : Document.read resource (nestedText arm arms other rest) = _ :=
    Document.readWith_eq (n := fuel) Document.readInside_ends resource (by omega)
  rw [chainText, hchain, htail] at hread
  rw [nestedText, hnested, htail'] at hread'
  refine ⟨⟨resource, 1⟩, y, y', hy, hy', ?_⟩
  rw [chainText, nestedText, hread, hread']
  rcases hk fuel (Nat.le_max_left _ _) with ⟨e, r', he, he'⟩ | ⟨after, r', hok, hok'⟩
  · exact .inl ⟨e, congrArg Document.ofReading he, congrArg Document.ofReading he'⟩
  · exact .inr ⟨_, after, _, congrArg Document.ofReading hok, congrArg Document.ofReading hok'⟩

theorem run_renderNodes_cons {x x' : Node} {scope : Scope} {d : Deeper}
    (h : (renderNode scope x).run d = (renderNode scope x').run d) (xs : List Node) :
    (renderNodes scope (x :: xs)).run d = (renderNodes scope (x' :: xs)).run d := by
  rw [renderNodes, renderNodes, Script.run_bind, Script.run_bind, h]

/-- A chain of conditions does what choices nested in the branches of `#else` do. Wherever the chain can be
read, with each body up to the mark that is written after it, the text behind the end is read alike behind the
nested form, to the same nodes, macros or error; and if the text is read, then of both forms the first body
whose condition is true is rendered, after the conditions up to it and no further one, and evaluating both
templates gives the same text or failure and leaves the same state. -/
theorem Template.chain_is_nested (hrest : ∀ c ∈ rest.toList.head?, isNameChar c = false)
    (hfirst : ReadsArm Document.readInside
      (Reader.past "#if" ⟨Scanner.ofText (chainText arm arms other rest) resource, []⟩) c yes r)
    (hend : r.scanner.pending = readChars (elseIfs other arms rest))
    (hnext : ReadsElseIfs Document.readInside other rest arms r conds no) :
    (∃ e, Document.read resource (chainText arm arms other rest) = .error e ∧
        Document.read resource (nestedText arm arms other rest) = .error e) ∨
      ∃ x x' after place macros,
        Document.read resource (chainText arm arms other rest) = .ok ⟨place, x :: after, macros⟩ ∧
        Document.read resource (nestedText arm arms other rest) = .ok ⟨place, x' :: after, macros⟩ ∧
        (∀ scope d, (renderNode scope x).run d = (firstTrue scope no ((c, yes) :: conds)).run d ∧
          (renderNode scope x').run d = (firstTrue scope no ((c, yes) :: conds)).run d) ∧
        ∀ id loader n vars host s,
          (⟨id, ⟨place, x :: after, macros⟩, loader⟩ : Template).evaluateWithin n vars host s =
            (⟨id, ⟨place, x' :: after, macros⟩, loader⟩ : Template).evaluateWithin n vars host s := by
  obtain ⟨p, y, y', hy, hy', hread⟩ := read_chain hrest hfirst hend hnext
  refine hread.imp_right fun ⟨place, after, macros, hchain, hnested⟩ => ?_
  have hrun (scope : Scope) (d : Deeper) : (renderNode scope (.choose p c yes y)).run d =
      (firstTrue scope no ((c, yes) :: conds)).run d := run_choose hy.run
  have hrun' (scope : Scope) (d : Deeper) : (renderNode scope (.choose p c yes y')).run d =
      (firstTrue scope no ((c, yes) :: conds)).run d := run_choose hy'.run
  refine ⟨_, _, after, place, macros, hchain, hnested, fun scope d => ⟨hrun scope d, hrun' scope d⟩, ?_⟩
  intro id loader n vars host s
  have hrender (scope : Scope) : (Deeper.within n).render scope (.choose p c yes y :: after) =
      (Deeper.within n).render scope (.choose p c yes y' :: after) := by
    cases n with
    | zero => rfl
    | succ n => exact run_renderNodes_cons ((hrun scope _).trans (hrun' scope _).symm) after
  rw [evaluateWithin_eq, evaluateWithin_eq]
  show Run.capture (Run.endBreaks ((Deeper.within n).render _ (.choose p c yes y :: after))) _ =
    Run.capture (Run.endBreaks ((Deeper.within n).render _ (.choose p c yes y' :: after))) _
  rw [hrender]
  rfl

end Chains

/-- With two conditions, a branch of `#else` and a line feed after the end. -/
theorem Template.chain_is_nested_of_two : ∃ d d',
    Document.read none (chainText ("$a", "x") [("$b", "y")] (some "z") "\n.") = .ok d ∧
    Document.read none (nestedText ("$a", "x") [("$b", "y")] (some "z") "\n.") = .ok d' ∧
    ∀ id loader n vars host s, (⟨id, d, loader⟩ : Template).evaluateWithin n vars host s =
      (⟨id, d', loader⟩ : Template).evaluateWithin n vars host s := by
  have hfirst : ReadsArm Document.readInside
      ⟨Scanner.atStart none " ($a)x#elseif ($b)y#\x7belse\x7dz#end\n.".toList 1, []⟩
      (.reference ⟨none, 1⟩ "a" false []) (assemble [.text ⟨none, 1⟩ "x"])
      ⟨Scanner.atStart none "#elseif ($b)y#\x7belse\x7dz#end\n.".toList 1, []⟩ :=
    .intro (n := 8) (s := Scanner.atStart none "x#elseif ($b)y#\x7belse\x7dz#end\n.".toList 1) (by rfl)
      (.cons (n := 2) (by rfl) .nil)
  have harm : ReadsArm Document.readInside
      ⟨Scanner.atStart none " ($b)y#\x7belse\x7dz#end\n.".toList 1, []⟩
      (.reference ⟨none, 1⟩ "b" false []) (assemble [.text ⟨none, 1⟩ "y"])
      ⟨Scanner.atStart none "#\x7belse\x7dz#end\n.".toList 1, []⟩ :=
    .intro (n := 8) (s := Scanner.atStart none "y#\x7belse\x7dz#end\n.".toList 1) (by rfl)
      (.cons (n := 2) (by rfl) .nil)
  have hother : ReadsNodes Document.readInside ⟨Scanner.atStart none "z#end\n.".toList 1, []⟩
      [.text ⟨none, 1⟩ "z"] ⟨Scanner.atStart none "#end\n.".toList 1, []⟩ :=
    .cons (n := 2) (by rfl) .nil
  have hnext : ReadsElseIfs Document.readInside (some "z") "\n." [("$b", "y")]
      ⟨Scanner.atStart none "#elseif ($b)y#\x7belse\x7dz#end\n.".toList 1, []⟩
      [(.reference ⟨none, 1⟩ "b" false [], assemble [.text ⟨none, 1⟩ "y"])] (assemble [.text ⟨none, 1⟩ "z"]) :=
    .elseIf harm (by rfl) (.otherwise rfl hother (by rfl))
  rcases @chain_is_nested none ("$a", "x") [("$b", "y")] (some "z") "\n." _ _ _ _ _ (by rintro _ ⟨⟩; rfl)
      hfirst (by rfl) hnext with
    ⟨e, he, -⟩ | ⟨x, x', after, place, macros, hchain, hnested, -, hevaluate⟩
  · have hread : (Document.read none (chainText ("$a", "x") [("$b", "y")] (some "z") "\n.")).isOk = true := by
      decide +kernel
    rw [he] at hread
    cases hread
  · exact ⟨_, _, hchain, hnested, hevaluate⟩

end Stencil
