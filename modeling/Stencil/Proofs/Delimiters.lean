import Stencil.Proofs.Braces
import Stencil.Proofs.WithinDocument

/-!
# Braces only delimit

Where a node of a sequence begins, a name of a directive or a reference may be put in braces: the text is then read
to the same tree and macros, up to places, or refused as before. This holds wherever the reading of the text comes to
such a place, in blocks and in text literals too.
-/

namespace Stencil

open Stencil.Text

/-! ### Text literals -/

namespace Scan

variable {readInner : ReadInner} {resource : Option String} {line n : Nat} {s t : Scanner} {post : List Char}

theorem takeWhile_atStart {p : Char → Bool} {w k : List Char} (hw : ∀ c ∈ w, p c = true)
    (hk : ∀ c ∈ k.head?, p c = false) : takeWhile p (Scanner.atStart resource (w ++ k) line) =
      .ok w (Scanner.atStart resource k (line + newlines w)) := by
  show EStateM.Result.ok (Scanner.takeWhile p _).1 (Scanner.takeWhile p _).2 = _
  rw [Scanner.takeWhile, Scanner.pending_atStart, (span_append hw hk).1, Scanner.advanceBy_atStart_lines]

/-- The inside of a text literal, before the closing quote, has neither that quote nor a backslash. -/
theorem quoted_atStart_eq_ok {quote : Quote} {x : String} {cs : List Char} :
    quoted quote (Scanner.atStart resource cs line) = .ok x t ↔ ∃ k, cs = x.toList ++ quote.char :: k ∧
      (∀ c ∈ x.toList, c ≠ quote.char ∧ c ≠ '\\') ∧ t = Scanner.atStart resource k (line + newlines x.toList) := by
  have hplain : quote.char ≠ '\n' ∧ quote.char ≠ '\\' := by cases quote <;> decide
  have hinside {w k : List Char} (hw : ∀ c ∈ w, c ≠ quote.char ∧ c ≠ '\\')
      (hk : ∀ c ∈ k.head?, c = quote.char ∨ c = '\\') :
      takeWhile (fun c => c != quote.char && c != '\\') (Scanner.atStart resource (w ++ k) line) =
        .ok w (Scanner.atStart resource k (line + newlines w)) :=
    takeWhile_atStart (fun c hc => by simp [hw c hc]) fun c hc => by
      rcases hk c hc with rfl | rfl <;> simp
  constructor
  · intro h
    obtain ⟨w, d, rfl, hw, hd⟩ : ∃ w d, cs = w ++ d ∧ (∀ c ∈ w, c ≠ quote.char ∧ c ≠ '\\') ∧
        ∀ c ∈ d.head?, c = quote.char ∨ c = '\\' := by
      refine ⟨_, _, (List.takeWhile_append_dropWhile (p := fun c => c != quote.char && c != '\\')).symm,
        fun c hc => by simpa using List.mem_takeWhile_imp hc, fun c hc => ?_⟩
      have hnot := List.head?_dropWhile_not (fun c => c != quote.char && c != '\\') cs
      rw [Option.mem_def.1 hc] at hnot
      simpa [or_iff_not_imp_left] using hnot
    replace h := (bind_ok (hinside hw hd)).symm.trans h
    cases d with
    | nil => cases h
    | cons c k =>
      obtain rfl | rfl := hd c rfl
      · replace h := (bind_ok (x := peek) (b := some quote.char) rfl).symm.trans h
        simp only [if_neg hplain.2] at h
        replace h := (bind_ok (skip_atStart hplain.1)).symm.trans h
        obtain ⟨rfl, rfl⟩ := EStateM.Result.ok.inj h
        exact ⟨k, by rw [String.toList_ofList], by rwa [String.toList_ofList], by rw [String.toList_ofList]⟩
      · cases h
  · rintro ⟨k, rfl, hx, rfl⟩
    refine (bind_ok (hinside hx (by rintro _ ⟨⟩; exact .inl rfl))).trans ?_
    refine (bind_ok (x := peek) (b := some quote.char) rfl).trans ?_
    simp only [if_neg hplain.2]
    exact (bind_ok (skip_atStart hplain.1)).trans (by rw [String.ofList_toList]; rfl)

theorem text_double {c : String} (hc : ∀ d ∈ c.toList, d ≠ '"' ∧ d ≠ '\\')
    (ht : t = Scanner.atStart resource post (line + newlines c.toList)) :
    text readInner .double (Scanner.atStart resource ('"' :: (c.toList ++ '"' :: post)) line) =
      (do return Expr.text t.place .double (← inner (readInner s!"string {t.place.text}" c)) : Scan Expr) t := by
  subst ht
  exact (bind_ok (skip_atStart (by decide))).trans <| bind_ok (quoted_atStart_eq_ok.2 ⟨post, rfl, hc, rfl⟩)

/-- The quote of a text literal stands behind the blanks before it. -/
theorem primary_midway_text (b : Bool) (hs : s.skipBlanks.current = some '"') :
    Midway (LikeExpr false) (text readInner .double) s.skipBlanks (LikeExpr false) (primary readInner (n + 1) b) s :=
  .skipsBlanks <| .peeks hs <| .first .here fun _ _ he => alike_then alike_skipBlanks fun _ => .pure he

end Scan

/-! ### Where a sequence begins -/

namespace Read

variable {readInner : ReadInner} {resource : Option String} {line n : Nat} {ms : List MacroDef} {done : List Node}
  {post : List Char}

theorem beside_self (r : Reader) : Reader.Beside false r r :=
  ⟨⟨⟨r.scanner.resource, rfl⟩, nofun⟩, List.forall₂_same.2 fun m _ => .refl m⟩

theorem agrees_nodes (hinner : LikeInner readInner readInner) {done' : List Node} (h : LikeNodes false done done')
    (n : Nat) (r : Reader) :
    Agrees (Reader.Beside false) LikeSequence (nodes readInner n done r) (nodes readInner n done' r) :=
  alike_nodes (fun _ => hinner) n h r r (beside_self r)

theorem scan_bind_congr {α β : Type} {x : Scan β} {f : β → Read α} {b : β} {s s' t : Scanner} (h : x s = .ok b t)
    (h' : x s' = .ok b t) : (scan x >>= f) ⟨s, ms⟩ = (scan x >>= f) ⟨s', ms⟩ := by
  rw [scan_bind_ok (r := ⟨s, ms⟩) h, scan_bind_ok (r := ⟨s', ms⟩) h']

theorem directive_eq_of_name {s s' t : Scanner} {x : String} (h : Scan.directiveName s = .ok x t)
    (h' : Scan.directiveName s' = .ok x t) :
    directive readInner (n + 1) ⟨s, ms⟩ = directive readInner (n + 1) ⟨s', ms⟩ := by
  rw [directive]
  exact scan_bind_congr h h'

theorem nodes_congr {r r' : Reader} (h : item readInner n r = item readInner n r') :
    nodes readInner (n + 1) done r = nodes readInner (n + 1) done r' := by
  show EStateM.bind (item readInner n) _ r = EStateM.bind (item readInner n) _ r'
  rw [EStateM.bind, EStateM.bind, h]

/-- A sequence that begins with a directive goes on as if the name of the directive were in braces. -/
theorem agrees_directive (hinner : LikeInner readInner readInner) {x : String} (hx : IsName x)
    (hpost : ∀ c ∈ post.head?, isNameChar c = false) (n : Nat) :
    Agrees (Reader.Beside false) LikeSequence
      (nodes readInner n done ⟨Scanner.atStart resource ('#' :: (x.toList ++ post)) line, ms⟩)
      (nodes readInner n done
        ⟨Scanner.atStart resource ('#' :: '\x7b' :: (x.toList ++ '\x7d' :: post)) line, ms⟩) := by
  have hplain (n : Nat) : item readInner (n + 1) ⟨Scanner.atStart resource ('#' :: (x.toList ++ post)) line, ms⟩ =
      directive readInner n ⟨(Scanner.atStart resource ('#' :: (x.toList ++ post)) line).advance, ms⟩ := item_named hx
  have hbraced (n : Nat) := @item_directive readInner n _ ms _ _
    (Scanner.pending_atStart resource ('#' :: '\x7b' :: (x.toList ++ '\x7d' :: post)) line) (.inr rfl)
  match n with
  | 0 | 1 => exact ParseFailure.Like.exhausted
  | 2 =>
    rw [nodes, bind_error (hplain 0), bind_error (hbraced 0)]
    exact ParseFailure.Like.exhausted
  | n + 3 =>
    rw [nodes_congr ((hplain (n + 1)).trans <| (directive_eq_of_name (Scan.directiveName_atStart hx hpost)
      (Scan.directiveName_braced_atStart hx)).trans (hbraced (n + 1)).symm)]
    exact agrees_nodes hinner (.refl done) (n + 3) _

theorem item_dollar {s : Scanner} (hs : s.current = some '$') :
    item readInner (n + 1) ⟨s, ms⟩ = (do return Item.node (← Scan.dollar readInner n) : Read Item) ⟨s, ms⟩ := by
  obtain ⟨resource, current, slot, rest, line⟩ := s
  cases hs
  rfl

/-- The reading of a sequence that begins with a dollar sign goes on behind what that begins. -/
theorem nodes_dollar {s t : Scanner} {x : Node} (hs : s.current = some '$') (hx : Scan.dollar readInner n s = .ok x t) :
    nodes readInner (n + 2) done ⟨s, ms⟩ = nodes readInner (n + 1) (addNode done x) ⟨t, ms⟩ := by
  have hitem : item readInner (n + 1) ⟨s, ms⟩ = .ok (.node x) ⟨t, ms⟩ :=
    (item_dollar hs).trans <| bind_eq_ok.2 ⟨x, _, scan_eq_ok.2 ⟨t, hx, rfl⟩, rfl⟩
  show EStateM.bind (item readInner (n + 1)) _ ⟨s, ms⟩ = _
  rw [EStateM.bind, hitem]

/-- A sequence that begins with a reference goes on as if the reference were in braces. -/
theorem agrees_reference (hinner : LikeInner readInner readInner) {quiet : Bool} {ref : List Char} {x : Node}
    {r : Reader} (hletter : ref.head?.any isLetter = true)
    (hitem : item readInner n ⟨Scanner.atStart resource (Scan.dollarMarks quiet ++ (ref ++ post)) line, ms⟩ =
      .ok (.node x) r) (hr : r.scanner.pending = post) :
    Agrees (Reader.Beside false) LikeSequence
      (nodes readInner (n + 1) done ⟨Scanner.atStart resource (Scan.dollarMarks quiet ++ (ref ++ post)) line, ms⟩)
      (nodes readInner (n + 1) done
        ⟨Scanner.atStart resource (Scan.dollarMarks quiet ++ '\x7b' :: (ref ++ '\x7d' :: post)) line, ms⟩) := by
  have hdollar (k : List Char) : (Scanner.atStart resource (Scan.dollarMarks quiet ++ k) line).current = some '$' := by
    cases quiet <;> rfl
  obtain _ | n := n
  · cases hitem
  rw [item_dollar (hdollar _)] at hitem
  obtain ⟨_, _, hread, hpure⟩ := bind_eq_ok.1 hitem
  cases hpure
  obtain ⟨t, hx, rfl⟩ := scan_eq_ok.1 hread
  obtain ⟨x', resource', line', hx', hlike, hlooked⟩ := Scan.gives_dollar_braced n hletter x t hx hr
  rw [nodes_dollar (hdollar _) hx, nodes_dollar (hdollar _) hx']
  cases n with
  | zero =>
    rw [Scan.dollar_alone (Scan.letter_append hletter post)] at hx
    obtain ⟨_, _, h, -⟩ := Scan.bind_eq_ok.1 hx
    cases h
  | succ n =>
    rw [nodes_eq hlooked]
    exact agrees_nodes hinner (LikeNodes.addNode (.refl _) hlike) _ _

/-- A text literal goes on as if it had another inside that is read alike and has as many lines. -/
theorem agrees_text {c c' : String} (hc : ∀ d ∈ c.toList, d ≠ '"' ∧ d ≠ '\\')
    (hc' : ∀ d ∈ c'.toList, d ≠ '"' ∧ d ≠ '\\') (hlines : newlines c'.toList = newlines c.toList) {t : Scanner}
    (ht : t = Scanner.atStart resource post (line + newlines c.toList))
    (hread : LikeRead (LikeNodes false) (readInner s!"string {t.place.text}" c)
      (readInner s!"string {t.place.text}" c')) :
    Agrees (Reader.Beside false) (LikeExpr false)
      (scan (Scan.text readInner .double) ⟨Scanner.atStart resource ('"' :: (c.toList ++ '"' :: post)) line, ms⟩)
      (scan (Scan.text readInner .double) ⟨Scanner.atStart resource ('"' :: (c'.toList ++ '"' :: post)) line, ms⟩) := by
  rw [scan, scan, Scan.text_double hc ht, Scan.text_double hc' (hlines ▸ ht)]
  exact alike_scan (.bind (Scan.alike_inner hread) fun _ _ h => .pure (.text (.refl _) h)) _ _ (beside_self ⟨t, ms⟩)

end Read

/-! ### Texts with braces -/

namespace Document

variable {readInner : ReadInner} {resource : Option String} {text text' : String} {pre post : List Char}

/-- Two texts that are the same up to a place and in the character there are read alike if reading comes there to a
step that goes alike in either text. -/
theorem likeRead_of_agrees (hread : readWith readInner resource text ≠ .error .exhausted) {c : Char}
    (hc : c ≠ '.' ∧ c ≠ '\n') {more other : List Char} (hmore : more ≠ []) (hlength : more.length ≤ other.length)
    (htext : readChars text = pre ++ c :: more) (htext' : readChars text' = pre ++ c :: other) {β : Type}
    {B : β → β → Prop} {z : Read β} {u : Reader}
    (h : Read.Midway B z u LikeSequence (Read.nodes readInner (fuelFor (Scanner.ofText text resource)) [])
      ⟨Scanner.ofText text resource, []⟩)
    (hu : u.scanner.pending = c :: more)
    (hz : ∀ resource line ms, u = ⟨Scanner.atStart resource (c :: more) line, ms⟩ →
      Agrees (Reader.Beside false) B (z ⟨Scanner.atStart resource (c :: more) line, ms⟩)
        (z ⟨Scanner.atStart resource (c :: other) line, ms⟩)) :
    LikeRead (LikeDocument false) (readWith readInner resource text) (readWith readInner resource text') := by
  have hsettled : u.scanner.Settled := by
    refine h.forth (G := fun r => r.scanner.Settled) (fun hy hok hr => hy.settled hok hr) ?_
    rw [Scanner.ofText_eq_atStart]
    exact .inl rfl
  have hfork (more : List Char) : pre ++ c :: more = (pre ++ [c]) ++ more := by simp
  obtain ⟨s, ms⟩ := u
  obtain ⟨resource', line, rfl⟩ : ∃ resource' line, s = Scanner.atStart resource' (c :: more) line :=
    ⟨_, _, Scanner.eq_atStart hsettled hu hc⟩
  refine likeRead_of_midway hread (p := pre ++ [c]) (by simp) hmore hlength (htext.trans (hfork _))
    (htext'.trans (hfork _)) h (Nat.le_refl _) fun v hv => ?_
  obtain ⟨t, ms'⟩ := v
  obtain ⟨ht, rfl⟩ := Reader.mk.inj hv
  have hother := Scanner.followedBy_eq_atStart (p := [c]) (by simp) ht.symm other
  show Agrees _ _ _ (z ⟨t.followedBy other, ms⟩)
  rw [hother]
  exact hz _ _ _ rfl

/-- Reading a text comes to a place where a node of a sequence begins, with the nodes `done` before it. -/
def Begins (readInner : ReadInner) (resource : Option String) (text : String) (n : Nat) (done : List Node)
    (r : Reader) : Prop :=
  Read.Within readInner (n + 1) (.nodes done) r (fuelFor (Scanner.ofText text resource)) (.nodes [])
    ⟨Scanner.ofText text resource, []⟩

/-- The other text has braces around the name of a directive, or around a reference, where a node of a sequence
begins. The reference is as long as it is read without braces. -/
inductive NodeBraced (readInner : ReadInner) (resource : Option String) (text text' : String) : Prop
  | directive {n : Nat} {done : List Node} {r : Reader} {x : String} {pre post : List Char}
      (h : Begins readInner resource text n done r) (hr : r.scanner.pending = '#' :: (x.toList ++ post))
      (hx : IsName x) (hpost : ∀ c ∈ post.head?, isNameChar c = false)
      (htext : readChars text = pre ++ '#' :: (x.toList ++ post))
      (htext' : readChars text' = pre ++ '#' :: '\x7b' :: (x.toList ++ '\x7d' :: post))
  | reference {n : Nat} {done : List Node} {r r' : Reader} {quiet : Bool} {y : Node} {ref pre post : List Char}
      (h : Begins readInner resource text n done r)
      (hr : r.scanner.pending = Scan.dollarMarks quiet ++ (ref ++ post)) (hletter : ref.head?.any isLetter = true)
      (hitem : Read.item readInner n r = .ok (.node y) r') (hr' : r'.scanner.pending = post)
      (htext : readChars text = pre ++ (Scan.dollarMarks quiet ++ (ref ++ post)))
      (htext' : readChars text' = pre ++ (Scan.dollarMarks quiet ++ '\x7b' :: (ref ++ '\x7d' :: post)))

/-- The same, or this within a text literal that reading comes to. -/
inductive Braced (resource : Option String) (text text' : String) : Prop
  | node (h : NodeBraced readInside resource text text')
  | literal {n : Nat} {nullAllowed : Bool} {s t : Scanner} {c c' : String} {pre post : List Char}
      (h : Read.WithinExpr readInside (n + 1) (.primary nullAllowed) s (fuelFor (Scanner.ofText text resource))
        (.nodes []) ⟨Scanner.ofText text resource, []⟩)
      (hs : s.skipBlanks.pending = '"' :: (c.toList ++ '"' :: post))
      (ht : Scan.quoted .double s.skipBlanks.advance = .ok c t)
      (htext : readChars text = pre ++ '"' :: (c.toList ++ '"' :: post))
      (htext' : readChars text' = pre ++ '"' :: (c'.toList ++ '"' :: post))
      (hc : NodeBraced (fun _ _ => .error .exhausted) (some s!"string {t.place.text}") c c')

/-- Braces are all that the other text has more. -/
theorem NodeBraced.chars (h : NodeBraced readInner resource text text') :
    ∃ pre ref post, readChars text = pre ++ (ref ++ post) ∧
      readChars text' = pre ++ '\x7b' :: (ref ++ '\x7d' :: post) := by
  cases h with
  | @directive n done r x pre post _ _ _ _ htext htext' =>
    exact ⟨pre ++ ['#'], x.toList, post, by simp [htext], by simp [htext']⟩
  | @reference n done r r' quiet y ref pre post _ _ _ _ _ htext htext' =>
    exact ⟨pre ++ Scan.dollarMarks quiet, ref, post, by simp [htext], by simp [htext']⟩

theorem readChars_inside {c : String} (htext : readChars text = pre ++ '"' :: (c.toList ++ post)) :
    readChars c = c.toList := by
  refine unifyNewlines_of_no_return fun hmem => return_not_mem_unifyNewlines text.toList ?_
  rw [← readChars, htext]
  simp [hmem]

/-- So a text literal with the other inside ends at the same quote and on the same line. -/
theorem NodeBraced.inside {c c' : String} (h : NodeBraced readInner resource c c') (hc : readChars c = c.toList)
    (hc' : readChars c' = c'.toList) :
    c.toList.length ≤ c'.toList.length ∧ newlines c'.toList = newlines c.toList ∧
      ((∀ d ∈ c.toList, d ≠ '"' ∧ d ≠ '\\') → ∀ d ∈ c'.toList, d ≠ '"' ∧ d ≠ '\\') := by
  obtain ⟨pre, ref, post, hchars, hchars'⟩ := h.chars
  rw [← hc, ← hc', hchars, hchars']
  refine ⟨by simp; omega, by simp [newlines], fun hplain d hd => ?_⟩
  obtain rfl | rfl | hd : d = '\x7b' ∨ d = '\x7d' ∨ d ∈ pre ++ (ref ++ post) := by
    simp only [List.mem_append, List.mem_cons] at hd ⊢
    tauto
  · decide
  · decide
  · exact hplain d hd

theorem NodeBraced.likeRead (hinner : LikeInner readInner readInner)
    (hread : readWith readInner resource text ≠ .error .exhausted) (h : NodeBraced readInner resource text text') :
    LikeRead (LikeDocument false) (readWith readInner resource text) (readWith readInner resource text') := by
  cases h with
  | @directive n done r x pre post h hr hx hpost htext htext' =>
    obtain ⟨c, cs, hcs, -⟩ := id hx
    exact likeRead_of_agrees hread ⟨by decide, by decide⟩ (by simp [hcs]) (by simp; omega) htext htext'
      (h.midway hinner) hr fun _ _ _ _ => Read.agrees_directive hinner hx hpost (n + 1)
  | @reference n done r r' quiet y ref pre post h hr hletter hitem hr' htext htext' =>
    obtain ⟨marks, hmarks⟩ : ∃ marks, ∀ k, Scan.dollarMarks quiet ++ k = '$' :: (marks ++ k) := by
      cases quiet
      · exact ⟨[], fun _ => rfl⟩
      · exact ⟨['!'], fun _ => rfl⟩
    have hmore : marks ++ (ref ++ post) ≠ [] := by
      intro hnil
      obtain ⟨rfl, -⟩ := List.append_eq_nil_iff.1 (List.append_eq_nil_iff.1 hnil).2
      cases hletter
    rw [hmarks] at hr htext htext'
    refine likeRead_of_agrees hread ⟨by decide, by decide⟩ hmore (by simp; omega) htext htext' (h.midway hinner) hr
      fun resource line ms hat => ?_
    subst hat
    rw [← hmarks] at hitem
    rw [← hmarks, ← hmarks]
    exact Read.agrees_reference hinner hletter hitem hr'

/-- Braces around the name of a directive or a reference only delimit it: the text is read to the same nodes and
macros up to places, or refused like the other. -/
theorem braces_only_delimit (h : Braced resource text text') :
    LikeRead (LikeDocument false) (read resource text) (read resource text') := by
  cases h with
  | node h => exact h.likeRead likeInner_readInside (readWith_ne_exhausted readInside_ends resource text)
  | @literal n b s t c c' pre post h hs ht htext htext' hc =>
    have hquote : s.skipBlanks.current = some '"' := (Scanner.pending_eq_cons hs).1
    obtain ⟨ms, hprimary⟩ := h.midway likeInner_readInside
    have htext₀ := (Read.Midway.scan (Scan.primary_midway_text b hquote) ms).trans hprimary
    obtain ⟨hlength, hlines, hplain⟩ := hc.inside (readChars_inside htext) (readChars_inside htext')
    refine likeRead_of_agrees (readWith_ne_exhausted readInside_ends resource text) ⟨by decide, by decide⟩
      (by simp) (by simpa using hlength) htext htext' htext₀ hs fun resource line ms hat => ?_
    obtain ⟨hat, -⟩ := Reader.mk.inj hat
    rw [hat, Scanner.advance_atStart (by decide)] at ht
    obtain ⟨k, hk, hinside, ht⟩ := Scan.quoted_atStart_eq_ok.1 ht
    obtain ⟨-, rfl⟩ := List.cons.inj (List.append_cancel_left hk)
    have hread := hc.likeRead (fun _ _ _ => .error .exhausted) fun hnone => readInside_ends _ c
      (fun hmem => (hinside _ hmem).1 rfl) (by rw [readInside, hnone]; rfl)
    exact Read.agrees_text hinside (hplain hinside) hlines ht (hread.map fun _ _ h => h.nodes)

/-- At the end of a block, and in a text literal before a period. -/
theorem braces_only_delimit_end_of_block_and_literal :
    LikeRead (LikeDocument false) (read none "#if($a)b#end") (read none "#if($a)b#\x7bend\x7d") ∧
      LikeRead (LikeDocument false) (read none "$a.b(\"$c.\")") (read none "$a.b(\"$\x7bc\x7d.\")") := by
  constructor
  · have hbegins : Begins readInside none "#if($a)b#end" 105 [.text ⟨none, 1⟩ "b"]
        ⟨Scanner.atStart none "#end".toList 1, []⟩ :=
      .further .nodesItem <| .further (.itemDirective rfl rfl (.inl rfl)) <| .further (.directiveIf (by rfl)) <|
        .further (.choiceBlock (by rfl) (by rfl) (by rfl)) <| .further .blockNodes <|
          .further (.nodesOn (by rfl)) .here
    exact braces_only_delimit <| .node <| @NodeBraced.directive _ _ _ _ _ _ _ "end" "#if($a)b".toList [] hbegins rfl
      (isName_ofList rfl rfl) nofun rfl (by rfl)
  · have hdollar : Scan.Dollar (Scanner.ofText "$a.b(\"$c.\")" none) false
        (Scanner.atStart none "a.b(\"$c.\")".toList 1) := .plain (by decide) rfl rfl
    have hwithin : Read.WithinExpr readInside 99 (.primary true) (Scanner.atStart none "\"$c.\")".toList 1) 104
        (.nodes []) ⟨Scanner.ofText "$a.b(\"$c.\")" none, []⟩ :=
      .further .nodesItem <| .enter (.itemReference rfl hdollar) <| .further (.referenceSuffixes (by rfl)) <|
        .further (.suffixesArguments rfl (by rfl) rfl) <| .further (.argumentsFirst (by decide)) .here
    have hinside (resource : Option String) :
        NodeBraced (fun _ _ => .error .exhausted) resource "$c." "$\x7bc\x7d." :=
      @NodeBraced.reference _ _ _ _ 39 [] _ _ false _ ['c'] [] ['.'] .here rfl rfl (by rfl) rfl rfl rfl
    exact braces_only_delimit <|
      @Braced.literal _ _ _ 98 true _ (Scanner.atStart none [')'] 1) "$c." _ "$a.b(".toList [')'] hwithin rfl
        (by rfl) (by rfl) (by rfl) (hinside _)

end Document

end Stencil
