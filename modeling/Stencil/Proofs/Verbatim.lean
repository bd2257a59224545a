import Stencil.Proofs.Blocks
import Stencil.Proofs.ComesTo
import Stencil.Proofs.Inert
import Stencil.Proofs.Script
import Stencil.Proofs.Siblings

/-!
# Verbatim blocks

A verbatim block holds the text up to the first `]]#`, whatever is in it, and reading goes on after that as
if the text began there. The block is a text like others from then on: a block of white space may be dropped
before an assignment, and no other block is, so what it holds is written wherever it stands. Without a
`]]#` the text is refused on the line where the block begins.
-/

namespace Stencil

open Stencil.Text

/-- What begins a verbatim block. -/
def verbatimStart : List Char := ['#', '[', '[']

/-- What ends a verbatim block. -/
def verbatimEnd : List Char := [']', ']', '#']

/-! ### The end of a block -/

namespace Scan

variable {cs body : List Char}

/-- The first end of a block is the one that is found. -/
theorem verbatimText?_append (h : ¬ verbatimEnd <:+: body) (rest : List Char) :
    verbatimText? (body ++ verbatimEnd ++ rest) = some body := by
  induction body with
  | nil => rfl
  | cons c body ih =>
    have hbody : ¬ verbatimEnd <:+: body := fun hin => h (hin.trans (List.suffix_cons c body).isInfix)
    rw [List.cons_append, List.cons_append, verbatimText?, ih hbody]
    · rfl
    · rintro tail rfl htail
      -- the end that is seen would lie in the body, since the body is followed by two brackets
      match body with
      | [] => simp [verbatimEnd] at htail
      | [d] => simp [verbatimEnd] at htail
      | d :: e :: body =>
        simp only [List.cons_append, List.cons.injEq] at htail
        obtain ⟨rfl, rfl, -⟩ := htail
        exact h (List.prefix_append verbatimEnd body).isInfix

theorem verbatimText?_eq_none_iff : verbatimText? cs = none ↔ ¬ verbatimEnd <:+: cs := by
  fun_induction verbatimText? cs with
  | case1 tail =>
    have hend : verbatimEnd <:+: verbatimEnd ++ tail := (List.prefix_append verbatimEnd tail).isInfix
    exact iff_of_false (Option.some_ne_none _) (not_not_intro hend)
  | case2 c cs hc ih =>
    have hprefix : ¬ verbatimEnd <+: c :: cs := by
      rintro ⟨tail, htail⟩
      obtain ⟨rfl, rfl⟩ := List.cons.inj htail
      exact hc tail rfl rfl
    rw [Option.map_eq_none_iff, ih, List.infix_cons_iff, or_iff_right hprefix]
  | case3 => simp [verbatimEnd]

end Scan

/-- Unifying the ends of lines leaves what ends no line as it is. -/
theorem prefix_of_unifyNewlines {w cs : List Char} (hw : '\n' ∉ w) (h : w <+: unifyNewlines cs) : w <+: cs := by
  induction w generalizing cs with
  | nil => exact List.nil_prefix
  | cons c w ih =>
    simp only [List.mem_cons, not_or] at hw
    cases cs with
    | nil => exact h
    | cons d cs =>
      by_cases hd : d = '\r'
      · subst hd
        obtain ⟨rest, hrest⟩ := unifyNewlines_return cs
        rw [hrest, List.cons_prefix_cons] at h
        exact absurd h.1.symm hw.1
      · rw [unifyNewlines_cons_of_ne hd, List.cons_prefix_cons] at h
        exact List.cons_prefix_cons.2 ⟨h.1, ih hw.2 h.2⟩

theorem verbatimEnd_infix_of_unifyNewlines {cs : List Char} (h : verbatimEnd <:+: unifyNewlines cs) :
    verbatimEnd <:+: cs := by
  obtain ⟨p, hp, hsuffix⟩ := List.infix_iff_prefix_suffix.1 h
  obtain ⟨q, hq, rfl⟩ := suffix_unifyNewlines hsuffix
  exact (prefix_of_unifyNewlines (by decide) hp).isInfix.trans hq.isInfix

theorem all_isBlank_unifyNewlines (cs : List Char) : (unifyNewlines cs).all isBlank = cs.all isBlank := by
  fun_induction unifyNewlines cs with
  | case1 => rfl
  | case2 rest ih =>
    rw [List.all_cons, List.all_cons, List.all_cons, ih]
    rfl
  | case3 c rest _ ih =>
    rw [List.all_cons, List.all_cons, ih]
    split
    · rename_i hc
      rw [hc]
      rfl
    · rfl

theorem unifyNewlines_block (s rest : List Char) :
    unifyNewlines (verbatimStart ++ s ++ verbatimEnd ++ rest) =
      verbatimStart ++ unifyNewlines s ++ verbatimEnd ++ unifyNewlines rest := by
  simp [verbatimStart, verbatimEnd, unifyNewlines, unifyNewlines_append_cons]

/-! ### The scanner -/

namespace Scanner

theorem ofText_eq (text : String) (resource : Option String) : ofText text resource =
    ⟨resource, (unifyNewlines text.toList).head?, none, (unifyNewlines text.toList).tail,
      1 + newlines (unifyNewlines text.toList).head?.toList⟩ := by
  rw [ofText]
  cases unifyNewlines text.toList with
  | nil => rfl
  | cons c cs =>
    simp only [take, List.head?_cons, List.tail_cons, Option.toList_some, newlines_cons, newlines_nil]
    split <;> rfl

/-- Going on in a text, when nothing is put back, counts the line feeds that come up. -/
theorem advanceBy_run (resource : Option String) (p q : List Char) (c : Char) (line : Nat) :
    (⟨resource, some c, none, p ++ q, line⟩ : Scanner).advanceBy (p.length + 1) =
      ⟨resource, q.head?, none, q.tail, line + newlines p + newlines q.head?.toList⟩ := by
  induction p generalizing c line with
  | nil =>
    cases q with
    | nil => rfl
    | cons d q =>
      simp only [advanceBy, advance, take, List.nil_append, List.length_nil, Nat.zero_add, List.head?_cons,
        List.tail_cons, Option.toList_some, newlines_nil, newlines_cons, Nat.add_zero]
      split <;> rfl
  | cons d p ih =>
    rw [List.length_cons, advanceBy]
    have hnext : (⟨resource, some c, none, d :: p ++ q, line⟩ : Scanner).advance =
        ⟨resource, some d, none, p ++ q, line + if d = '\n' then 1 else 0⟩ := by
      simp only [advance, take, List.cons_append]
      split <;> rfl
    rw [hnext, ih, newlines_cons]
    congr 1
    omega

/-- The scanner at the beginning of a text that follows others, in the resource of a scanner and as many lines
after it as the others have line feeds. -/
def goOn (s : Scanner) (passed rest : List Char) : Scanner :=
  { ofText (String.ofList rest) s.resource with
    line := s.line + newlines (unifyNewlines passed) + newlines (unifyNewlines rest).head?.toList }

end Scanner

/-! ### Reading a block -/

namespace Scan

theorem pending_afterBrackets (resource : Option String) (cs : List Char) (line : Nat) :
    (⟨resource, some '[', none, '[' :: cs, line⟩ : Scanner).advance.advance.pending = cs := by
  rw [Scanner.pending_advance, Scanner.pending_advance]
  rfl

/-- After its hash sign and a bracket, a block is read up to its end. -/
theorem verbatim_closed (resource : Option String) (line : Nat) (h : verbatimText? cs = some body) :
    verbatim ⟨resource, some '[', none, '[' :: cs, line⟩ =
      let s := (⟨resource, some '[', none, cs, line⟩ : Scanner).advanceBy (body.length + 4)
      .ok (.text s.place (String.ofList body)) s := by
  refine (bind_ok rfl).trans ((bind_ok rfl).trans ?_)
  refine (bind_ok rfl).trans ((bind_ok rfl).trans ((bind_ok rfl).trans ?_))
  rw [pending_afterBrackets, h]
  rfl

/-- Without an end it is refused where it begins. -/
theorem verbatim_open (resource : Option String) (line : Nat) (h : verbatimText? cs = none) :
    verbatim ⟨resource, some '[', none, '[' :: cs, line⟩ =
      .error (.error ⟨.openVerbatim, ⟨resource, line⟩, none⟩)
        (⟨resource, some '[', none, cs, line⟩ : Scanner).advance := by
  refine (bind_ok rfl).trans ((bind_ok rfl).trans ?_)
  refine (bind_ok rfl).trans ((bind_ok rfl).trans ((bind_ok rfl).trans ?_))
  rw [pending_afterBrackets, h]
  rfl

end Scan

namespace Read

variable {readInner : ReadInner} {n : Nat} {r : Reader} {cs : List Char}

theorem scan_bind_ok {α β : Type} {x : Scan β} {f : β → Read α} {b : β} {t : Scanner}
    (h : x r.scanner = .ok b t) : (Read.scan x >>= f) r = f b ⟨t, r.macros⟩ := by
  show EStateM.bind (Read.scan x) f r = _
  rw [EStateM.bind, Read.scan, h]

theorem bind_error {α β : Type} {x : Read β} {f : β → Read α} {e : ParseFailure} {r' : Reader}
    (h : x r = .error e r') : (x >>= f) r = .error e r' := by
  show EStateM.bind x f r = _
  rw [EStateM.bind, h]

theorem scan_error {α : Type} {x : Scan α} {e : ParseFailure} {t : Scanner}
    (h : x r.scanner = .error e t) : Read.scan x r = .error e ⟨t, r.macros⟩ := by
  rw [Read.scan, h]

/-- A hash sign with two brackets begins a verbatim block. -/
theorem item_eq_verbatim (h : r.scanner.pending = verbatimStart ++ cs) :
    item readInner (n + 1) r = (do return Item.node (← Scan.verbatim) : Read Item)
      ⟨⟨r.scanner.resource, some '[', none, '[' :: cs, r.scanner.line⟩, r.macros⟩ := by
  have hcurrent : Scan.peek r.scanner = .ok (some '#') r.scanner := by
    show EStateM.Result.ok r.scanner.current _ = _
    rw [Scanner.current_eq, h]
    rfl
  have hskip : Scan.skip r.scanner =
      .ok () ⟨r.scanner.resource, some '[', none, '[' :: cs, r.scanner.line⟩ := by
    show EStateM.Result.ok () r.scanner.advance = _
    rw [Scanner.advance_eq_of_pending h (by decide)]
    rfl
  rw [item]
  exact (scan_bind_ok hcurrent).trans ((scan_bind_ok hskip).trans (scan_bind_ok rfl))

/-- A block is read up to the first end, as a text with what it holds, and reading goes on after that. -/
theorem item_verbatim (readInner : ReadInner) (n : Nat) {s rest : List Char} (hs : ¬ verbatimEnd <:+: s)
    (h : r.scanner.pending = unifyNewlines (verbatimStart ++ s ++ verbatimEnd ++ rest)) :
    item readInner (n + 1) r =
      .ok (.node (.text (r.scanner.goOn s rest).place (String.ofList (unifyNewlines s))))
        ⟨r.scanner.goOn s rest, r.macros⟩ := by
  rw [unifyNewlines_block, List.append_assoc, List.append_assoc, ← List.append_assoc (unifyNewlines s)] at h
  have hgoOn : (⟨r.scanner.resource, some '[', none,
        unifyNewlines s ++ verbatimEnd ++ unifyNewlines rest, r.scanner.line⟩ : Scanner).advanceBy
      ((unifyNewlines s).length + 4) = r.scanner.goOn s rest := by
    have hrun := Scanner.advanceBy_run r.scanner.resource (unifyNewlines s ++ verbatimEnd)
      (unifyNewlines rest) '[' r.scanner.line
    have hlines : newlines (unifyNewlines s ++ verbatimEnd) = newlines (unifyNewlines s) :=
      List.count_append.trans rfl
    rw [List.length_append, hlines] at hrun
    rw [Scanner.goOn, Scanner.ofText_eq, String.toList_ofList]
    exact hrun
  have hbody := Scan.verbatimText?_append (fun hin => hs (verbatimEnd_infix_of_unifyNewlines hin))
    (unifyNewlines rest)
  have hread := Scan.verbatim_closed r.scanner.resource r.scanner.line hbody
  dsimp only at hread
  rw [hgoOn] at hread
  rw [item_eq_verbatim h]
  exact scan_bind_ok hread

/-- Without an end a block is refused where it begins. -/
theorem item_openVerbatim (readInner : ReadInner) (n : Nat) {q : List Char} (hq : ¬ verbatimEnd <:+: q)
    (h : r.scanner.pending = unifyNewlines (verbatimStart ++ q)) :
    ∃ r', item readInner (n + 1) r = .error (.error ⟨.openVerbatim, r.scanner.place, none⟩) r' := by
  have hstart : unifyNewlines (verbatimStart ++ q) = verbatimStart ++ unifyNewlines q :=
    unifyNewlines_append_of_no_return (by decide) q
  rw [hstart] at h
  have hnone : Scan.verbatimText? (unifyNewlines q) = none :=
    Scan.verbatimText?_eq_none_iff.2 fun hin => hq (verbatimEnd_infix_of_unifyNewlines hin)
  rw [item_eq_verbatim h]
  exact ⟨_, bind_error (scan_error (Scan.verbatim_open r.scanner.resource r.scanner.line hnone))⟩

/-- A sequence that begins with a node goes on after it. -/
theorem readsItems_cons_iff {x : Node} {r₁ r' : Reader} {m : Mark} {raw : List Node}
    (h : item readInner n r = .ok (.node x) r₁) : ReadsItems readInner (n + 1) r raw m r' ↔
      ∃ rest, raw = x :: rest ∧ ReadsItems readInner n r₁ rest m r' := by
  constructor
  · intro hraw
    cases hraw with
    | mark hmark => cases h.symm.trans hmark
    | node hnode hrest =>
      cases h.symm.trans hnode
      exact ⟨_, rfl, hrest⟩
  · rintro ⟨rest, rfl, hrest⟩
    exact .node h hrest

end Read

/-! ### A block among its siblings -/

/-- The nodes that reading makes of those of a sequence, or of a macro body. -/
def sequenceOf (inMacro : Bool) (raw : List Node) : List Node :=
  if inMacro then dropInitialBlank (assemble raw) else assemble raw

/-- Whether a node among others is dropped before an assignment, in a macro body also as its beginning. -/
def Node.givesWayBetween (inMacro : Bool) (before : List Node) (x : Node) (after : List Node) : Bool :=
  after.head?.any Node.isAssign &&
    (x.givesWayAfter before.getLast? || inMacro && before.isEmpty && x.isBlank)

section Siblings

variable {inMacro : Bool} {before after : List Node} {x : Node}

theorem givesWayAt_between :
    givesWayAt (before ++ x :: after) before.length = x.givesWayBetween false before after := by
  cases after with
  | nil => exact givesWayAt_last before x
  | cons next rest => simp [givesWayAt_append, Node.givesWayBetween]

theorem givesWayInMacro_between :
    givesWayInMacro (before ++ x :: after) before.length = x.givesWayBetween true before after := by
  rw [givesWayInMacro, givesWayAt_between]
  cases before with
  | nil => cases after <;> simp [Node.givesWayBetween, Bool.and_or_distrib_left, Bool.and_comm]
  | cons y before => simp [Node.givesWayBetween]

theorem Node.isBlank_of_givesWayBetween (h : x.givesWayBetween inMacro before after = true) :
    x.isBlank = true ∧ after.head?.any Node.isAssign = true := by
  obtain ⟨hnext, h⟩ := Bool.and_eq_true_iff.1 h
  rcases Bool.or_eq_true_iff.1 h with h | h
  · exact ⟨isBlank_of_givesWayAfter h, hnext⟩
  · exact ⟨(Bool.and_eq_true_iff.1 h).2, hnext⟩

/-- A node among others is dropped or stays where it is, and so are the others. -/
theorem exists_sequenceOf (inMacro : Bool) (before : List Node) (x : Node) (after : List Node) :
    ∃ front back, front.Sublist before ∧ back.Sublist after ∧
      sequenceOf inMacro (before ++ x :: after) =
        front ++ (if x.givesWayBetween inMacro before after then [] else [x]) ++ back := by
  have hsplit {drop : Nat → Bool} {dropped : Bool} (h : drop before.length = dropped) :
      ∃ front back, front.Sublist before ∧ back.Sublist after ∧
        leaveOut drop 0 (before ++ x :: after) = front ++ (if dropped then [] else [x]) ++ back := by
    refine ⟨leaveOut drop 0 before, leaveOut drop (before.length + 1) after, leaveOut_sublist ..,
      leaveOut_sublist .., ?_⟩
    rw [leaveOut_append, leaveOut_cons, Nat.zero_add, h]
    split <;> simp
  rw [sequenceOf, dropInitialBlank_assemble, assemble_eq]
  cases inMacro with
  | true => exact hsplit givesWayInMacro_between
  | false => exact hsplit givesWayAt_between

end Siblings

/-- A text that is not dropped is written. -/
theorem run_text_between (scope : Scope) (d : Deeper) (front back : List Node) (place : Place) (s : String)
    (dropped : Bool) :
    (renderNodes scope (front ++ (if dropped then [] else [.text place s]) ++ back)).run d = (do
      (renderNodes scope front).run d
      Run.write (if dropped then "" else s)
      (renderNodes scope back).run d) := by
  have hmiddle : (renderNodes scope (if dropped then [] else [.text place s])).run d =
      Run.write (if dropped then "" else s) := by
    funext st
    cases dropped with
    | true =>
      show EStateM.Result.ok () st = .ok () { st with written := st.written ++ "" }
      rw [String.append_empty]
    | false => rfl
  rw [run_renderNodes_append, run_renderNodes_append, bind_assoc, hmiddle]

/-! ### Blocks that are not closed -/

namespace Document

/-- Where reading a text comes to a block that is not closed, the text is refused on the line where the block
begins. -/
theorem readWith_openVerbatim {readInner : ReadInner} {resource : Option String} {text : String}
    {before q : List Char} {n : Nat} {u : Reader} (htext : text.toList = before ++ verbatimStart ++ q)
    (hq : ¬ verbatimEnd <:+: q) (hu : u.scanner.pending = unifyNewlines (verbatimStart ++ q))
    (h : Comes Reader.Reaches (Read.item readInner (n + 1)) u
      (Read.document readInner (fuelFor (.ofText text resource))) ⟨.ofText text resource, []⟩) :
    readWith readInner resource text =
      .error (.error ⟨.openVerbatim, ⟨resource, 1 + newlines (unifyNewlines before)⟩, none⟩) := by
  obtain ⟨u', hitem⟩ := Read.item_openVerbatim readInner n hq hu
  have hreaches : (Scanner.ofText text resource).Reaches u.scanner :=
    h.related (fun _ => .refl _) fun _ _ _ => .trans
  obtain ⟨hresource, hlast⟩ := hreaches.same_text
  have hblock : unifyNewlines (verbatimStart ++ q) = verbatimStart ++ unifyNewlines q :=
    unifyNewlines_append_of_no_return (by decide) q
  have htotal : newlines (unifyNewlines text.toList) =
      newlines (unifyNewlines before) + newlines (unifyNewlines q) := by
    have hsplit : unifyNewlines (before ++ (verbatimStart ++ q)) =
        unifyNewlines before ++ unifyNewlines (verbatimStart ++ q) := unifyNewlines_append_cons (by decide) _ _
    rw [htext, List.append_assoc, hsplit, hblock, newlines, List.count_append]
    rfl
  have hplace : u.scanner.place = ⟨resource, 1 + newlines (unifyNewlines before)⟩ := by
    have hafter : u.scanner.lastLine = u.scanner.line + newlines ('[' :: unifyNewlines q) :=
      Scanner.lastLine_of_pending (hu.trans hblock) (by decide)
    rw [newlines_cons, if_neg (by decide)] at hafter
    have hfirst := Scanner.lastLine_ofText text resource
    have hline : u.scanner.line = 1 + newlines (unifyNewlines before) := by omega
    rw [Scanner.place, hresource, hline, Scanner.ofText_eq]
  rw [hplace] at hitem
  rw [readWith, h.fails hitem]

/-- Verbatim blocks. A block is read up to the first end, whatever it holds, and reading goes on after that as
at the beginning of a text. Wherever the block stands among its siblings, what it holds is written between
what is written before it and after it, unless it is dropped, as other white space is, in front of an
assignment. Where reading a text comes to a block without an end, the text is refused with the line on which
the block begins, and so is a text with a literal that is refused for it. -/
theorem verbatim_blocks (readInner : ReadInner) :
    (∀ (n : Nat) (r : Reader) (s rest : List Char), ¬ verbatimEnd <:+: s →
      r.scanner.pending = unifyNewlines (verbatimStart ++ s ++ verbatimEnd ++ rest) →
      ∃ text place, text = Node.text place (String.ofList (unifyNewlines s)) ∧
        Read.item readInner (n + 1) r = .ok (.node text) ⟨r.scanner.goOn s rest, r.macros⟩ ∧
        (∀ raw m r', ReadsItems readInner (n + 2) r raw m r' ↔ ∃ others, raw = text :: others ∧
          ReadsItems readInner (n + 1) ⟨r.scanner.goOn s rest, r.macros⟩ others m r') ∧
        ∀ inMacro before after,
          (text.givesWayBetween inMacro before after = true →
            s.all isBlank = true ∧ after.head?.any Node.isAssign = true) ∧
          ∃ front back, front.Sublist before ∧ back.Sublist after ∧
            sequenceOf inMacro (before ++ text :: after) = front ++
              (if text.givesWayBetween inMacro before after then [] else [text]) ++ back ∧
            ∀ scope d, (renderNodes scope (sequenceOf inMacro (before ++ text :: after))).run d = (do
              (renderNodes scope front).run d
              Run.write (if text.givesWayBetween inMacro before after then ""
                else String.ofList (unifyNewlines s))
              (renderNodes scope back).run d)) ∧
    (∀ (resource : Option String) (text : String) (before q : List Char) (n : Nat) (u : Reader),
      text.toList = before ++ verbatimStart ++ q → ¬ verbatimEnd <:+: q →
      u.scanner.pending = unifyNewlines (verbatimStart ++ q) →
      Comes Reader.Reaches (Read.item readInner (n + 1)) u
        (Read.document readInner (fuelFor (.ofText text resource))) ⟨.ofText text resource, []⟩ →
      readWith readInner resource text =
        .error (.error ⟨.openVerbatim, ⟨resource, 1 + newlines (unifyNewlines before)⟩, none⟩)) ∧
    ∀ (resource : Option String) (text name literal : String) (e : ParseFailure) (α : Type) (y : Scan α)
      (u : Reader) (s : Scanner),
      Comes Reader.Reaches (Read.scan y) u
        (Read.document readInner (fuelFor (.ofText text resource))) ⟨.ofText text resource, []⟩ →
      Comes Scanner.Reaches (Scan.inner (readInner name literal)) s y u.scanner →
      readInner name literal = .error e → readWith readInner resource text = .error e := by
  refine ⟨fun n r s rest hs hr => ?_, fun resource text before q n u htext hq hu h => ?_, ?_⟩
  · have hitem := Read.item_verbatim readInner n hs hr
    refine ⟨_, _, rfl, hitem, fun raw m r' => Read.readsItems_cons_iff hitem, ?_⟩
    intro inMacro before after
    refine ⟨fun hdropped => ?_, ?_⟩
    · obtain ⟨hblank, hnext⟩ := Node.isBlank_of_givesWayBetween hdropped
      rw [Node.isBlank, String.toList_ofList, all_isBlank_unifyNewlines] at hblank
      exact ⟨hblank, hnext⟩
    · obtain ⟨front, back, hfront, hback, hsequence⟩ := exists_sequenceOf inMacro before _ after
      refine ⟨front, back, hfront, hback, hsequence, fun scope d => ?_⟩
      rw [hsequence, run_text_between]
  · exact readWith_openVerbatim htext hq hu h
  · intro resource text name literal e α y u s hread hscan he
    have hinner : Scan.inner (readInner name literal) s = .error e s := by
      rw [he]
      rfl
    rw [readWith, hread.fails (Read.scan_error (hscan.fails hinner))]

/-- A block with brackets in it and at its end, one that is not closed, and one that is not closed in a
literal. -/
theorem verbatim_blocks_of_text :
    (∃ place r', Read.item readInside 1 ⟨.ofText "#[[ $x ]] #if]]]#b" none, []⟩ =
      .ok (.node (.text place " $x ]] #if]")) r' ∧ r'.scanner.pending = ['b']) ∧
    readWith readInside none "a\n#[[b]" = .error (.error ⟨.openVerbatim, ⟨none, 2⟩, none⟩) ∧
    read none "#evaluate(\"#[[b\")" =
      .error (.error ⟨.openVerbatim, ⟨some "string on line 1", 1⟩, none⟩) := by
  refine ⟨?_, ?_, ?_⟩
  · obtain ⟨_, place, rfl, hitem, -⟩ := (verbatim_blocks readInside).1 0
      ⟨.ofText "#[[ $x ]] #if]]]#b" none, []⟩ " $x ]] #if]".toList ['b'] (by decide) rfl
    exact ⟨place, _, hitem, rfl⟩
  · have htext : Read.item readInside 71 ⟨.ofText "a\n#[[b]" none, []⟩ =
        .ok (.node (.text ⟨none, 2⟩ "a\n")) ⟨⟨none, some '#', none, ['[', '[', 'b', ']'], 2⟩, []⟩ := rfl
    have hcomes : Comes Reader.Reaches (Read.item readInside 70) _ (Read.nodes readInside (71 + 1) []) _ :=
      Read.comes_past htext (Read.comes_item .here)
    exact (verbatim_blocks readInside).2.1 none "a\n#[[b]" ['a', '\n'] ['b', ']'] 69
      ⟨⟨none, some '#', none, ['[', '[', 'b', ']'], 2⟩, []⟩ rfl (by decide) rfl (.first hcomes)
  · have hliteral : readInside "string on line 1" "#[[b" =
        .error (.error ⟨.openVerbatim, ⟨some "string on line 1", 1⟩, none⟩) := by
      rw [readInside, (verbatim_blocks _).2.1 (some "string on line 1") "#[[b" [] ['b'] 46
        ⟨.ofText "#[[b" (some "string on line 1"), []⟩ rfl (by decide) rfl (.first (.first .here))]
      rfl
    refine (verbatim_blocks readInside).2.2 none "#evaluate(\"#[[b\")" "string on line 1" "#[[b" _ Expr
      (Scan.parenthesised readInside 149) ⟨⟨none, some '(', none, "\"#[[b\")".toList, 1⟩, []⟩
      ⟨none, some ')', none, [], 1⟩ ?_ ?_ hliteral
    · refine .first (.first (.later rfl ⟨[], rfl⟩ (.later rfl ⟨[.advance], rfl⟩ (.later rfl ⟨[], rfl⟩ ?_))))
      refine .later (b := "evaluate") rfl ⟨List.replicate 8 .advance, rfl⟩ ?_
      exact .later rfl ⟨[], rfl⟩ (.first .here)
    · refine .later rfl ⟨[.advance], rfl⟩ (.first (.later rfl ⟨[], rfl⟩ (.later rfl ⟨[], rfl⟩ (.first ?_))))
      refine .later rfl ⟨[.advance], rfl⟩ (.later rfl ⟨List.replicate 5 .advance, rfl⟩ ?_)
      exact .later rfl ⟨[], rfl⟩ (.first .here)

end Document

end Stencil
