import Stencil.Proofs.CourseDocument
import Stencil.Proofs.Local
import Stencil.Proofs.Siblings

/-!
# Nodes and the text that they do not reach

The readers of nodes and directives look at no text behind the character that they end at either:
`Read.Call.isLocal`. What follows a node after that character does not matter for it.
-/

namespace Stencil

open Stencil.Text

namespace Scan

variable {readInner : ReadInner} {taken cs ds : List Char}

theorem commentLength_append {last : Char} (h : commentLength last (taken ++ cs) = taken.length)
    (hhead : cs.head? = ds.head?) : commentLength last (taken ++ ds) = taken.length := by
  induction taken generalizing last with
  | nil =>
    cases cs with
    | nil =>
      obtain rfl := List.head?_eq_none_iff.1 hhead.symm
      rfl
    | cons c cs =>
      rw [List.nil_append, commentLength] at h
      split at h <;> cases h
  | cons c taken ih =>
    rw [List.cons_append, commentLength] at h ⊢
    split
    · rename_i hend
      rw [if_pos hend] at h
      exact h
    · rename_i hend
      rw [if_neg hend] at h
      rw [ih (Nat.succ.inj h), List.length_cons]

theorem verbatimText?_of_append {body : List Char} (h : verbatimText? (taken ++ cs) = some body)
    (hlength : taken.length = body.length + 3) : verbatimText? (taken ++ ds) = some body := by
  induction taken generalizing body with
  | nil => cases hlength
  | cons c taken ih =>
    rw [List.cons_append, verbatimText?.eq_def] at h
    split at h
    · rename_i tail heq
      obtain rfl := Option.some.inj h
      obtain ⟨rfl, htail⟩ := List.cons.inj heq
      match taken, hlength with
      | [d, e], _ =>
        simp only [List.cons_append, List.cons.injEq] at htail
        obtain ⟨rfl, rfl, -⟩ := htail
        rfl
    · rename_i c' cs' hno heq
      obtain ⟨rfl, rfl⟩ := List.cons.inj heq
      obtain ⟨body, hbody, rfl⟩ := Option.map_eq_some_iff.1 h
      rw [List.cons_append, verbatimText?, ih hbody (Nat.succ.inj hlength), Option.map_some]
      -- the three characters that would end it stand in what is taken
      match taken, hlength with
      | d :: e :: taken, _ =>
        rintro tail rfl htail
        simp only [List.cons_append, List.cons.injEq] at htail
        obtain ⟨rfl, rfl, -⟩ := htail
        exact hno _ rfl rfl
    · cases h

/-- Reads the text of a verbatim block, of which the brackets have been read, and what ends it. -/
def verbatimBody (start : Place) : Scan (List Char) := fun s =>
  match verbatimText? s.pending with
  | none => .error (.error ⟨.openVerbatim, start, none⟩) s
  | some body => .ok body (s.advanceBy (body.length + 3))

theorem verbatimBody_bind (start : Place) : (do
      let body ← verbatimBody start
      return .text (← here) (String.ofList body) : Scan Node) =
    (do
      match verbatimText? (← get).pending with
      | none => throw (.error ⟨.openVerbatim, start, none⟩)
      | some body =>
        modify (Scanner.advanceBy (body.length + 3))
        return .text (← here) (String.ofList body)) := by
  funext s
  show EStateM.bind (verbatimBody start) _ s = (match verbatimText? s.pending with
    | none => throw (ParseFailure.error ⟨.openVerbatim, start, none⟩)
    | some body => (do
      modify (Scanner.advanceBy (body.length + 3))
      return .text (← here) (String.ofList body) : Scan Node)) s
  rw [EStateM.bind, verbatimBody]
  cases verbatimText? s.pending <;> rfl

namespace Local

theorem plainText (start : List Char) : Local (plainText start) :=
  (takeWhile _).bind fun _ => here.bind fun _ => pure

theorem lineComment : Local lineComment :=
  here.bind fun _ => (takeWhile _).bind fun _ => skip.bind fun _ => pure

theorem blockComment : Local blockComment := by
  refine here.bind fun _ => skip.bind fun _ => Local.bind ?_ fun _ => pure
  refine takes (f := fun cs => some ((), commentLength ' ' cs)) ?_ nofun ?_ ?_
  · rintro s _ _ ⟨⟩
    rfl
  · rintro cs _ _ ⟨⟩
    exact commentLength_le ' ' cs
  · intro taken cs ds a h hhead
    have hlength := (Prod.mk.inj (Option.some.inj h)).2
    rw [commentLength_append hlength hhead]

theorem verbatimBody (start : Place) : Local (verbatimBody start) := by
  have hsome {cs body : List Char} {k : Nat} (h : (verbatimText? cs).map (fun b => (b, b.length + 3)) = some (body, k)) :
      verbatimText? cs = some body ∧ body.length + 3 = k := by
    obtain ⟨b, hb, hpair⟩ := Option.map_eq_some_iff.1 h
    obtain ⟨rfl, rfl⟩ := Prod.mk.inj hpair
    exact ⟨hb, rfl⟩
  refine takes (f := fun cs => (verbatimText? cs).map fun b => (b, b.length + 3)) ?_ ?_ ?_ ?_
  · intro s body k h
    obtain ⟨hbody, rfl⟩ := hsome h
    rw [Scan.verbatimBody, hbody]
  · intro s body t h hx
    rw [Scan.verbatimBody, Option.map_eq_none_iff.1 h] at hx
    cases hx
  · intro cs body k h
    obtain ⟨hbody, rfl⟩ := hsome h
    exact verbatimText?_length hbody
  · intro taken cs ds body h _
    obtain ⟨hbody, hlength⟩ := hsome h
    rw [verbatimText?_of_append hbody hlength.symm, Option.map_some, hlength]

theorem verbatim : Local verbatim := by
  refine skip.bind fun _ => peek.bind fun _ => ite (here.bind fun start => skip.bind fun _ => ?_) (plainText _)
  have hbody := (verbatimBody start).bind (f := fun body => do return Node.text (← Scan.here) (String.ofList body))
    fun _ => here.bind fun _ => pure
  rw [verbatimBody_bind] at hbody
  exact hbody

theorem directiveName : Local directiveName :=
  peek.bind fun _ => ite (skip.bind fun _ => (name _).bind fun _ => (expect _).bind fun _ => pure) (name _)

theorem close (allowed : List Mark) (inside : Enclosure) (m : Mark) : Local (close allowed inside m) :=
  ite pure fail

theorem dollar (n : Nat) : Local (dollar readInner n) := by
  have hreference (quiet : Bool) : Local (reference readInner n quiet) := (Call.reference quiet).isLocal n
  refine skip.bind fun _ => peek.bind fun c => optional skip (peek.bind fun _ => ite ?_ ?_)
  · refine skip.bind fun _ => (sees _).bind fun _ => ite ?_ (plainText _)
    exact (hreference _).bind fun _ => (expect _).bind fun _ => pure
  · exact (sees _).bind fun _ => ite ((hreference _).bind fun _ => pure) (plainText _)

theorem loopHead (n : Nat) : Local (loopHead readInner n) := by
  refine (expect _).bind fun _ => skipBlanks.bind fun _ => peek.bind fun _ => optional fail ?_
  refine (dollar n).bind fun x => ?_
  split
  · refine skipBlanks.bind fun _ => peek.bind fun _ => ite ?_ fail
    exact skip.bind fun _ => peek.bind fun _ => ite (skip.bind fun _ => pure) fail
  · exact fail

theorem assignment (n : Nat) : Local (assignment readInner n) :=
  (expect _).bind fun _ => (expect _).bind fun _ => (name _).bind fun _ => (expect _).bind fun _ =>
    (Call.expr.isLocal n).bind fun _ => (expect _).bind fun _ => pure

theorem parenthesised (n : Nat) : Local (parenthesised readInner n) :=
  (expect _).bind fun _ => ((Call.primary false).isLocal n).bind fun _ => (expect _).bind fun _ => pure

theorem leave (n : Nat) : Local (leave readInner n) := by
  refine skipBlanks.bind fun _ => peek.bind fun _ => ite ?_ (here.bind fun _ => pure)
  exact skip.bind fun _ => ((Call.primary false).isLocal n).bind fun _ => (expect _).bind fun _ =>
    here.bind fun _ => pure

end Local

end Scan

/-- A reader with more text behind what its scanner has. -/
def Reader.followedBy (r : Reader) (more : List Char) : Reader :=
  { r with scanner := r.scanner.followedBy more }

/-- Whether a step of reading nodes looks at no text behind the character that it ends at. -/
structure Read.Local {α : Type} (x : Read α) : Prop where
  shrinks : ∀ {r r' : Reader} {a : α}, x r = .ok a r' → r'.scanner.rest <:+ r.scanner.rest
  replays : ∀ {r r' : Reader} {a : α} {more : List Char}, more ≠ [] → x (r.followedBy more) = .ok a r' →
    more.length ≤ r'.scanner.rest.length →
      ∃ q : Reader, ∀ other, x (r.followedBy other) = .ok a (q.followedBy other)

namespace Read

open Scan hiding exhausted

variable {α β : Type} {readInner : ReadInner} {n m : Nat}

namespace Local

/-! ### Steps in a row -/

theorem pure {a : α} : Local (Pure.pure a : Read α) where
  shrinks := by
    rintro r _ _ ⟨⟩
    exact List.suffix_refl _
  replays := by
    rintro r _ _ more - ⟨⟩ -
    exact ⟨r, fun _ => rfl⟩

theorem exhausted : Local (Read.exhausted : Read α) :=
  ⟨nofun, fun _ => nofun⟩

theorem bind {x : Read β} {f : β → Read α} (hx : Local x) (hf : ∀ b, Local (f b)) : Local (x >>= f) where
  shrinks := by
    intro r r' a h
    obtain ⟨b, m, hb, h⟩ := bind_eq_ok.1 h
    exact ((hf b).shrinks h).trans (hx.shrinks hb)
  replays := by
    intro r r' a more hmore h hlength
    obtain ⟨b, m, hb, h⟩ := bind_eq_ok.1 h
    obtain ⟨q, hq⟩ := hx.replays hmore hb (hlength.trans ((hf b).shrinks h).length_le)
    obtain ⟨-, rfl⟩ := EStateM.Result.ok.inj (hb.symm.trans (hq more))
    obtain ⟨v, hv⟩ := (hf b).replays hmore h hlength
    exact ⟨v, fun other => bind_eq_ok.2 ⟨b, _, hq other, hv other⟩⟩

theorem map {x : Read β} {f : β → α} (hx : Local x) : Local (f <$> x) :=
  bind (f := fun b => Pure.pure (f b)) hx fun _ => pure

theorem ite {c : Prop} [Decidable c] {x y : Read α} (hx : Local x) (hy : Local y) :
    Local (if c then x else y) := by
  split
  · exact hx
  · exact hy

/-- A step on the scanner is local with any macros. -/
theorem scan {x : Scan α} (hx : Scan.Local x) : Local (Read.scan x) where
  shrinks := by
    intro r r' a h
    obtain ⟨s, hs, rfl⟩ := scan_eq_ok.1 h
    exact hx.shrinks hs
  replays := by
    intro r r' a more hmore h hlength
    obtain ⟨s, hs, rfl⟩ := scan_eq_ok.1 h
    obtain ⟨u, hu⟩ := hx.replays hs (.of_ne hmore hlength)
    exact ⟨⟨u, r.macros⟩, fun other => scan_eq_ok.2 ⟨_, hu other, rfl⟩⟩

theorem after {x : Scan β} {f : β → Read α} (hx : Scan.Local x) (hf : ∀ b, Local (f b)) :
    Local (Read.scan x >>= f) :=
  (scan hx).bind hf

theorem define (m : MacroDef) : Local (define m) where
  shrinks := by
    rintro r _ _ ⟨⟩
    exact List.suffix_refl _
  replays := by
    rintro r _ _ more - ⟨⟩ -
    exact ⟨{ r with macros := addMacro r.macros m }, fun _ => rfl⟩

end Local

section Readers

/-! ### One call more

Each reader is local, if the readers that it calls are. -/

variable (ih : ∀ {α : Type} (c : Call α), Local (c.run readInner n))

include ih

theorem local_nodes (done : List Node) : Local (nodes readInner (n + 1) done) := by
  refine (ih .item).bind fun x => ?_
  cases x with
  | mark m => exact .pure
  | node x => exact ih (.nodes (addNode done x))

theorem local_block (allowed : List Mark) (inside : Enclosure) :
    Local (block readInner (n + 1) allowed inside) :=
  .after .skipNewline fun _ => (ih (.nodes [])).bind fun p => .after (.close allowed inside p.2) fun _ => .pure

theorem local_item : Local (item readInner (n + 1)) := by
  have hnode {x : Scan Node} (hx : Scan.Local x) : Local (do return Item.node (← x) : Read Item) :=
    (Local.scan hx).map
  refine .after .peek fun c => ?_
  split
  · exact .pure
  · refine .after .skip fun _ => .after .peek fun c => ?_
    split
    · exact hnode .lineComment
    · exact hnode .blockComment
    · exact hnode .verbatim
    · exact ih .directive
    · refine .after .skip fun _ => .after (.sees _) fun _ => .ite ?_ (hnode (.plainText _))
      exact .after (.name _) fun x => (ih (.macroCall true x)).map
    · exact .ite (ih .directive) (hnode (.plainText _))
    · exact hnode (.plainText _)
  · exact hnode (.dollar n)
  · exact .after .skip fun _ => hnode (.plainText _)

theorem local_directive : Local (directive readInner (n + 1)) := by
  have hline (x : Item) : Local (do skipNewline; return x : Read Item) := .after .skipNewline fun _ => .pure
  have hread {x : Read Node} (hx : Local x) : Local (do return Item.node (← x)) := hx.map
  refine .after .directiveName fun d => ?_
  split
  · exact hline _
  · exact hline _
  · exact hline _
  · exact hread (ih (.choice "#if"))
  · exact hread (ih .loop)
  · exact hread (.scan (.leave n))
  · exact .after (.assignment n) fun _ => hline _
  · exact (ih .definition).bind fun _ => hline _
  · exact .after .here fun _ => .after (.parenthesised n) fun _ => hline _
  · exact hread (ih .macroDefinition)
  · exact .after .here fun _ => .after (.parenthesised n) fun _ => hline _
  · exact (ih (.macroCall false d)).bind fun _ => hline _

theorem local_afterBlock {allowed : List Mark} {inside : Enclosure} {f : List Node × Mark → Read α}
    (hf : ∀ p, Local (f p)) : Local (block readInner n allowed inside >>= f) :=
  (ih (.block allowed inside)).bind hf

theorem local_choice (opener : String) : Local (choice readInner (n + 1) opener) := by
  refine .after .here fun place => .after (.expect _) fun _ => .after (Scan.Call.expr.isLocal n) fun _ => ?_
  refine .after (.expect _) fun _ => local_afterBlock ih fun p => ?_
  obtain ⟨yes, m⟩ := p
  dsimp only
  split
  · exact (ih (.choice "#elseif")).map
  · refine .after .here fun _ => (ih (.nodes [])).bind fun p => ?_
    exact .after (.close _ _ p.2) fun _ => .pure
  · exact .after .here fun _ => .pure

theorem local_loop : Local (loop readInner (n + 1)) :=
  .after .here fun _ => .after (.loopHead n) fun _ => .after (Scan.Call.expr.isLocal n) fun _ =>
    .after (.expect _) fun _ => local_afterBlock ih fun _ => .pure

theorem local_definition : Local (definition readInner (n + 1)) :=
  .after .here fun _ => .after (.expect _) fun _ => .after (.expect _) fun _ => .after (.name _) fun _ =>
    .after (.expect _) fun _ => local_afterBlock ih fun _ => .pure

theorem local_macroDefinition : Local (macroDefinition readInner (n + 1)) :=
  .after .here fun _ => .after (.expect _) fun _ => .after .skipBlanks fun _ => .after (.name _) fun _ =>
    .after (@Scan.Call.isLocal readInner n _ .parameters) fun _ => local_afterBlock ih fun _ =>
      (Local.define _).bind fun _ => .after .here fun _ => .pure

theorem local_macroCall (hasBody : Bool) (name : String) :
    Local (macroCall readInner (n + 1) hasBody name) := by
  refine .after .here fun _ => .after (.takeWhile _) fun _ => .after .peek fun _ => .ite ?_ ?_
  · refine .after .skip fun _ => .after (Scan.Call.callArguments.isLocal n) fun _ => .ite ?_ ?_
    · exact local_afterBlock ih fun _ => .after .here fun _ => .pure
    · exact .after .here fun _ => .pure
  · exact .ite (.scan .fail) (.ite (.scan .fail) (.scan (.plainText _)))

end Readers

/-- No call looks at text behind the character that it ends at. -/
theorem Call.isLocal (n : Nat) {α : Type} (c : Call α) : Local (c.run readInner n) := by
  induction n generalizing α with
  | zero =>
    have hzero : c.run readInner 0 = exhausted := by cases c <;> rfl
    rw [hzero]
    exact .exhausted
  | succ n ih =>
    cases c with
    | nodes done => exact local_nodes ih done
    | block allowed inside => exact local_block ih allowed inside
    | item => exact local_item ih
    | directive => exact local_directive ih
    | choice opener => exact local_choice ih opener
    | loop => exact local_loop ih
    | definition => exact local_definition ih
    | macroDefinition => exact local_macroDefinition ih
    | macroCall hasBody name => exact local_macroCall ih hasBody name

end Read

end Stencil
