import Stencil.Proofs.ElseIf
import Stencil.Proofs.Within

/-!
# Calls within the reading of nodes

The calls that stand in the definitions of the readers of nodes and directives, `Read.Carries`, and those of
readers of expressions among them, `Read.CarriesExpr`. `Read.Within` and `Read.WithinExpr` follow them from call
to call, so that they tell where in a text a node of a sequence or an expression begins: where the reading of the
text comes to it. Two texts that are the same up to there, and are read alike from there, are read alike.
-/

namespace Stencil

open Stencil.Text

/-- Where the name of a reference begins that the dollar sign here belongs to: behind the mark for quietness and
the brace, which may be left out. -/
inductive Scan.Dollar (s : Scanner) : Bool → Scanner → Prop
  | quiet {t : Scanner} (hs : s.advance.current = some '!')
      (ht : (if s.advance.advance.current = some '\x7b' then s.advance.advance.advance else s.advance.advance) = t)
      (hletter : t.current.any isLetter = true) : Dollar s true t
  | plain {t : Scanner} (hs : s.advance.current ≠ some '!')
      (ht : (if s.advance.current = some '\x7b' then s.advance.advance else s.advance) = t)
      (hletter : t.current.any isLetter = true) : Dollar s false t

namespace Read

/-- The calls that a call makes: `Carries readInner n c r d r'` says that `c` from `r` makes the call `d` from `r'`,
each as it stands in the definition of the reader. -/
inductive Carries (readInner : ReadInner) (n : Nat) : {α β : Type} → Call α → Reader → Call β → Reader → Prop
  | nodesItem {done r} : Carries readInner n (.nodes done) r .item r
  | nodesOn {done r r' x} (hx : item readInner n r = .ok (.node x) r') :
      Carries readInner n (.nodes done) r (.nodes (addNode done x)) r'
  | blockNodes {allowed inside s ms} :
      Carries readInner n (.block allowed inside) ⟨s, ms⟩ (.nodes []) ⟨s.skipNewline, ms⟩
  | itemDirective {s ms c} (hs : s.current = some '#') (hc : s.advance.current = some c)
      (hname : isLetter c = true ∨ c = '\x7b') : Carries readInner n .item ⟨s, ms⟩ .directive ⟨s.advance, ms⟩
  | itemCall {s t ms x} (hs : s.current = some '#') (hat : s.advance.current = some '@')
      (hx : Scan.name "#@" s.advance.advance = .ok x t) :
      Carries readInner n .item ⟨s, ms⟩ (.macroCall true x) ⟨t, ms⟩
  | directiveIf {s t ms} (hd : Scan.directiveName s = .ok "if" t) :
      Carries readInner n .directive ⟨s, ms⟩ (.choice "#if") ⟨t, ms⟩
  | directiveForeach {s t ms} (hd : Scan.directiveName s = .ok "foreach" t) :
      Carries readInner n .directive ⟨s, ms⟩ .loop ⟨t, ms⟩
  | directiveDefine {s t ms} (hd : Scan.directiveName s = .ok "define" t) :
      Carries readInner n .directive ⟨s, ms⟩ .definition ⟨t, ms⟩
  | directiveMacro {s t ms} (hd : Scan.directiveName s = .ok "macro" t) :
      Carries readInner n .directive ⟨s, ms⟩ .macroDefinition ⟨t, ms⟩
  | directiveCall {s t ms d} (hd : Scan.directiveName s = .ok d t) (hother : d ∉ directiveKeywords) :
      Carries readInner n .directive ⟨s, ms⟩ (.macroCall false d) ⟨t, ms⟩
  | choiceBlock {opener s t u v ms c} (hopen : Scan.expect '(' s = .ok () t)
      (hc : Scan.expr readInner n t = .ok c u) (hclose : Scan.expect ')' u = .ok () v) :
      Carries readInner n (.choice opener) ⟨s, ms⟩
        (.block [.otherwise, .elseIf, .endBlock] (.directive opener s.place.line)) ⟨v, ms⟩
  | choiceElseIf {opener s t u v ms c yes r} (hopen : Scan.expect '(' s = .ok () t)
      (hc : Scan.expr readInner n t = .ok c u) (hclose : Scan.expect ')' u = .ok () v)
      (hyes : block readInner n [.otherwise, .elseIf, .endBlock] (.directive opener s.place.line) ⟨v, ms⟩ =
        .ok (yes, .elseIf) r) :
      Carries readInner n (.choice opener) ⟨s, ms⟩ (.choice "#elseif") r
  | choiceElse {opener s t u v ms c yes r} (hopen : Scan.expect '(' s = .ok () t)
      (hc : Scan.expr readInner n t = .ok c u) (hclose : Scan.expect ')' u = .ok () v)
      (hyes : block readInner n [.otherwise, .elseIf, .endBlock] (.directive opener s.place.line) ⟨v, ms⟩ =
        .ok (yes, .otherwise) r) :
      Carries readInner n (.choice opener) ⟨s, ms⟩ (.nodes []) r
  | loopBlock {s t u v ms x e} (hhead : Scan.loopHead readInner n s = .ok x t) (he : Scan.expr readInner n t = .ok e u)
      (hclose : Scan.expect ')' u = .ok () v) :
      Carries readInner n .loop ⟨s, ms⟩ (.block [.endBlock] (.directive "#foreach" s.place.line)) ⟨v, ms⟩
  | definitionBlock {s t u v w ms x} (hopen : Scan.expect '(' s = .ok () t) (hdollar : Scan.expect '$' t = .ok () u)
      (hx : Scan.name "#define variable" u = .ok x v) (hclose : Scan.expect ')' v = .ok () w) :
      Carries readInner n .definition ⟨s, ms⟩ (.block [.endBlock] (.directive "#define" s.place.line)) ⟨w, ms⟩
  | macroBlock {s t u v ms x params} (hopen : Scan.expect '(' s = .ok () t)
      (hx : Scan.name "Macro name" t.skipBlanks = .ok x u) (hparams : Scan.parameters n u = .ok params v) :
      Carries readInner n .macroDefinition ⟨s, ms⟩ (.block [.endBlock] (.directive "#macro" s.place.line)) ⟨v, ms⟩
  | callBlock {s t u ms x bs args} (hblanks : Scan.takeWhile isBlank s = .ok bs t) (hopen : t.current = some '(')
      (hargs : Scan.callArguments readInner n t.advance = .ok args u) :
      Carries readInner n (.macroCall true x) ⟨s, ms⟩ (.block [.endBlock] (.body x s.place.line)) ⟨u, ms⟩

/-- The calls of readers of expressions that a call makes. -/
inductive CarriesExpr (readInner : ReadInner) (n : Nat) :
    {α β : Type} → Call α → Reader → Scan.Call β → Scanner → Prop
  | itemReference {s t ms quiet} (hs : s.current = some '$') (ht : Scan.Dollar s quiet t) :
      CarriesExpr readInner n .item ⟨s, ms⟩ (.reference quiet) t
  | directiveBreak {s t ms} (hd : Scan.directiveName s = .ok "break" t) (hopen : t.skipBlanks.current = some '(') :
      CarriesExpr readInner n .directive ⟨s, ms⟩ (.primary false) t.skipBlanks.advance
  | directiveSet {s t u v w w' ms x} (hd : Scan.directiveName s = .ok "set" t) (hopen : Scan.expect '(' t = .ok () u)
      (hdollar : Scan.expect '$' u = .ok () v) (hx : Scan.name "#set variable" v = .ok x w)
      (hequal : Scan.expect '=' w = .ok () w') : CarriesExpr readInner n .directive ⟨s, ms⟩ .expr w'
  | directiveParse {s t u ms} (hd : Scan.directiveName s = .ok "parse" t) (hopen : Scan.expect '(' t = .ok () u) :
      CarriesExpr readInner n .directive ⟨s, ms⟩ (.primary false) u
  | directiveEvaluate {s t u ms} (hd : Scan.directiveName s = .ok "evaluate" t) (hopen : Scan.expect '(' t = .ok () u) :
      CarriesExpr readInner n .directive ⟨s, ms⟩ (.primary false) u
  | choiceCondition {opener s t ms} (hopen : Scan.expect '(' s = .ok () t) :
      CarriesExpr readInner n (.choice opener) ⟨s, ms⟩ .expr t
  | loopVariable {s t u ms quiet} (hopen : Scan.expect '(' s = .ok () t) (ht : t.skipBlanks.current = some '$')
      (hu : Scan.Dollar t.skipBlanks quiet u) : CarriesExpr readInner n .loop ⟨s, ms⟩ (.reference quiet) u
  | loopCollection {s t ms x} (hhead : Scan.loopHead readInner n s = .ok x t) :
      CarriesExpr readInner n .loop ⟨s, ms⟩ .expr t
  | callArguments {s t ms hasBody x bs} (hblanks : Scan.takeWhile isBlank s = .ok bs t) (hopen : t.current = some '(') :
      CarriesExpr readInner n (.macroCall hasBody x) ⟨s, ms⟩ .callArguments t.advance

/-- A call stands on the way of another one, through the calls between them. -/
inductive Within (readInner : ReadInner) {β : Type} (m : Nat) (d : Call β) (u : Reader) :
    {α : Type} → Nat → Call α → Reader → Prop
  | here : Within readInner m d u m d u
  | further {α γ : Type} {n : Nat} {c : Call α} {c' : Call γ} {r r' : Reader} (h : Carries readInner n c r c' r')
      (h' : Within readInner m d u n c' r') : Within readInner m d u (n + 1) c r

/-- The call of a reader of expressions stands on the way of a call. -/
inductive WithinExpr (readInner : ReadInner) {β : Type} (m : Nat) (d : Scan.Call β) (u : Scanner) :
    {α : Type} → Nat → Call α → Reader → Prop
  | enter {α γ : Type} {n : Nat} {c : Call α} {c' : Scan.Call γ} {r : Reader} {s : Scanner}
      (h : CarriesExpr readInner n c r c' s) (h' : Scan.Within readInner m d u n c' s) :
      WithinExpr readInner m d u (n + 1) c r
  | further {α γ : Type} {n : Nat} {c : Call α} {c' : Call γ} {r r' : Reader} (h : Carries readInner n c r c' r')
      (h' : WithinExpr readInner m d u n c' r') : WithinExpr readInner m d u (n + 1) c r

/-- When results of a call differ in places only. -/
def Call.Like : {α : Type} → Call α → α → α → Prop
  | _, .nodes _ | _, .block _ _ => LikeSequence
  | _, .item | _, .directive => LikeItem
  | _, .choice _ | _, .loop | _, .definition | _, .macroDefinition | _, .macroCall _ _ => LikeNode false

/-- Whether a step from a reader looks at no text behind the character that it ends at, and leaves nothing put
back there but a period. -/
structure Steady {α : Type} (x : Read α) (r : Reader) : Prop where
  isLocal : Local x
  settled : ∀ {a : α} {r' : Reader}, x r = .ok a r' → r.scanner.Settled → r'.scanner.Settled

namespace Steady

variable {α : Type} {r : Reader}

theorem scan {x : Scan α} (hx : Scan.Steady x r.scanner) : Steady (Read.scan x) r := by
  refine ⟨.scan hx.isLocal, fun h hr => ?_⟩
  obtain ⟨t, ht, rfl⟩ := scan_eq_ok.1 h
  exact hx.settled ht hr

theorem call {readInner : ReadInner} {n : Nat} (c : Call α) : Steady (c.run readInner n) r :=
  ⟨c.isLocal n, c.settled⟩

end Steady

/-- What stands on the way of a reader of nodes. -/
abbrev Midway {β : Type} (B : β → β → Prop) (z : Read β) (u : Reader) {α : Type} (A : α → α → Prop)
    (x : Read α) (r : Reader) : Prop :=
  Stencil.Midway Steady (Reader.Beside false) B z u A x r

namespace Midway

variable {α β γ : Type} {A : α → α → Prop} {B : β → β → Prop} {C : γ → γ → Prop} {x y : Read α} {z : Read β}
  {r u : Reader}

theorem here : Midway B z u B z u :=
  Stencil.Midway.here

theorem first {x : Read γ} {f : γ → Read α} (h : Midway B z u C x r)
    (hf : ∀ c c', C c c' → Alike false A (f c) (f c')) : Midway B z u A (x >>= f) r :=
  Stencil.Midway.first h hf

theorem later {x : Read γ} {f : γ → Read α} {r' : Reader} {c : γ} (hx : Steady x r) (hc : x r = .ok c r')
    (h : Midway B z u A (f c) r') : Midway B z u A (x >>= f) r :=
  Stencil.Midway.later hx hc h

/-- A step on the scanner before. -/
theorem after {x : Scan γ} {f : γ → Read α} {t : Scanner} {c : γ} (hx : Scan.Steady x r.scanner)
    (hc : x r.scanner = .ok c t) (h : Midway B z u A (f c) ⟨t, r.macros⟩) : Midway B z u A (scan x >>= f) r :=
  .later (.scan hx) (scan_eq_ok.2 ⟨t, hc, rfl⟩) h

theorem peeks {f : Option Char → Read α} {c : Option Char} (hc : r.scanner.current = c)
    (h : Midway B z u A (f c) r) : Midway B z u A (scan Scan.peek >>= f) r :=
  .after .peek (congrArg (EStateM.Result.ok · r.scanner) hc) h

theorem skips {f : Unit → Read α} (h : Midway B z u A (f ()) ⟨r.scanner.advance, r.macros⟩) :
    Midway B z u A (scan Scan.skip >>= f) r :=
  .after .skip rfl h

theorem yes {p : Prop} [Decidable p] (hp : p) (h : Midway B z u A x r) : Midway B z u A (if p then x else y) r := by
  rwa [if_pos hp]

/-- What is made of the result of a step does not depend on where the step was taken. -/
theorem made {x : Read γ} {f : γ → α} (h : Midway B z u C x r) (hf : ∀ c c', C c c' → A (f c) (f c')) :
    Midway B z u A (f <$> x) r :=
  .first (f := fun c => Pure.pure (f c)) h fun c c' hc => .pure (hf c c' hc)

/-- What stands on the way of a step on the scanner. -/
theorem scan {z : Scan β} {s t : Scanner} {x : Scan α} (h : Scan.Midway B z t A x s) (ms : List MacroDef) :
    Midway B (Read.scan z) ⟨t, ms⟩ A (Read.scan x) ⟨s, ms⟩ := by
  induction h with
  | here => exact .here
  | first _ hf ih =>
    rw [scan_bind]
    exact .first ih fun c c' hc => alike_scan (hf c c' hc)
  | later hx hc _ ih =>
    rw [scan_bind]
    exact .after hx hc ih

end Midway

end Read

/-! ### What the calls stand between -/

namespace Scan

namespace Steady

variable {s : Scanner}

theorem skipNewline : Steady skipNewline s :=
  .of_course .skipNewline (.skipNewline fun _ _ => trivial : Course (fun _ _ => .error .exhausted) 0 0 _ s
    fun _ _ => True)

theorem directiveName : Steady directiveName s :=
  .of_course .directiveName (.directiveName fun _ _ _ => trivial : Course (fun _ _ => .error .exhausted) 0 0 _ s
    fun _ _ => True)

theorem loopHead {readInner : ReadInner} (n : Nat) : Steady (loopHead readInner n) s :=
  .of_course (.loopHead n) (.loopHead (Nat.le_refl _) fun _ _ _ => trivial : Course readInner n (8 * s.left) _ s
    fun _ _ => True)

end Steady

/-- The name of a reference stands behind its dollar sign. -/
theorem Dollar.midway {readInner : ReadInner} {n : Nat} {quiet : Bool} {s t : Scanner} (h : Dollar s quiet t) :
    Midway (LikeExpr false) (reference readInner n quiet) t (LikeNode false) (dollar readInner n) s := by
  cases h with
  | quiet hs ht hletter =>
    refine .skips <| .peeks hs <| .yes rfl <| .skips <| .peeks rfl ?_
    split at ht <;> subst ht
    · refine .yes ‹_› <| .skips <| .later (.sees _) rfl <| .yes hletter <| .first .here fun _ _ he => ?_
      exact alike_then (alike_expect _) fun _ => .pure (.output he)
    · refine .no ‹_› <| .later (.sees _) rfl <| .yes hletter <| .made .here fun _ _ he => .output he
  | plain hs ht hletter =>
    refine .skips <| .peeks rfl <| .no hs <| .peeks rfl ?_
    rw [decide_eq_false hs]
    split at ht <;> subst ht
    · refine .yes ‹_› <| .skips <| .later (.sees _) rfl <| .yes hletter <| .first .here fun _ _ he => ?_
      exact alike_then (alike_expect _) fun _ => .pure (.output he)
    · refine .no ‹_› <| .later (.sees _) rfl <| .yes hletter <| .made .here fun _ _ he => .output he

end Scan

namespace Read

section Calls

variable {α β : Type} {readInner : ReadInner} {n : Nat} {r r' : Reader} {c : Call α}

theorem alike_afterBody (hin : SameInner false readInner readInner) (place : Place) {c c' : Expr}
    (hc : LikeExpr false c c') {yes yes' : List Node} (hyes : LikeNodes false yes yes') (m : Mark) :
    Alike false (LikeNode false) (afterBody readInner n place c yes m) (afterBody readInner n place c' yes' m) := by
  have hend : Alike false (LikeNode false) (do return .choose place c yes (.sequence (← Scan.here) []) : Read Node)
      (do return .choose place c' yes' (.sequence (← Scan.here) [])) :=
    .bind (alike_scan Scan.alike_here) fun q q' _ => .pure (.choose (.refl _) hc hyes (.sequence (q.like_any q') .nil))
  cases m with
  | elseIf => exact .map (alike_choice hin n _) fun _ _ hx => .choose (.refl _) hc hyes hx
  | otherwise =>
    refine .bind (alike_scan Scan.alike_here) fun q q' _ => .bind (alike_nodes hin n .nil) fun p p' hp => ?_
    obtain ⟨no, m⟩ := p
    obtain ⟨no', m'⟩ := p'
    obtain ⟨hno, rfl⟩ := hp
    exact .bind (alike_scan (Scan.alike_close _ _ _ m)) fun _ _ _ =>
      .pure (.choose (.refl _) hc hyes (.sequence (q.like_any q') hno))
  | endBlock => exact hend
  | endOfText => exact hend

theorem alike_line {i i' : Item} (hi : LikeItem i i') :
    Alike false LikeItem (do Scan.skipNewline; return i : Read Item) (do Scan.skipNewline; return i') :=
  alike_after Scan.alike_skipNewline fun _ => .pure hi

/-- What is made of the result of a step, and a line feed behind it. -/
theorem Midway.line {γ δ : Type} {z : Read δ} {D : δ → δ → Prop} {u : Reader} {x : Read γ} {C : γ → γ → Prop}
    {f : γ → Item} (h : Midway D z u C x r) (hf : ∀ a a', C a a' → LikeItem (f a) (f a')) :
    Midway D z u LikeItem (do let a ← x; Scan.skipNewline; return f a) r :=
  .first h fun a a' ha => alike_line (hf a a' ha)

theorem Carries.midway {d : Call β} (hinner : LikeInner readInner readInner) (h : Carries readInner n c r d r') :
    Midway d.Like (d.run readInner n) r' c.Like (c.run readInner (n + 1)) r := by
  have hin : SameInner false readInner readInner := fun _ => hinner
  cases h with
  | nodesItem =>
    refine .first .here fun i i' hi => ?_
    cases hi with
    | mark => exact .pure ⟨.refl _, rfl⟩
    | node hx => exact alike_nodes hin n (LikeNodes.addNode (.refl _) hx)
  | nodesOn hx => exact .later (.call .item) hx .here
  | blockNodes =>
    refine .after .skipNewline rfl <| .first .here fun p p' hp => ?_
    obtain ⟨body, m⟩ := p
    obtain ⟨body', m'⟩ := p'
    obtain ⟨hbody, rfl⟩ := hp
    exact .bind (alike_scan (Scan.alike_close _ _ _ m)) fun _ _ _ => .pure ⟨hbody, rfl⟩
  | itemDirective hs hc hname =>
    have hother {c d : Char} (hd : isLetter d = false) (hc : isLetter c = true) (heq : some c = some d) : False := by
      obtain rfl := Option.some.inj heq
      rw [hd] at hc
      cases hc
    refine .peeks hs <| .skips <| .peeks hc ?_
    rcases hname with hletter | rfl
    · split
      · exact (hother rfl hletter ‹_›).elim
      · exact (hother rfl hletter ‹_›).elim
      · exact (hother rfl hletter ‹_›).elim
      · exact .here
      · exact (hother rfl hletter ‹_›).elim
      · rename_i heq
        obtain rfl := Option.some.inj heq
        exact .yes hletter .here
      · exact (Option.some_ne_none _ ‹_›).elim
    · exact .here
  | itemCall hs hat hx =>
    refine .peeks hs <| .skips <| .peeks hat <| .skips <| .after (.sees _) rfl <| .yes ?_ ?_
    · exact Scan.isLetter_of_name hx
    · exact .after (.name _) hx <| .made .here fun _ _ hx => .node hx
  | directiveIf hd => exact .after .directiveName hd <| .made .here fun _ _ hx => .node hx
  | directiveForeach hd => exact .after .directiveName hd <| .made .here fun _ _ hx => .node hx
  | directiveDefine hd => exact .after .directiveName hd <| .line .here fun _ _ hx => .node hx
  | directiveMacro hd => exact .after .directiveName hd <| .made .here fun _ _ hx => .node hx
  | directiveCall hd hother =>
    refine .after .directiveName hd ?_
    simp only [directiveKeywords, List.mem_cons, List.not_mem_nil, or_false, not_or] at hother
    split
    all_goals first
      | exact .line .here fun _ _ hx => .node hx
      | simp at hother
  | choiceBlock hopen hc hclose =>
    refine .after .here rfl <| .after (.expect _) hopen <| .after (.call .expr trivial) hc <| ?_
    refine .after (.expect _) hclose <| .first .here fun p p' hp => ?_
    obtain ⟨yes, m⟩ := p
    obtain ⟨yes', m'⟩ := p'
    obtain ⟨hyes, rfl⟩ := hp
    exact alike_afterBody hin _ (.refl _) hyes m
  | @choiceElseIf opener s t u v ms c yes r' hopen hc hclose hyes =>
    have hblock : Steady (block readInner n _ _) ⟨v, ms⟩ :=
      .call (.block [.otherwise, .elseIf, .endBlock] (.directive opener s.place.line))
    refine .after .here rfl <| .after (.expect _) hopen <| .after (.call .expr trivial) hc <| ?_
    refine .after (.expect _) hclose <| .later hblock hyes <| .made .here fun _ _ hx => ?_
    exact .choose (.refl _) (.refl _) (.refl _) hx
  | @choiceElse opener s t u v ms c yes r' hopen hc hclose hyes =>
    have hblock : Steady (block readInner n _ _) ⟨v, ms⟩ :=
      .call (.block [.otherwise, .elseIf, .endBlock] (.directive opener s.place.line))
    refine .after .here rfl <| .after (.expect _) hopen <| .after (.call .expr trivial) hc <| ?_
    refine .after (.expect _) hclose <| .later hblock hyes <| .after .here rfl <| .first .here fun p p' hp => ?_
    obtain ⟨no, m⟩ := p
    obtain ⟨no', m'⟩ := p'
    obtain ⟨hno, rfl⟩ := hp
    exact .bind (alike_scan (Scan.alike_close _ _ _ m)) fun _ _ _ =>
      .pure (.choose (.refl _) (.refl _) (.refl _) (.sequence (.refl _) hno))
  | loopBlock hhead he hclose =>
    refine .after .here rfl <| .after (.loopHead n) hhead <| .after (.call .expr trivial) he <| ?_
    exact .after (.expect _) hclose <| .first .here fun _ _ hp => .pure (.foreach (.refl _) (.refl _) hp.1)
  | definitionBlock hopen hdollar hx hclose =>
    refine .after .here rfl <| .after (.expect _) hopen <| .after (.expect _) hdollar <| .after (.name _) hx <| ?_
    exact .after (.expect _) hclose <| .first .here fun _ _ hp => .pure (.define (.refl _) hp.1)
  | macroBlock hopen hx hparams =>
    refine .after .here rfl <| .after (.expect _) hopen <| .after .skipBlanks rfl <| .after (.name _) hx <| ?_
    refine .after (@Scan.Steady.call _ _ readInner n .parameters trivial) hparams <| .first .here fun _ _ hp => ?_
    exact .bind (alike_define ⟨.refl _, rfl, rfl, hp.1.dropInitialBlank⟩) fun _ _ _ =>
      .bind (alike_scan Scan.alike_here) fun q q' _ => .pure (.sequence (q.like_any q') .nil)
  | callBlock hblanks hopen hargs =>
    refine .after .here rfl <| .after (.takeWhile _) hblanks <| .peeks hopen <| .yes rfl <| .skips <| ?_
    refine .after (.call .callArguments trivial) hargs <| .yes rfl <| .first .here fun _ _ hp => ?_
    exact .bind (alike_scan Scan.alike_here) fun q q' _ => .pure (.callWith (q.like_any q') (.refl _) hp.1)

theorem CarriesExpr.midway {d : Scan.Call β} {t : Scanner} (hinner : LikeInner readInner readInner)
    (h : CarriesExpr readInner n c r d t) :
    Midway d.Like (scan (d.run readInner n)) ⟨t, r.macros⟩ c.Like (c.run readInner (n + 1)) r := by
  have hin : SameInner false readInner readInner := fun _ => hinner
  have hparenthesised {s t : Scanner} (hopen : Scan.expect '(' s = .ok () t) :
      Scan.Midway (LikeExpr false) (Scan.primary readInner n false) t (LikeExpr false)
        (Scan.parenthesised readInner n) s :=
    .later (.expect _) hopen <| .first .here fun _ _ he => Scan.alike_then (Scan.alike_expect _) fun _ =>
      .pure he
  cases h with
  | @itemReference s t ms quiet hs ht =>
    exact .peeks hs <| .made (.scan ht.midway ms) fun _ _ hx => .node hx
  | @directiveBreak s t ms hd hopen =>
    have hleave : Scan.Midway (LikeExpr false) (Scan.primary readInner n false) t.skipBlanks.advance (LikeNode false)
        (Scan.leave readInner n) t :=
      .skipsBlanks <| .peeks hopen <| .yes rfl <| .skips <| .first .here fun _ _ he =>
        Scan.alike_then (Scan.alike_expect _) fun _ => .bind Scan.alike_here fun p p' _ =>
          .pure (.leaveScope (p.like_any p') he)
    exact .after .directiveName hd <| .made (.scan hleave ms) fun _ _ hx => .node hx
  | @directiveSet s t _ _ _ _ ms x hd hopen hdollar hx hequal =>
    have hassign : Scan.Midway (LikeExpr false) (Scan.expr readInner n) _ (LikeNode false)
        (Scan.assignment readInner n) t :=
      .later (.expect _) hopen <| .later (.expect _) hdollar <|
        .later (.name _) hx <| .later (.expect _) hequal <| .first .here fun _ _ he =>
          Scan.alike_then (Scan.alike_expect _) fun _ => .pure (.assign he)
    exact .after .directiveName hd <| .line (.scan hassign ms) fun _ _ hx => .node hx
  | @directiveParse s t u ms hd hopen =>
    exact .after .directiveName hd <| .after .here rfl <| .line (.scan (hparenthesised hopen) ms) fun _ _ he =>
      .node (.parse (.refl _) he)
  | @directiveEvaluate s t u ms hd hopen =>
    exact .after .directiveName hd <| .after .here rfl <| .line (.scan (hparenthesised hopen) ms) fun _ _ he =>
      .node (.evaluate (.refl _) he)
  | choiceCondition hopen =>
    refine .after .here rfl <| .after (.expect _) hopen <| .first .here fun c c' hc => ?_
    refine alike_after (Scan.alike_expect _) fun _ => .bind (alike_block hin n _ _ _) fun p p' hp => ?_
    obtain ⟨yes, m⟩ := p
    obtain ⟨yes', m'⟩ := p'
    obtain ⟨hyes, rfl⟩ := hp
    exact alike_afterBody hin _ hc hyes m
  | @loopVariable s _ _ ms quiet hopen ht hu =>
    have hhead : Scan.Midway (LikeExpr false) (Scan.reference readInner n quiet) _ Eq (Scan.loopHead readInner n) s :=
      .later (.expect _) hopen <| .skipsBlanks <| .peeks ht <| .no (by simp) <| .first hu.midway
        fun _ _ hx => Scan.alike_loopVariable (fun _ => Scan.alike_then Scan.alike_skipBlanks fun _ =>
          Scan.alike_match fun _ _ => Scan.alike_ite (Scan.alike_then Scan.alike_skip fun _ =>
            Scan.alike_match fun _ _ => Scan.alike_ite (Scan.alike_then Scan.alike_skip fun _ => .pure rfl)
              Scan.alike_fail) Scan.alike_fail) Scan.alike_fail hx
    refine .after .here rfl <| .first (.scan hhead ms) fun x x' hx => ?_
    rw [← hx]
    exact .bind (alike_scan (Scan.alike_expr hin n)) fun _ _ he => alike_after (Scan.alike_expect _) fun _ =>
      .bind (alike_block hin n _ _ _) fun _ _ hb => .pure (.foreach (.refl _) he hb.1)
  | loopCollection hhead =>
    refine .after .here rfl <| .after (.loopHead n) hhead <| .first .here fun c c' hc => ?_
    exact alike_after (Scan.alike_expect _) fun _ =>
      .bind (alike_block hin n _ _ _) fun _ _ hb => .pure (.foreach (.refl _) hc hb.1)
  | callArguments hblanks hopen =>
    refine .after .here rfl <| .after (.takeWhile _) hblanks <| .peeks hopen <| .yes rfl <| .skips <| ?_
    refine .first .here fun args args' hargs => ?_
    split
    · exact .bind (alike_block hin n _ _ _) fun _ _ hb => .bind (alike_scan Scan.alike_here) fun q q' _ =>
        .pure (.callWith (q.like_any q') hargs hb.1)
    · exact .bind (alike_scan Scan.alike_here) fun q q' _ => .pure (.call (q.like_any q') hargs)

theorem Within.midway {d : Call β} {m : Nat} (hinner : LikeInner readInner readInner)
    (h : Within readInner m d r' n c r) : Midway d.Like (d.run readInner m) r' c.Like (c.run readInner n) r := by
  induction h with
  | here => exact .here
  | further h _ ih => exact ih.trans (h.midway hinner)

theorem WithinExpr.midway {d : Scan.Call β} {m : Nat} {t : Scanner} (hinner : LikeInner readInner readInner)
    (h : WithinExpr readInner m d t n c r) :
    ∃ ms, Midway d.Like (scan (d.run readInner m)) ⟨t, ms⟩ c.Like (c.run readInner n) r := by
  induction h with
  | @enter _ _ n c c' r s h h' => exact ⟨r.macros, (Midway.scan (h'.midway hinner) r.macros).trans (h.midway hinner)⟩
  | further h _ ih =>
    obtain ⟨ms, ih⟩ := ih
    exact ⟨ms, ih.trans (h.midway hinner)⟩

end Calls

/-! ### Other text behind a place -/

/-- Text behind a place where a step is taken does not matter for how it comes to be taken there. -/
theorem Midway.agrees_followedBy {α β : Type} {A : α → α → Prop} {B : β → β → Prop} {x : Read α} {z : Read β}
    {q u : Reader} {more : List Char} (hmore : more ≠ []) (h : Midway B z u A x (q.followedBy more))
    (hu : more.length ≤ u.scanner.rest.length) (other : List Char) :
    ∃ v : Reader, u = v.followedBy more ∧
      (Agrees (Reader.Beside false) B (z u) (z (v.followedBy other)) →
        Agrees (Reader.Beside false) A (x (q.followedBy more)) (x (q.followedBy other))) := by
  have hreplays {γ : Type} {y : Read γ} {r r' r₁ : Reader} {c : γ} (hy : Steady y r) (hc : y r = .ok c r₁)
      (hr : more.length ≤ r₁.scanner.rest.length)
      (hfork : ∃ q : Reader, r = q.followedBy more ∧ r' = q.followedBy other) :
      ∃ r₁', y r' = .ok c r₁' ∧ ∃ q : Reader, r₁ = q.followedBy more ∧ r₁' = q.followedBy other := by
    obtain ⟨q, rfl, rfl⟩ := hfork
    obtain ⟨v, hv⟩ := hy.isLocal.replays hmore hc hr
    obtain ⟨-, rfl⟩ := EStateM.Result.ok.inj (hc.symm.trans (hv more))
    exact ⟨_, hv other, v, rfl, rfl⟩
  obtain ⟨_, ⟨v, hv, rfl⟩, hz⟩ := Stencil.Midway.agrees (G := fun r => more.length ≤ r.scanner.rest.length) h
    (fun hy hc hr => hr.trans (hy.isLocal.shrinks hc).length_le) hreplays hu ⟨q, rfl, rfl⟩
  exact ⟨v, hv, hz⟩

end Read

/-- Two texts that are the same up to a place are read alike if reading comes there to a step that goes alike with
what follows in either text. -/
theorem Document.likeRead_of_midway {readInner : ReadInner} {resource : Option String} {text text' : String}
    (hread : readWith readInner resource text ≠ .error .exhausted) {p more other : List Char} (hp : p ≠ [])
    (hmore : more ≠ []) (hlength : more.length ≤ other.length) (htext : readChars text = p ++ more)
    (htext' : readChars text' = p ++ other) {β : Type} {B : β → β → Prop} {z : Read β} {u : Reader}
    (h : Read.Midway B z u LikeSequence (Read.nodes readInner (fuelFor (Scanner.ofText text resource)) [])
      ⟨Scanner.ofText text resource, []⟩)
    (hu : more.length ≤ u.scanner.rest.length)
    (hz : ∀ v : Reader, u = v.followedBy more →
      Agrees (Reader.Beside false) B (z u) (z (v.followedBy other))) :
    LikeRead (LikeDocument false) (readWith readInner resource text) (readWith readInner resource text') := by
  have hstart {text : String} {more : List Char} (htext : readChars text = p ++ more) :
      (⟨Scanner.ofText text resource, []⟩ : Reader) = Reader.followedBy ⟨Scanner.atStart resource p 1, []⟩ more := by
    rw [Scanner.ofText_eq_atStart, ← readChars, htext, Scanner.atStart_append hp]
    rfl
  have hdocument : Read.Midway B z u (LikeNodes false)
      (Read.document readInner (fuelFor (Scanner.ofText text resource))) ⟨Scanner.ofText text resource, []⟩ := by
    refine .first h fun p p' hp => ?_
    obtain ⟨body, m⟩ := p
    obtain ⟨body', m'⟩ := p'
    obtain ⟨hbody, rfl⟩ := hp
    exact .bind (Read.alike_scan (Scan.alike_close _ _ _ m)) fun _ _ _ => .pure hbody
  rw [hstart htext] at hdocument
  obtain ⟨v, hv, hagrees⟩ := hdocument.agrees_followedBy hmore hu other
  have hagrees := hagrees (hz v hv)
  rw [← hstart htext, ← hstart htext'] at hagrees
  have hfuel : fuelFor (Scanner.ofText text resource) ≤ fuelFor (Scanner.ofText text' resource) := by
    have hchars : (readChars text).length ≤ (readChars text').length := by
      rw [htext, htext', List.length_append, List.length_append]
      omega
    simp only [fuelFor, Scanner.pending_ofText]
    exact Nat.add_le_add_right (Nat.mul_le_mul_left 8 hchars) 16
  have hbelow := @Read.below_document readInner _ _ hfuel ⟨Scanner.ofText text' resource, []⟩
  simp only [readWith] at hread ⊢
  generalize Read.document readInner (fuelFor (Scanner.ofText text resource)) ⟨Scanner.ofText text resource, []⟩ = x
    at hagrees hread
  generalize Read.document readInner (fuelFor (Scanner.ofText text resource)) ⟨Scanner.ofText text' resource, []⟩ =
    x' at hagrees hbelow
  generalize Read.document readInner (fuelFor (Scanner.ofText text' resource)) ⟨Scanner.ofText text' resource, []⟩ =
    x'' at hbelow
  cases x with
  | ok body r =>
    cases x' with
    | ok body' r' =>
      obtain ⟨_, h⟩ | rfl := hbelow
      · cases h
      · exact .ok ⟨hagrees.1, hagrees.2.macros⟩
    | error _ _ => exact hagrees.elim
  | error e r =>
    cases x' with
    | ok body' r' => exact hagrees.elim
    | error e' r' =>
      have he : e.Like e' := hagrees
      obtain ⟨_, h⟩ | rfl := hbelow
      · cases h
        cases he
        exact absurd rfl hread
      · exact .error he

end Stencil
