import Stencil.Proofs.CourseExpr

/-!
# The course of reading templates

The readers of nodes and directives call each other too, and the readers of expressions: `Read.Call` names
them, and `Read.Call.course` goes through each of them. So every loop and every recursion of reading takes
a character before it comes round.
-/

namespace Stencil

open Stencil.Text

namespace Scan

variable {readInner : ReadInner} {n w : Nat} {s : Scanner}

theorem commentLength_le (last : Char) (cs : List Char) : commentLength last cs ≤ cs.length := by
  fun_induction commentLength last cs <;> simp_all

theorem verbatimText?_length {cs body : List Char} (h : verbatimText? cs = some body) :
    body.length + 3 ≤ cs.length := by
  fun_induction verbatimText? cs generalizing body with
  | case1 cs =>
    obtain rfl := Option.some.inj h
    simp
  | case2 c cs _ ih =>
    obtain ⟨rest, hrest, rfl⟩ := Option.map_eq_some_iff.1 h
    have := ih hrest
    simp
    omega
  | case3 => cases h

namespace Course

theorem plainText {start : List Char} {Φ : Node → Scanner → Prop}
    (h : ∀ x, ∀ t : Scanner, t.left ≤ s.left → Φ x t) : Course readInner n w (plainText start) s Φ :=
  .seq (.takeWhile fun t ht => .seq (.here (.pure (h _ t (by omega)))))

theorem lineComment {Φ : Node → Scanner → Prop} (h : ∀ x, ∀ t : Scanner, t.left ≤ s.left → Φ x t) :
    Course readInner n w lineComment s Φ := by
  refine .seq (.here (.seq (.takeWhile fun t ht => .seq (.skip (.pure (h _ _ ?_))))))
  rw [Scanner.left_advance]
  omega

theorem blockComment {Φ : Node → Scanner → Prop} (h : ∀ x, ∀ t : Scanner, t.left ≤ s.left → Φ x t) :
    Course readInner n w blockComment s Φ := by
  refine .seq (.here (.seq (.skip (.seq (.take _ (commentLength_le ' ' s.advance.pending) rfl
    (.pure (h _ _ ?_)))))))
  have hle := Scanner.left_advanceBy_le (commentLength ' ' s.advance.pending) s.advance
  have hskip := s.left_advance
  exact Nat.le_trans hle (by omega)

theorem verbatim {Φ : Node → Scanner → Prop} (h : ∀ x, ∀ t : Scanner, t.left ≤ s.left → Φ x t) :
    Course readInner n w verbatim s Φ := by
  have hskip := s.left_advance
  have hnext := s.advance.left_advance
  refine .seq (.skip (.seq (.peek (.ite (fun _ => ?_) fun _ => .plainText fun x t ht => h x t (by omega)))))
  refine .seq (.here (.seq (.skip (.seq (.get ?_)))))
  split
  · exact .refuse
  · rename_i body hbody
    refine .seq (.take _ (verbatimText?_length hbody) rfl (.seq (.here (.pure (h _ _ ?_)))))
    have hle := Scanner.left_advanceBy_le (body.length + 3) s.advance.advance
    exact Nat.le_trans hle (by omega)

theorem directiveName {Φ : String → Scanner → Prop} (h : ∀ x, ∀ t : Scanner, t.left < s.left → Φ x t) :
    Course readInner n w directiveName s Φ := by
  have hskip := s.left_advance
  refine .seq (.peek (.ite (fun _ => ?_) fun _ => .name h))
  exact .seq (.skip (.seq (.name fun x t ht => .seq (.expect fun u hu => .pure (h x u (by omega))))))

theorem close {allowed : List Mark} {inside : Enclosure} {m : Mark} {Φ : Unit → Scanner → Prop}
    (h : Φ () s) : Course readInner n w (close allowed inside m) s Φ :=
  .ite (fun _ => .pure h) fun _ => .fail

/-- What a dollar sign begins is text, or a reference to what was read before it. -/
theorem dollar {Φ : Node → Scanner → Prop} (hs : 0 < s.left) (hw : 8 * (s.left - 1) < w)
    (h : ∀ x, ∀ t : Scanner, t.left < s.left → Φ x t) :
    Course readInner n w (dollar readInner n) s Φ := by
  have hskip := s.left_advance
  have hrest {quiet : Bool} {start : List Char} {t : Scanner} (ht : t.left < s.left) :
      Course readInner n w
        (do
          if (← Scan.peek) = some '{' then
            Scan.skip
            if ← Scan.sees isLetter then
              let e ← Scan.reference readInner n quiet
              Scan.expect '}'
              return .output e
            else Scan.plainText (start ++ ['{'])
          else if ← Scan.sees isLetter then
            return .output (← Scan.reference readInner n quiet)
          else Scan.plainText start) t Φ := by
    have hnext := t.left_advance
    refine .seq (.peek (.ite (fun _ => .seq (.skip (.seq (.sees (.ite (fun _ => ?_) fun _ => ?_)))))
      fun _ => .seq (.sees (.ite (fun _ => ?_) fun _ => ?_))))
    · refine .seq (.reference (by omega) fun e u hu => .seq (.expect fun v hv => .pure ?_))
      exact h _ v (by omega)
    · exact .plainText fun x u hu => h x u (by omega)
    · exact .seq (.reference (by omega) fun e u hu => .pure (h _ u (by omega)))
    · exact .plainText fun x u hu => h x u (by omega)
  have hnext := s.advance.left_advance
  exact .seq (.skip (.seq (.peek (.ite (fun _ => .seq (.skip (hrest (by omega)))) fun _ => hrest (by omega)))))

/-- The head of a loop takes its parenthesis at least. -/
theorem loopHead {Φ : String → Scanner → Prop} (hw : 8 * s.left ≤ w)
    (h : ∀ x, ∀ t : Scanner, t.left < s.left → Φ x t) :
    Course readInner n w (loopHead readInner n) s Φ := by
  refine .seq (.expect fun t ht => .seq (.skipBlanks fun u hu => .seq (.peek (.ite (fun _ => .seq .fail)
    fun hdollar => ?_))))
  have hpos := Scanner.left_pos (not_not.1 hdollar)
  refine .seq (.dollar hpos (by omega) fun x v hv => ?_)
  split
  · refine .seq (.skipBlanks fun y hy => .seq (.peek (.ite (fun _ => ?_) fun _ => .fail)))
    have hskip := y.left_advance
    have hnext := y.advance.left_advance
    refine .seq (.skip (.seq (.peek (.ite (fun _ => ?_) fun _ => .fail))))
    exact .seq (.skip (.pure (h _ _ (by omega))))
  · exact .fail

theorem assignment {Φ : Node → Scanner → Prop} (hw : 8 * s.left ≤ w)
    (h : ∀ x, ∀ t : Scanner, t.left < s.left → Φ x t) :
    Course readInner n w (assignment readInner n) s Φ := by
  refine .seq (.expect fun t ht => .seq (.expect fun u hu => .seq (.name fun x v hv => ?_)))
  refine .seq (.expect fun y hy => .seq (.expr (by omega) fun e z hz => ?_))
  exact .seq (.expect fun z' hz' => .pure (h _ z' (by omega)))

theorem parenthesised {Φ : Expr → Scanner → Prop} (hw : 8 * s.left ≤ w)
    (h : ∀ e, ∀ t : Scanner, t.left < s.left → Φ e t) :
    Course readInner n w (parenthesised readInner n) s Φ := by
  refine .seq (.expect fun t ht => .seq (.primary (by omega) fun e u hu => ?_))
  exact .seq (.expect fun v hv => .pure (h _ v (by omega)))

theorem leave {Φ : Node → Scanner → Prop} (hw : 8 * s.left ≤ w)
    (h : ∀ x, ∀ t : Scanner, t.left ≤ s.left → Φ x t) :
    Course readInner n w (leave readInner n) s Φ := by
  refine .seq (.skipBlanks fun t ht => .seq (.peek (.ite (fun hopen => ?_) fun _ => ?_)))
  · have hpos := Scanner.left_pos hopen
    have hskip := t.left_advance
    refine .seq (.skip (.seq (.primary (by omega) fun e u hu => .seq (.expect fun v hv => ?_))))
    exact .seq (.here (.pure (h _ v (by omega))))
  · exact .seq (.here (.pure (h _ t ht)))

end Course

end Scan

namespace Read

open Scan hiding exhausted

variable {α β : Type} {readInner : ReadInner} {n w : Nat} {s : Scanner}

/-- Calls of the readers of nodes and directives. -/
inductive Call : Type → Type
  | nodes (done : List Node) : Call (List Node × Mark)
  | block (allowed : List Mark) (inside : Enclosure) : Call (List Node × Mark)
  | item : Call Item
  | directive : Call Item
  | choice (opener : String) : Call Node
  | loop : Call Node
  | definition : Call Node
  | macroDefinition : Call Node
  | macroCall (hasBody : Bool) (name : String) : Call Node

namespace Call

/-- The reader that is called, with its fuel. -/
def run (readInner : ReadInner) (n : Nat) : Call α → Read α
  | .nodes done => Read.nodes readInner n done
  | .block allowed inside => Read.block readInner n allowed inside
  | .item => Read.item readInner n
  | .directive => Read.directive readInner n
  | .choice opener => Read.choice readInner n opener
  | .loop => Read.loop readInner n
  | .definition => Read.definition readInner n
  | .macroDefinition => Read.macroDefinition readInner n
  | .macroCall hasBody name => Read.macroCall readInner n hasBody name

/-- The order of calls that are made at one place of the text. -/
def rank : Call α → Nat
  | .block _ _ => 2
  | .nodes _ => 1
  | .item | .directive | .choice _ | .loop | .definition | .macroDefinition | .macroCall _ _ => 0

/-- What a call has to do. A character that was taken outweighs every rank. -/
def work (c : Call α) (s : Scanner) : Nat :=
  8 * s.left + c.rank

/-- How many characters a call takes at least, if it gives this result. -/
def taken : Call α → α → Nat
  | .item, .node _ => 1
  | .item, .mark _ | .nodes _, _ | .block _ _, _ | .directive, _ | .choice _, _ | .loop, _
  | .definition, _ | .macroDefinition, _ | .macroCall _ _, _ => 0

end Call

/-- The course of a step of reading nodes from a scanner: its steps on the scanner have a course, each call
has less work than `w`, and a result satisfies `Φ` with the scanner it leaves. Macros that were met before
do not matter. -/
inductive Course (readInner : ReadInner) (n w : Nat) :
    {α : Type} → Read α → Scanner → (α → Scanner → Prop) → Prop
  | pure {α : Type} {a : α} {s : Scanner} {Φ : α → Scanner → Prop} (h : Φ a s) :
      Course readInner n w (Pure.pure a) s Φ
  | bind {α β : Type} {x : Read β} {f : β → Read α} {s : Scanner} {Ψ : β → Scanner → Prop}
      {Φ : α → Scanner → Prop} (hx : Course readInner n w x s Ψ)
      (hf : ∀ b t, Ψ b t → Course readInner n w (f b) t Φ) : Course readInner n w (x >>= f) s Φ
  | scan {α : Type} {x : Scan α} {s : Scanner} {Φ : α → Scanner → Prop}
      (h : Scan.Course readInner n w x s Φ) : Course readInner n w (Read.scan x) s Φ
  /-- Keeps a macro, and stays where it is. -/
  | define {m : MacroDef} {s : Scanner} {Φ : Unit → Scanner → Prop} (h : Φ () s) :
      Course readInner n w (define m) s Φ
  | call {α : Type} {s : Scanner} {Φ : α → Scanner → Prop} (c : Call α) (hw : c.work s < w)
      (h : ∀ a, ∀ t : Scanner, t.left + c.taken a ≤ s.left → Φ a t) :
      Course readInner n w (c.run readInner n) s Φ

namespace Course

variable {Φ : α → Scanner → Prop}

/-- Steps in a row, judged by what the first leaves to the second. -/
theorem seq {x : Read β} {f : β → Read α}
    (h : Course readInner n w x s fun b t => Course readInner n w (f b) t Φ) :
    Course readInner n w (x >>= f) s Φ :=
  .bind h fun _ _ h => h

/-- Goes on after a step on the scanner. -/
theorem after {x : Scan β} {f : β → Read α}
    (h : Scan.Course readInner n w x s fun b t => Course readInner n w (f b) t Φ) :
    Course readInner n w (Read.scan x >>= f) s Φ :=
  .seq (.scan h)

theorem ite {c : Prop} [Decidable c] {x y : Read α} (hx : c → Course readInner n w x s Φ)
    (hy : ¬c → Course readInner n w y s Φ) : Course readInner n w (if c then x else y) s Φ := by
  split
  · exact hx ‹_›
  · exact hy ‹_›

/-! ### Calls -/

theorem nodes {done : List Node} {Φ : List Node × Mark → Scanner → Prop} (hw : 8 * s.left + 1 < w)
    (h : ∀ p, ∀ t : Scanner, t.left ≤ s.left → Φ p t) :
    Course readInner n w (nodes readInner n done) s Φ :=
  .call (.nodes done) hw h

theorem block {allowed : List Mark} {inside : Enclosure} {Φ : List Node × Mark → Scanner → Prop}
    (hw : 8 * s.left + 2 < w) (h : ∀ p, ∀ t : Scanner, t.left ≤ s.left → Φ p t) :
    Course readInner n w (block readInner n allowed inside) s Φ :=
  .call (.block allowed inside) hw h

theorem item {Φ : Item → Scanner → Prop} (hw : 8 * s.left < w)
    (h : ∀ x, ∀ t : Scanner, t.left + Call.item.taken x ≤ s.left → Φ x t) :
    Course readInner n w (item readInner n) s Φ :=
  .call .item hw h

theorem directive {Φ : Item → Scanner → Prop} (hw : 8 * s.left < w)
    (h : ∀ x, ∀ t : Scanner, t.left ≤ s.left → Φ x t) :
    Course readInner n w (directive readInner n) s Φ :=
  .call .directive hw h

section Nodes

variable {Φ : Node → Scanner → Prop}

theorem choice {opener : String} (hw : 8 * s.left < w)
    (h : ∀ x, ∀ t : Scanner, t.left ≤ s.left → Φ x t) :
    Course readInner n w (choice readInner n opener) s Φ :=
  .call (.choice opener) hw h

theorem loop (hw : 8 * s.left < w) (h : ∀ x, ∀ t : Scanner, t.left ≤ s.left → Φ x t) :
    Course readInner n w (loop readInner n) s Φ :=
  .call .loop hw h

theorem definition (hw : 8 * s.left < w) (h : ∀ x, ∀ t : Scanner, t.left ≤ s.left → Φ x t) :
    Course readInner n w (definition readInner n) s Φ :=
  .call .definition hw h

theorem macroDefinition (hw : 8 * s.left < w) (h : ∀ x, ∀ t : Scanner, t.left ≤ s.left → Φ x t) :
    Course readInner n w (macroDefinition readInner n) s Φ :=
  .call .macroDefinition hw h

theorem macroCall {hasBody : Bool} {name : String} (hw : 8 * s.left < w)
    (h : ∀ x, ∀ t : Scanner, t.left ≤ s.left → Φ x t) :
    Course readInner n w (macroCall readInner n hasBody name) s Φ :=
  .call (.macroCall hasBody name) hw h

end Nodes

end Course

/-! ### The readers -/

/-- A sequence comes round only after a node that took a character. -/
theorem course_nodes (done : List Node) :
    Course readInner n (8 * s.left + 1) (nodes readInner (n + 1) done) s fun _ t => t.left ≤ s.left := by
  refine .seq (.item (by omega) fun x t ht => ?_)
  cases x with
  | mark m => exact .pure ht
  | node x =>
    have htaken : t.left + 1 ≤ s.left := ht
    exact .nodes (by omega) fun p u hu => by omega

theorem course_block (allowed : List Mark) (inside : Enclosure) :
    Course readInner n (8 * s.left + 2) (block readInner (n + 1) allowed inside) s
      fun _ t => t.left ≤ s.left := by
  refine .after (.skipNewline fun t ht => .seq (.nodes (by omega) fun p u hu => ?_))
  exact .after (.close (.pure (by omega)))

theorem course_item :
    Course readInner n (8 * s.left) (item readInner (n + 1)) s
      fun x t => t.left + Call.item.taken x ≤ s.left := by
  refine .after (.peek ?_)
  have hskip := s.left_advance
  have hnext := s.advance.left_advance
  have hnode {x : Scan Node} {t : Scanner}
      (hx : Scan.Course readInner n (8 * s.left) x t fun _ u => u.left < s.left) :
      Course readInner n (8 * s.left) (do return .node (← x)) t
        fun x u => u.left + Call.item.taken x ≤ s.left :=
    .bind (.scan hx) fun x u hu => .pure hu
  have hdirective {t : Scanner} (ht : t.left < s.left) :
      Course readInner n (8 * s.left) (directive readInner n) t
        fun x u => u.left + Call.item.taken x ≤ s.left := by
    refine .directive (by omega) fun x u hu => ?_
    have : Call.item.taken x ≤ 1 := by cases x <;> simp [Call.taken]
    omega
  split
  · exact .pure (Nat.le_refl _)
  · have hpos := Scanner.left_pos ‹s.current = _›
    refine .after (.skip (.after (.peek ?_)))
    split
    · exact hnode (.lineComment fun x t ht => by omega)
    · exact hnode (.blockComment fun x t ht => by omega)
    · exact hnode (.verbatim fun x t ht => by omega)
    · exact hdirective (by omega)
    · refine .after (.skip (.after (.sees (.ite (fun _ => ?_) fun _ => ?_))))
      · refine .after (.name fun x t ht => .bind (.macroCall (by omega) fun y u hu => hu) fun y u hu => ?_)
        refine .pure ?_
        show u.left + 1 ≤ _
        omega
      · exact hnode (.plainText fun x t ht => by omega)
    · exact .ite (fun _ => hdirective (by omega)) fun _ => hnode (.plainText fun x t ht => by omega)
    · exact hnode (.plainText fun x t ht => by omega)
  · have hpos := Scanner.left_pos ‹s.current = _›
    exact hnode (.dollar hpos (by omega) fun x t ht => ht)
  · have hpos := Scanner.left_pos ‹s.current = _›
    exact .after (.skip (hnode (.plainText fun x t ht => by omega)))

theorem course_directive :
    Course readInner n (8 * s.left) (directive readInner (n + 1)) s fun _ t => t.left ≤ s.left := by
  refine .after (.directiveName fun d t ht => ?_)
  have hline {x : Item} {u : Scanner} (hu : u.left ≤ s.left) :
      Course readInner n (8 * s.left) (do skipNewline; return x) u fun _ v => v.left ≤ s.left :=
    .after (.skipNewline fun v hv => .pure (by omega))
  split
  · exact hline (by omega)
  · exact hline (by omega)
  · exact hline (by omega)
  · exact .seq (.choice (by omega) fun x u hu => .pure (by omega))
  · exact .seq (.loop (by omega) fun x u hu => .pure (by omega))
  · exact .after (.leave (by omega) fun x u hu => .pure (by omega))
  · exact .after (.assignment (by omega) fun x u hu => hline (by omega))
  · exact .seq (.definition (by omega) fun x u hu => hline (by omega))
  · exact .after (.here (.after (.parenthesised (by omega) fun e u hu => hline (by omega))))
  · exact .seq (.macroDefinition (by omega) fun x u hu => .pure (by omega))
  · exact .after (.here (.after (.parenthesised (by omega) fun e u hu => hline (by omega))))
  · exact .seq (.macroCall (by omega) fun x u hu => hline (by omega))

/-- An `#elseif` comes round after its parenthesis at least. -/
theorem course_choice (opener : String) :
    Course readInner n (8 * s.left) (choice readInner (n + 1) opener) s fun _ t => t.left ≤ s.left := by
  refine .after (.here (.after (.expect fun t ht => .after (.expr (by omega) fun c u hu => ?_))))
  refine .after (.expect fun v hv => .seq (.block (by omega) fun p y hy => ?_))
  obtain ⟨yes, m⟩ := p
  dsimp only
  split
  · exact .seq (.choice (by omega) fun x z hz => .pure (by omega))
  · refine .after (.here (.seq (.nodes (by omega) fun p z hz => ?_)))
    exact .after (.close (.pure (by omega)))
  · exact .after (.here (.pure (by omega)))

theorem course_loop :
    Course readInner n (8 * s.left) (loop readInner (n + 1)) s fun _ t => t.left ≤ s.left := by
  refine .after (.here (.after (.loopHead (by omega) fun x t ht => .after (.expr (by omega) fun e u hu => ?_))))
  exact .after (.expect fun v hv => .seq (.block (by omega) fun p y hy => .pure (by omega)))

theorem course_definition :
    Course readInner n (8 * s.left) (definition readInner (n + 1)) s fun _ t => t.left ≤ s.left := by
  refine .after (.here (.after (.expect fun t ht => .after (.expect fun u hu => .after ?_))))
  refine .name fun x v hv => .after (.expect fun y hy => .seq ?_)
  exact .block (by omega) fun p z hz => .pure (by omega)

theorem course_macroDefinition :
    Course readInner n (8 * s.left) (macroDefinition readInner (n + 1)) s fun _ t => t.left ≤ s.left := by
  refine .after (.here (.after (.expect fun t ht => .after (.skipBlanks fun u hu => .after ?_))))
  refine .name fun x v hv => .after (.parameters (by omega) fun ps y hy => ?_)
  refine .seq (.block (by omega) fun p z hz => .seq (.define (.after (.here (.pure ?_)))))
  omega

theorem course_macroCall (hasBody : Bool) (name : String) :
    Course readInner n (8 * s.left) (macroCall readInner (n + 1) hasBody name) s
      fun _ t => t.left ≤ s.left := by
  refine .after (.here (.after (.takeWhile fun t ht => .after (.peek (.ite (fun hopen => ?_) fun _ => ?_)))))
  · have hpos := Scanner.left_pos hopen
    have hskip := t.left_advance
    refine .after (.skip (.after (.callArguments (by omega) fun args u hu => .ite (fun _ => ?_) fun _ => ?_)))
    · exact .seq (.block (by omega) fun p v hv => .after (.here (.pure (by omega))))
    · exact .after (.here (.pure (by omega)))
  · refine .ite (fun _ => .scan .fail) fun _ => .ite (fun _ => .scan .fail) fun _ => ?_
    exact .scan (.plainText fun x u hu => by omega)

/-- The course of every call: what it calls has less work, and it takes what it is to take at least. -/
theorem Call.course {α : Type} (c : Call α) (s : Scanner) :
    Course readInner n (c.work s) (c.run readInner (n + 1)) s
      fun a t => t.left + c.taken a ≤ s.left := by
  cases c with
  | nodes done => exact course_nodes done
  | block allowed inside => exact course_block allowed inside
  | item => exact course_item
  | directive => exact course_directive
  | choice opener => exact course_choice opener
  | loop => exact course_loop
  | definition => exact course_definition
  | macroDefinition => exact course_macroDefinition
  | macroCall hasBody name => exact course_macroCall hasBody name

end Read

end Stencil
