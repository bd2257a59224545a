import Stencil.Proofs.ReadFuel
import Stencil.Proofs.ReadingEnds

/-!
# Fuel does not change what templates are read

The readers of nodes and directives end alike with more fuel too: `Read.Call.below`.
-/

namespace Stencil

open Stencil.Text

namespace Scan

variable {readInner : ReadInner} {n m : Nat}

theorem below_dollar (h : n ≤ m) : Below (dollar readInner n) (dollar readInner m) := by
  have hreference (quiet : Bool) : Below (reference readInner n quiet) (reference readInner m quiet) :=
    (Call.reference quiet).below h
  refine .after fun _ => .after fun _ => .optional (.after fun _ => .ite ?_ ?_)
  · exact .after fun _ => .after fun _ => .ite (.bind (hreference _) fun _ => .refl _) (.refl _)
  · exact .after fun _ => .ite (.bind (hreference _) fun _ => .refl _) (.refl _)

theorem below_loopHead (h : n ≤ m) : Below (loopHead readInner n) (loopHead readInner m) :=
  .after fun _ => .after fun _ => .after fun _ => .optional (.bind (below_dollar h) fun _ => .refl _)

theorem below_assignment (h : n ≤ m) : Below (assignment readInner n) (assignment readInner m) :=
  .after fun _ => .after fun _ => .after fun _ => .after fun _ =>
    .bind (Call.expr.below h) fun _ => .refl _

theorem below_parenthesised (h : n ≤ m) : Below (parenthesised readInner n) (parenthesised readInner m) :=
  .after fun _ => .bind ((Call.primary false).below h) fun _ => .refl _

theorem below_leave (h : n ≤ m) : Below (leave readInner n) (leave readInner m) :=
  .after fun _ => .after fun _ => .ite
    (.after fun _ => .bind ((Call.primary false).below h) fun _ => .refl _) (.refl _)

end Scan

namespace Read

open Scan hiding exhausted

variable {α β : Type} {readInner : ReadInner} {n m : Nat}

theorem below_scan {x y : Scan α} (h : Below x y) : Below (Read.scan x) (Read.scan y) := by
  intro r
  rw [Read.scan, Read.scan]
  rcases h r.scanner with ⟨t, hx⟩ | hx
  · rw [hx]
    exact .inl ⟨_, rfl⟩
  · rw [hx]
    exact .inr rfl

section Readers

/-! ### One call more -/

variable (ih : ∀ {α : Type} (c : Call α), Below (c.run readInner n) (c.run readInner (n + 1)))

include ih

theorem below_nodes (done : List Node) :
    Below (nodes readInner (n + 1) done) (nodes readInner (n + 2) done) := by
  rw [nodes, nodes]
  refine .bind (ih .item) fun x => ?_
  cases x with
  | mark m => exact .refl _
  | node x => exact ih (.nodes (addNode done x))

theorem below_block (allowed : List Mark) (inside : Enclosure) :
    Below (block readInner (n + 1) allowed inside) (block readInner (n + 2) allowed inside) := by
  rw [block, block]
  exact .after fun _ => .bind (ih (.nodes [])) fun _ => .refl _

theorem below_item : Below (item readInner (n + 1)) (item readInner (n + 2)) := by
  rw [item, item]
  refine .after fun c => ?_
  split
  · exact .refl _
  · refine .after fun _ => .after fun c => ?_
    split
    · exact .refl _
    · exact .refl _
    · exact .refl _
    · exact ih .directive
    · exact .after fun _ => .after fun _ => .ite (.after fun x => .map (ih (.macroCall true x))) (.refl _)
    · exact .ite (ih .directive) (.refl _)
    · exact .refl _
  · exact .map (below_scan (below_dollar (Nat.le_succ n)))
  · exact .refl _

theorem below_directive : Below (directive readInner (n + 1)) (directive readInner (n + 2)) := by
  rw [directive, directive]
  refine .after fun d => ?_
  split
  · exact .refl _
  · exact .refl _
  · exact .refl _
  · exact .map (ih (.choice "#if"))
  · exact .map (ih .loop)
  · exact .map (below_scan (below_leave (Nat.le_succ n)))
  · exact .bind (below_scan (below_assignment (Nat.le_succ n))) fun _ => .refl _
  · exact .bind (ih .definition) fun _ => .refl _
  · exact .after fun _ => .bind (below_scan (below_parenthesised (Nat.le_succ n))) fun _ => .refl _
  · exact .map (ih .macroDefinition)
  · exact .after fun _ => .bind (below_scan (below_parenthesised (Nat.le_succ n))) fun _ => .refl _
  · exact .bind (ih (.macroCall false d)) fun _ => .refl _

theorem below_afterBlock {allowed : List Mark} {inside : Enclosure} {f g : List Node × Mark → Read α}
    (hf : ∀ p, Below (f p) (g p)) :
    Below (block readInner n allowed inside >>= f) (block readInner (n + 1) allowed inside >>= g) :=
  .bind (ih (.block allowed inside)) hf

theorem below_choice (opener : String) :
    Below (choice readInner (n + 1) opener) (choice readInner (n + 2) opener) := by
  rw [choice, choice]
  refine .after fun place => .after fun _ => .bind (below_scan (Scan.Call.expr.below_succ n)) fun c => ?_
  refine .after fun _ => below_afterBlock ih fun p => ?_
  obtain ⟨yes, m⟩ := p
  dsimp only
  split
  · exact .map (ih (.choice "#elseif"))
  · exact .after fun _ => .bind (ih (.nodes [])) fun _ => .refl _
  · exact .refl _

theorem below_loop : Below (loop readInner (n + 1)) (loop readInner (n + 2)) := by
  rw [loop, loop]
  refine .after fun _ => .bind (below_scan (below_loopHead (Nat.le_succ n))) fun _ => ?_
  refine .bind (below_scan (Scan.Call.expr.below_succ n)) fun _ => .after fun _ => ?_
  exact below_afterBlock ih fun _ => .refl _

theorem below_definition : Below (definition readInner (n + 1)) (definition readInner (n + 2)) := by
  rw [definition, definition]
  refine .after fun _ => .after fun _ => .after fun _ => .after fun _ => .after fun _ => ?_
  exact below_afterBlock ih fun _ => .refl _

theorem below_macroDefinition :
    Below (macroDefinition readInner (n + 1)) (macroDefinition readInner (n + 2)) := by
  rw [macroDefinition, macroDefinition]
  refine .after fun _ => .after fun _ => .after fun _ => .after fun _ => ?_
  refine .bind (below_scan (@Scan.Call.below_succ readInner n _ .parameters)) fun _ => ?_
  exact below_afterBlock ih fun _ => .refl _

theorem below_macroCall (hasBody : Bool) (name : String) :
    Below (macroCall readInner (n + 1) hasBody name) (macroCall readInner (n + 2) hasBody name) := by
  rw [macroCall, macroCall]
  refine .after fun _ => .after fun _ => .after fun _ => .ite (.after fun _ => ?_) (.refl _)
  refine .bind (below_scan (Scan.Call.callArguments.below_succ n)) fun _ => .ite ?_ (.refl _)
  exact below_afterBlock ih fun _ => .refl _

end Readers

/-- One call more does not change what is read. -/
theorem Call.below_succ (n : Nat) {α : Type} (c : Call α) :
    Below (c.run readInner n) (c.run readInner (n + 1)) := by
  induction n generalizing α with
  | zero => cases c <;> exact .exhausted
  | succ n ih =>
    cases c with
    | nodes done => exact below_nodes ih done
    | block allowed inside => exact below_block ih allowed inside
    | item => exact below_item ih
    | directive => exact below_directive ih
    | choice opener => exact below_choice ih opener
    | loop => exact below_loop ih
    | definition => exact below_definition ih
    | macroDefinition => exact below_macroDefinition ih
    | macroCall hasBody name => exact below_macroCall ih hasBody name

theorem Call.below {α : Type} (c : Call α) (h : n ≤ m) : Below (c.run readInner n) (c.run readInner m) := by
  induction h with
  | refl => exact .refl _
  | step _ ih => exact ih.trans (c.below_succ _)

theorem below_document (h : n ≤ m) : Below (document readInner n) (document readInner m) :=
  .bind ((Call.nodes []).below h) fun _ => .refl _

end Read

namespace Document

/-- What is made of the end of reading a text. -/
def ofReading : EStateM.Result ParseFailure Reader (List Node) → Except ParseFailure Document
  | .ok body r => .ok ⟨r.scanner.place, body, r.macros⟩
  | .error e _ => .error e

/-- A text is read as with any more fuel. -/
theorem readWith_eq {readInner : ReadInner} (hinner : readInner.Ends) (resource : Option String)
    {text : String} {n : Nat} (hn : fuelFor (Scanner.ofText text resource) ≤ n) :
    readWith readInner resource text =
      ofReading (Read.document readInner n ⟨Scanner.ofText text resource, []⟩) := by
  have hends := readWith_ne_exhausted hinner resource text
  have hread : readWith readInner resource text = ofReading (Read.document readInner
      (fuelFor (Scanner.ofText text resource)) ⟨Scanner.ofText text resource, []⟩) := by
    simp only [readWith]
    split <;> rename_i h <;> rw [h] <;> rfl
  rcases Read.below_document hn ⟨Scanner.ofText text resource, []⟩ with ⟨r, hr⟩ | hsame
  · rw [hread, hr] at hends
    exact absurd rfl hends
  · rw [hread, hsame]

end Document

end Stencil
