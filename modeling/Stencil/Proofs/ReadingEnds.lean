import Stencil.Proofs.CourseDocument
import Stencil.Proofs.DocumentAlike

/-!
# Reading ends

A call with more fuel than work does not run out of fuel, since what it calls has less work than it. The
fuel that a text is read with is more than the work there is, so a text is read to a document or refused:
`Document.reading_ends`.
-/

namespace Stencil

open Stencil.Text

theorem Settles.scan {α : Type} {x : Scan α} {s : Scanner} {Φ : α → Scanner → Prop} (h : Settles x s Φ)
    (ms : List MacroDef) : Settles (Read.scan x) ⟨s, ms⟩ fun a r => Φ a r.scanner := by
  rw [Settles] at h ⊢
  rw [Read.scan]
  split at h
  · rename_i hx
    rw [hx]
    exact h
  · rename_i hx
    rw [hx]
    trivial
  · exact h.elim

namespace Read

variable {readInner : ReadInner} {n w : Nat}

/-- A step runs out of fuel only through what it calls. -/
theorem Course.settles {α : Type} {x : Read α} {s : Scanner} {Φ : α → Scanner → Prop}
    (hinner : readInner.Ends) (hw : w ≤ n)
    (hcalls : ∀ {β : Type} (c : Call β) (r : Reader), c.work r.scanner < w →
      Settles (c.run readInner n) r fun b r' => r'.scanner.left + c.taken b ≤ r.scanner.left)
    (h : Course readInner n w x s Φ) (ms : List MacroDef) :
    Settles x ⟨s, ms⟩ fun a r => Φ a r.scanner := by
  induction h generalizing ms with
  | pure h => exact h
  | bind _ _ ihx ihf => exact .bind (ihx ms) fun b r hr => ihf b r.scanner hr r.macros
  | scan h => exact .scan (h.settles hinner fun c t hr hc => c.settles hinner hr (by omega)) ms
  | define h => exact h
  | @call α s Φ c hc h =>
    have hsettles := hcalls c ⟨s, ms⟩ hc
    rw [Settles] at hsettles ⊢
    split at hsettles
    · exact h _ _ hsettles
    · trivial
    · exact hsettles

/-- A call with more fuel than work does not run out of it. -/
theorem Call.settles (hinner : readInner.Ends) {α : Type} (c : Call α) (r : Reader)
    (hn : c.work r.scanner < n) :
    Settles (c.run readInner n) r fun a r' => r'.scanner.left + c.taken a ≤ r.scanner.left := by
  induction n generalizing α r with
  | zero => omega
  | succ n ih =>
    exact (c.course r.scanner).settles hinner (by omega) (fun c' r' hw => ih c' r' (by omega)) r.macros

end Read

namespace Document

variable {readInner : ReadInner}

theorem readWith_ne_exhausted (hinner : readInner.Ends) (resource : Option String) (text : String) :
    readWith readInner resource text ≠ .error .exhausted := by
  have hfuel : (Read.Call.nodes []).work (Scanner.ofText text resource)
      < fuelFor (Scanner.ofText text resource) := by
    simp only [Read.Call.work, Read.Call.rank, fuelFor, Scanner.left]
    omega
  have hnodes := (Read.Call.nodes []).settles hinner ⟨Scanner.ofText text resource, []⟩ hfuel
  have hdocument : Settles (Read.document readInner (fuelFor (Scanner.ofText text resource)))
      ⟨Scanner.ofText text resource, []⟩ fun _ _ => True := by
    refine .bind hnodes fun p r _ => ?_
    refine .bind (Ψ := fun _ _ => True) ?_ fun _ _ _ => trivial
    refine .scan (Φ := fun _ _ => True) ?_ r.macros
    rw [Scan.close]
    split <;> trivial
  intro hread
  simp only [readWith] at hread
  rw [Settles] at hdocument
  split at hread
  · cases hread
  · rename_i e r he
    obtain rfl := Except.error.inj hread
    rw [he] at hdocument
    exact hdocument

/-- The inside of a text literal holds no double quote, so that nothing is to be read inside it. -/
theorem readInside_ends : ReadInner.Ends readInside := by
  intro name text hquote hinside
  let none : ReadInner := fun _ _ => .ok []
  have hnone : none.Ends := nofun
  have hsame : SameInner true (fun _ _ => .error .exhausted) none := nofun
  have hlike := (likeRead_readWith hsame text (fun _ => hquote) (some name) (some name)).map
    (f := (·.nodes)) (B := fun _ _ => True) fun _ _ _ => trivial
  rw [readInside] at hinside
  rw [hinside] at hlike
  have hread := readWith_ne_exhausted hnone (some name) text
  generalize readWith none (some name) text = x at hlike hread
  match x, hlike, hread with
  | .error .exhausted, _, hread => exact hread rfl
  | .error (.error _), .error he, _ => cases he

/-- Reading always ends. A text is read to a document or refused with an error of reading. Each reader goes
through its text with calls that have less work than it, counted by the characters that are still to be
read, so that a call of the same rank finds fewer of them; the inside of a text literal fits between its
quotes. With more fuel than work no reader runs out of fuel. -/
theorem reading_ends (resource : Option String) (text : String) :
    ((∃ d, read resource text = .ok d) ∨ ∃ e, read resource text = .error (.error e)) ∧
    (∀ (readInner : ReadInner) (n : Nat) {α : Type} (s : Scanner),
      (∀ c : Scan.Call α, c.Ready s → Scan.Course readInner n (c.work s) (c.run readInner (n + 1)) s
        fun _ t => t.left + c.taken ≤ s.left) ∧
      (∀ c : Read.Call α, Read.Course readInner n (c.work s) (c.run readInner (n + 1)) s
        fun a t => t.left + c.taken a ≤ s.left)) ∧
    (∀ {α β : Type} (s t : Scanner),
      (∀ (c : Scan.Call α) (c' : Scan.Call β), c.rank = c'.rank → c'.work t < c.work s → t.left < s.left) ∧
      (∀ (c : Read.Call α) (c' : Read.Call β), c.rank = c'.rank → c'.work t < c.work s →
        t.left < s.left)) ∧
    (∀ (readInner : ReadInner), readInner.Ends → ∀ (n : Nat) {α : Type},
      (∀ (c : Scan.Call α) (s : Scanner), c.Ready s → c.work s < n →
        Settles (c.run readInner n) s fun _ t => t.left + c.taken ≤ s.left) ∧
      (∀ (c : Read.Call α) (r : Reader), c.work r.scanner < n →
        Settles (c.run readInner n) r fun a r' => r'.scanner.left + c.taken a ≤ r.scanner.left)) := by
  refine ⟨?_, ?_, ?_, ?_⟩
  · have hread := readWith_ne_exhausted readInside_ends resource text
    rw [read]
    generalize readWith readInside resource text = x at hread
    match x, hread with
    | .ok d, _ => exact .inl ⟨d, rfl⟩
    | .error (.error e), _ => exact .inr ⟨e, rfl⟩
    | .error .exhausted, hread => exact absurd rfl hread
  · exact fun readInner n α s => ⟨fun c hs => c.course hs, fun c => c.course s⟩
  · intro α β s t
    constructor
    · intro c c' hrank hwork
      simp only [Scan.Call.work] at hwork
      omega
    · intro c c' hrank hwork
      simp only [Read.Call.work] at hwork
      omega
  · exact fun readInner hinner n α => ⟨fun c s hs hn => c.settles hinner hs hn,
      fun c r hn => c.settles hinner r hn⟩

/-- The list `[1]` is read with fuel for its three characters. -/
theorem reading_ends_of_list : (Scanner.ofText "[1]" none).left = 3 ∧
    Settles (Scan.Call.listOrRange.run readInside 25) (Scanner.ofText "[1]" none) fun _ t =>
      t.left + Scan.Call.listOrRange.taken ≤ (Scanner.ofText "[1]" none).left := by
  have hleft : (Scanner.ofText "[1]" none).left = 3 := by decide
  have hready : Scan.Call.listOrRange.Ready (Scanner.ofText "[1]" none) := by
    rw [Scan.Call.Ready, hleft]
    exact Nat.zero_lt_succ 2
  have hwork : Scan.Call.listOrRange.work (Scanner.ofText "[1]" none) < 25 := by
    simp [Scan.Call.work, Scan.Call.rank, hleft]
  have hfuel := (reading_ends none "[1]").2.2.2 readInside readInside_ends 25 (α := Expr)
  exact ⟨hleft, hfuel.1 .listOrRange (Scanner.ofText "[1]" none) hready hwork⟩

end Document

end Stencil
