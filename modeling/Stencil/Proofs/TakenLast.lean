import Stencil.Proofs.Siblings
import Stencil.Proofs.SuffixChain

/-!
# The end of what a step takes

Reading only takes characters: what a step leaves is an end of what was to be read, `OnlyTakes`. So what a
step takes last can be judged without what it took before: `Ends` relates the end of what is taken, together
with what is left, to what is left. The rules go from step to step: past one that only takes characters, to
the one that decides.
-/

namespace Stencil

open Stencil.Text

namespace Scan

variable {α β : Type} {readInner : ReadInner} {n w : Nat} {s : Scanner}
  {Φ Ψ : α → List Char → List Char → Prop}

/-- Whether a step, if it gives a result, leaves an end of what was to be read. -/
def OnlyTakes (x : Scan α) (s : Scanner) : Prop :=
  Gives x s fun _ t => t.pending <:+ s.pending

namespace OnlyTakes

theorem of_goes {x : Scan α} {Φ : α → Scanner → Prop} (h : Goes x s Φ) : OnlyTakes x s := by
  intro a t hx
  obtain ⟨ops, o, hdoes, htidy, -⟩ := h
  obtain ⟨ho, hafter⟩ := hdoes.sound
  rw [hafter a t (ho.symm.trans hx)]
  exact htidy.suffix (List.append_nil ops).symm

theorem call {α : Type} (c : Call α) (hs : c.Ready s) : OnlyTakes (c.run readInner n) s :=
  of_goes (c.goes n s hs)

theorem of_course {x : Scan α} {Φ : α → Scanner → Prop} (h : Course readInner n w x s Φ) : OnlyTakes x s :=
  of_goes (h.goes fun c t hc => c.goes n t hc)

/-- A step that calls no reader. -/
theorem simple {x : Scan α}
    (h : Course (fun _ _ => .error .exhausted) 0 0 x s fun _ _ => True) : OnlyTakes x s :=
  of_course h

end OnlyTakes

/-- Whether a result of a step satisfies `Φ` with the end of what it takes, together with what it leaves, and
with what it leaves. -/
def Ends (x : Scan α) (s : Scanner) (Φ : α → List Char → List Char → Prop) : Prop :=
  Gives x s fun a t => ∃ p, p <:+ s.pending ∧ Φ a p t.pending

namespace Ends

/-- Goes on after a step that only takes characters. -/
theorem after {x : Scan β} {f : β → Scan α} (hx : OnlyTakes x s) (hf : ∀ b t, Ends (f b) t Φ) :
    Ends (x >>= f) s Φ := by
  refine Gives.seq fun b t hb a u ha => ?_
  obtain ⟨p, hp, hΦ⟩ := hf b t a u ha
  exact ⟨p, hp.trans (hx b t hb), hΦ⟩

/-- The last step decides. -/
theorem map {x : Scan β} {f : β → α} (h : Ends x s fun b => Φ (f b)) :
    Ends (do return f (← x)) s Φ :=
  Gives.seq fun b t hx => .pure (h b t hx)

theorem look {f : Option Char → Scan α} (h : Ends (f s.current) s Φ) : Ends (do f (← peek)) s Φ :=
  Gives.seq (.peek h)

theorem ite {c : Prop} [Decidable c] {x y : Scan α} (hx : c → Ends x s Φ) (hy : ¬c → Ends y s Φ) :
    Ends (if c then x else y) s Φ :=
  Gives.ite hx hy

theorem mono {x : Scan α} (h : Ends x s Φ) (hΦ : ∀ a p q, Φ a p q → Ψ a p q) : Ends x s Ψ := by
  intro a t hx
  obtain ⟨p, hp, ha⟩ := h a t hx
  exact ⟨p, hp, hΦ a p _ ha⟩

end Ends

theorem onlyTakes_skip : OnlyTakes skip s :=
  .simple (.skip trivial)

theorem onlyTakes_peek : OnlyTakes peek s :=
  .simple (.peek trivial)

theorem onlyTakes_here : OnlyTakes here s :=
  .simple (.here trivial)

theorem onlyTakes_sees {p : Char → Bool} : OnlyTakes (sees p) s :=
  .simple (.sees trivial)

theorem onlyTakes_directiveName : OnlyTakes directiveName s :=
  .simple (.directiveName fun _ _ _ => trivial)

theorem onlyTakes_parameters : OnlyTakes (parameters n) s := by
  show OnlyTakes (Call.run (fun _ _ => .error .exhausted) n .parameters) s
  exact .call .parameters trivial

theorem onlyTakes_takeWhile {p : Char → Bool} : OnlyTakes (takeWhile p) s :=
  .simple (.takeWhile fun _ _ => trivial)

theorem onlyTakes_expect {c : Char} : OnlyTakes (expect c) s :=
  .simple (.expect fun _ _ => trivial)

theorem onlyTakes_name {what : String} : OnlyTakes (name what) s :=
  .simple (.name fun _ _ _ => trivial)

theorem onlyTakes_skipBlanks : OnlyTakes skipBlanks s :=
  .simple (.skipBlanks fun _ _ => trivial)

/-- What is expected is taken with the blanks before it. -/
theorem gives_expect {c : Char} : Gives (expect c) s fun _ t =>
    ∃ blanks, (∀ d ∈ blanks, isBlank d = true) ∧ s.pending = blanks ++ c :: t.pending := by
  refine .seq fun _ t hskip => .seq (.peek (.ite (fun hc => .skip ?_) fun _ => .fail))
  cases hskip
  rw [Scanner.current_eq] at hc
  obtain ⟨cs, hcs⟩ := List.head?_eq_some_iff.1 hc
  refine ⟨s.pending.takeWhile isBlank, fun d hd => List.mem_takeWhile_imp hd, ?_⟩
  rw [Scanner.pending_advance, hcs, List.tail_cons, ← hcs, Scanner.pending_skipBlanks,
    List.takeWhile_append_dropWhile]

end Scan

namespace Read

open Scan hiding exhausted Gives Ends OnlyTakes

variable {α β : Type} {readInner : ReadInner} {n : Nat} {r : Reader}

/-- Whether a result of a step from a reader satisfies `Φ`, with the reader it leaves. -/
def Gives (x : Read α) (r : Reader) (Φ : α → Reader → Prop) : Prop :=
  ∀ a r', x r = .ok a r' → Φ a r'

namespace Gives

variable {Φ : α → Reader → Prop}

theorem pure {a : α} (h : Φ a r) : Gives (Pure.pure a) r Φ := by
  rintro _ _ ⟨⟩
  exact h

theorem exhausted : Gives (exhausted : Read α) r Φ := by
  rintro _ _ ⟨⟩

theorem seq {x : Read β} {f : β → Read α} (h : Gives x r fun b r₁ => Gives (f b) r₁ Φ) :
    Gives (x >>= f) r Φ := by
  intro a r' ha
  obtain ⟨b, r₁, hb, ha⟩ := bind_eq_ok.1 ha
  exact h b r₁ hb a r' ha

theorem scan {x : Scan α} (h : Scan.Gives x r.scanner fun a t => Φ a ⟨t, r.macros⟩) :
    Gives (Read.scan x) r Φ := by
  intro a r' ha
  obtain ⟨t, ht, rfl⟩ := scan_eq_ok.1 ha
  exact h a t ht

/-- Goes on after a step on the scanner. -/
theorem after {x : Scan β} {f : β → Read α}
    (h : Scan.Gives x r.scanner fun b t => Gives (f b) ⟨t, r.macros⟩ Φ) : Gives (Read.scan x >>= f) r Φ :=
  .seq (.scan h)

theorem ite {c : Prop} [Decidable c] {x y : Read α} (hx : c → Gives x r Φ) (hy : ¬c → Gives y r Φ) :
    Gives (if c then x else y) r Φ := by
  split
  · exact hx ‹_›
  · exact hy ‹_›

end Gives

/-- Whether a step, if it gives a result, leaves an end of what was to be read. -/
def OnlyTakes (x : Read α) (r : Reader) : Prop :=
  Gives x r fun _ r' => r'.scanner.pending <:+ r.scanner.pending

theorem onlyTakes_call {α : Type} (c : Call α) : OnlyTakes (c.run readInner n) r := by
  intro a r' hx
  obtain ⟨ops, o, hdoes, htidy, -⟩ := c.goes n r
  obtain ⟨ho, hafter⟩ := hdoes.sound
  rw [hafter a r' (ho.symm.trans hx)]
  exact htidy.suffix (List.append_nil ops).symm

theorem onlyTakes_block {allowed : List Mark} {inside : Enclosure} :
    OnlyTakes (block readInner n allowed inside) r :=
  onlyTakes_call (.block allowed inside)

/-- Whether a result of a step satisfies `Φ` with the end of what it takes, together with what it leaves, and
with what it leaves. -/
def Ends (x : Read α) (r : Reader) (Φ : α → List Char → List Char → Prop) : Prop :=
  Gives x r fun a r' => ∃ p, p <:+ r.scanner.pending ∧ Φ a p r'.scanner.pending

namespace Ends

variable {Φ : α → List Char → List Char → Prop} {Ψ : β → List Char → List Char → Prop}

/-- Goes on after a step that only takes characters. -/
theorem after {x : Read β} {f : β → Read α} (hx : OnlyTakes x r) (hf : ∀ b r₁, Ends (f b) r₁ Φ) :
    Ends (x >>= f) r Φ := by
  refine Gives.seq fun b r₁ hb a r' ha => ?_
  obtain ⟨p, hp, hΦ⟩ := hf b r₁ a r' ha
  exact ⟨p, hp.trans (hx b r₁ hb), hΦ⟩

theorem afterScan {x : Scan β} {f : β → Read α} (hx : Scan.OnlyTakes x r.scanner)
    (hf : ∀ b r₁, Ends (f b) r₁ Φ) : Ends (Read.scan x >>= f) r Φ :=
  after (Gives.scan hx) hf

/-- The first step decides, or what follows it does. -/
theorem decide {x : Read β} {f : β → Read α} (htakes : OnlyTakes x r) (hx : Ends x r Ψ)
    (hf : ∀ b r₁ p, Ψ b p r₁.scanner.pending →
      Ends (f b) r₁ Φ ∨ Gives (f b) r₁ fun a r' => Φ a p r'.scanner.pending) : Ends (x >>= f) r Φ := by
  refine Gives.seq fun b r₁ hb a r' ha => ?_
  obtain ⟨p, hp, hΨ⟩ := hx b r₁ hb
  rcases hf b r₁ p hΨ with h | h
  · obtain ⟨q, hq, hΦ⟩ := h a r' ha
    exact ⟨q, hq.trans (htakes b r₁ hb), hΦ⟩
  · exact ⟨p, hp, h a r' ha⟩

/-- The first step decides, and the others only take what belongs to it. -/
theorem tail {x : Read β} {f : β → Read α} (hx : Ends x r Ψ)
    (hf : ∀ b r₁ p, Ψ b p r₁.scanner.pending → Gives (f b) r₁ fun a r' => Φ a p r'.scanner.pending) :
    Ends (x >>= f) r Φ := by
  refine Gives.seq fun b r₁ hb a r' ha => ?_
  obtain ⟨p, hp, hΨ⟩ := hx b r₁ hb
  exact ⟨p, hp, hf b r₁ p hΨ a r' ha⟩

theorem scan {x : Scan α} (h : Scan.Ends x r.scanner Φ) : Ends (Read.scan x) r Φ :=
  Gives.scan h

theorem ite {c : Prop} [Decidable c] {x y : Read α} (hx : c → Ends x r Φ) (hy : ¬c → Ends y r Φ) :
    Ends (if c then x else y) r Φ :=
  Gives.ite hx hy

/-- A result that satisfies `Φ` in any case. -/
theorem of_gives {x : Read α} (h : Gives x r fun a _ => ∀ p q, Φ a p q) : Ends x r Φ :=
  fun a r' ha => ⟨_, List.suffix_refl _, h a r' ha _ _⟩

end Ends

end Read

end Stencil
