import Stencil.Proofs.Precedence
import Stencil.Proofs.Verbatim

/-!
# Names of directives

The name of a directive is read alone or in braces, and the scanner then stands behind it. A block ends at
a directive that is a mark, and one line feed after the mark is taken with it.
-/

namespace Stencil

open Stencil.Text

namespace Scanner

variable {s : Scanner} {c : Char} {cs k : List Char}

theorem pending_eq_cons (h : s.pending = c :: cs) : s.current = some c ∧ s.advance.pending = cs := by
  rw [current_eq, pending_advance, h]
  exact ⟨rfl, rfl⟩

theorem skipBlanks_eq (h : s.pending = c :: cs) (hc : isBlank c = false) : s.skipBlanks = s := by
  rw [skipBlanks, takeWhile, h, List.takeWhile_cons_of_neg (by simp [hc])]
  rfl

theorem pending_advanceBy_append (h : s.pending = cs ++ k) : (s.advanceBy cs.length).pending = k := by
  rw [pending_advanceBy, h, List.drop_left]

end Scanner

namespace Scan

variable {s : Scanner} {x : String} {k : List Char}

theorem skip_eq (s : Scanner) : skip s = .ok () s.advance := rfl

theorem skipBlanks_eq (s : Scanner) : skipBlanks s = .ok () s.skipBlanks := rfl

/-- The name of a directive, alone. -/
theorem directiveName_alone (hx : IsName x) (hs : s.pending = x.toList ++ k)
    (hk : ∀ c ∈ k.head?, isNameChar c = false) : directiveName s = .ok x (s.advanceBy x.toList.length) := by
  have hbrace : s.pending.head? ≠ some '\x7b' := by
    obtain ⟨c, cs, hcs, hc, -⟩ := hx
    rw [hs, hcs]
    rintro ⟨⟩
    exact absurd hc (by decide)
  rw [directiveName, bind_ok (peek_eq s), if_neg hbrace]
  exact name_eq hx hs hk

/-- The name of a directive, in braces. -/
theorem directiveName_braced (hx : IsName x) (hs : s.pending = '\x7b' :: (x.toList ++ '\x7d' :: k)) :
    directiveName s = .ok x (s.advanceBy (x.toList.length + 2)) := by
  have hnext := (Scanner.pending_eq_cons hs).2
  have hname : name "Directive inside #\x7b...\x7d" s.advance = .ok x _ :=
    name_eq hx hnext (by rintro _ ⟨⟩; decide)
  have hclose := Scanner.pending_advanceBy_append hnext
  have hexpect : expect '\x7d' (s.advance.advanceBy x.toList.length) =
      .ok () (s.advance.advanceBy x.toList.length).advance := by
    rw [expect, bind_ok (skipBlanks_eq _), Scanner.skipBlanks_eq hclose (by decide), bind_ok (peek_eq _),
      if_pos (by rw [hclose]; rfl)]
    rfl
  rw [directiveName, bind_ok (peek_eq s), if_pos (by rw [hs]; rfl), bind_ok (skip_eq s), bind_ok hname, bind_ok hexpect]
  show EStateM.Result.ok x _ = _
  rw [show x.toList.length + 2 = 1 + x.toList.length + 1 by omega, Scanner.advanceBy_add, Scanner.advanceBy_add]
  rfl

end Scan

/-- The name of a marker is a name. -/
theorem Marker.isName (m : Marker) : IsName m.name := by
  cases m with
  | elseIf => exact ⟨'e', ['l', 's', 'e', 'i', 'f'], rfl, rfl, List.all_eq_true.1 rfl⟩
  | otherwise => exact ⟨'e', ['l', 's', 'e'], rfl, rfl, List.all_eq_true.1 rfl⟩
  | endBlock => exact ⟨'e', ['n', 'd'], rfl, rfl, List.all_eq_true.1 rfl⟩

namespace Read

variable {readInner : ReadInner} {n : Nat} {s t : Scanner} {ms : List MacroDef} {c : Char} {cs : List Char}

/-- A hash sign before a letter or a brace begins a directive. -/
theorem item_directive (hs : s.pending = '#' :: c :: cs) (hc : isLetter c = true ∨ c = '\x7b') :
    item readInner (n + 1) ⟨s, ms⟩ = directive readInner n ⟨s.advance, ms⟩ := by
  have hpeek {t : Scanner} {d : Char} {ds : List Char} (h : t.pending = d :: ds) :
      Scan.peek t = .ok (some d) t := by
    rw [Scan.peek_eq, h]
    rfl
  rw [item]
  refine (scan_bind_ok (hpeek hs)).trans ((scan_bind_ok (Scan.skip_eq s)).trans ?_)
  refine (scan_bind_ok (r := ⟨s.advance, ms⟩) (hpeek (Scanner.pending_eq_cons hs).2)).trans ?_
  have hletter {d : Char} (hd : isLetter d = false) (heq : some c = some d) (hc : isLetter c = true) : False := by
    obtain rfl := Option.some.inj heq
    rw [hd] at hc
    cases hc
  rcases hc with hc | rfl
  · refine congrFun (g := directive readInner n) ?_ ⟨s.advance, ms⟩
    split
    · exact (hletter rfl ‹_› hc).elim
    · exact (hletter rfl ‹_› hc).elim
    · exact (hletter rfl ‹_› hc).elim
    · rfl
    · exact (hletter rfl ‹_› hc).elim
    · rename_i heq
      obtain rfl := Option.some.inj heq
      exact if_pos hc
    · contradiction
  · rfl

/-! ### Marks -/

/-- A directive with the name of a mark is that mark, and takes one line feed. -/
theorem directive_marker {m : Marker} (h : Scan.directiveName s = .ok m.name t) :
    directive readInner (n + 1) ⟨s, ms⟩ = .ok (.mark m.mark) ⟨t.skipNewline, ms⟩ := by
  rw [directive]
  cases m <;> exact (scan_bind_ok h).trans rfl

theorem directive_if (h : Scan.directiveName s = .ok "if" t) :
    directive readInner (n + 1) ⟨s, ms⟩ =
      (do return .node (← choice readInner n "#if") : Read Item) ⟨t, ms⟩ := by
  rw [directive]
  exact (scan_bind_ok h).trans rfl

end Read

end Stencil
