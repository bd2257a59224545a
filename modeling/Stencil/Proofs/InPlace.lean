import Stencil.Proofs.DirectiveNames
import Stencil.Proofs.DocumentFuel
import Stencil.Proofs.LocalDocument

/-!
# Nodes read in place

Nodes that stand one after another in a text: `ReadsNodes`. What is read of them does not depend on the text
behind the character after them, and with a mark there they are the nodes of a block.
-/

namespace Stencil

open Stencil.Text

/-- Nodes that are read one after another, with enough fuel for each. -/
inductive ReadsNodes (readInner : ReadInner) : Reader → List Node → Reader → Prop
  | nil {r : Reader} : ReadsNodes readInner r [] r
  | cons {n : Nat} {r r₁ r' : Reader} {x : Node} {xs : List Node}
      (h : Read.item readInner n r = .ok (.node x) r₁) (hs : ReadsNodes readInner r₁ xs r') :
      ReadsNodes readInner r (x :: xs) r'

/-- Whether a reader gives a result with enough fuel, however much it is. -/
def Read.Comes {α : Type} (x : Nat → Read α) (r : Reader) (a : α) (r' : Reader) : Prop :=
  ∃ k, ∀ n, k ≤ n → x n r = .ok a r'

/-! ### Where a text begins -/

namespace Scanner

/-- A scanner at the beginning of characters, in a resource and with so many lines counted before them. -/
def atStart (resource : Option String) (cs : List Char) (line : Nat) : Scanner :=
  ⟨resource, cs.head?, none, cs.tail, line + newlines cs.head?.toList⟩

variable {resource : Option String} {line : Nat} {c : Char} {p cs more : List Char}

theorem pending_atStart (resource : Option String) (cs : List Char) (line : Nat) :
    (atStart resource cs line).pending = cs := by
  cases cs <;> rfl

theorem ofText_eq_atStart (text : String) (resource : Option String) :
    ofText text resource = atStart resource (unifyNewlines text.toList) 1 :=
  ofText_eq text resource

/-- Going past characters counts the lines that they end. -/
theorem advanceBy_atStart_lines (p : List Char) : (atStart resource (p ++ cs) line).advanceBy p.length =
    atStart resource cs (line + newlines p) := by
  cases p with
  | nil => rfl
  | cons c p =>
    have hlines : line + newlines (c :: p) = line + newlines [c] + newlines p := by
      rw [Nat.add_assoc, newlines, newlines, newlines, ← List.count_append]
      rfl
    rw [hlines]
    exact advanceBy_run resource p cs c (line + newlines [c])

/-- Going past characters that do not end the line. -/
theorem advanceBy_atStart (hp : '\n' ∉ p) : (atStart resource (p ++ cs) line).advanceBy p.length =
    atStart resource cs line := by
  have hlines : newlines p = 0 := List.count_eq_zero.2 hp
  rw [advanceBy_atStart_lines, hlines]
  rfl

theorem advance_atStart (hc : c ≠ '\n') : (atStart resource (c :: cs) line).advance = atStart resource cs line :=
  advanceBy_atStart (p := [c]) (by simpa using hc.symm)

/-- Text behind the first characters. -/
theorem atStart_append (hp : p ≠ []) (more : List Char) :
    atStart resource (p ++ more) line = (atStart resource p line).followedBy more := by
  cases p with
  | nil => exact absurd rfl hp
  | cons c p => rfl

end Scanner

section Names

variable {resource : Option String} {line : Nat} {x : String} {k : List Char}

theorem IsName.not_mem {c : Char} (hx : IsName x) (hc : isNameChar c = false) : c ∉ x.toList := by
  obtain ⟨d, ds, hds, hd, hall⟩ := hx
  rw [hds]
  intro h
  have hname : isNameChar c = true := by
    obtain rfl | h := List.mem_cons.1 h
    · exact isNameChar_of_isLetter hd
    · exact hall c h
  rw [hc] at hname
  cases hname

/-- The name of a directive behind its hash sign. -/
theorem Scan.directiveName_atStart (hx : IsName x) (hk : ∀ c ∈ k.head?, isNameChar c = false) :
    directiveName (Scanner.atStart resource ('#' :: (x.toList ++ k)) line).advance =
      .ok x (Scanner.atStart resource k line) := by
  rw [Scanner.advance_atStart (by decide), directiveName_alone hx (Scanner.pending_atStart _ _ _) hk,
    Scanner.advanceBy_atStart (hx.not_mem (by decide))]

/-- The same, in braces. -/
theorem Scan.directiveName_braced_atStart (hx : IsName x) :
    directiveName (Scanner.atStart resource ('#' :: '\x7b' :: (x.toList ++ '\x7d' :: k)) line).advance =
      .ok x (Scanner.atStart resource k line) := by
  have hbraced : '\x7b' :: (x.toList ++ '\x7d' :: k) = ('\x7b' :: (x.toList ++ ['\x7d'])) ++ k := by simp
  have hlength : x.toList.length + 2 = ('\x7b' :: (x.toList ++ ['\x7d'])).length := by simp
  rw [Scanner.advance_atStart (by decide), directiveName_braced hx (Scanner.pending_atStart _ _ _), hbraced,
    hlength, Scanner.advanceBy_atStart]
  simp [hx.not_mem (show isNameChar '\n' = false by decide)]

/-- A hash sign and a name begin a directive. -/
theorem Read.item_named {readInner : ReadInner} {n : Nat} {ms : List MacroDef} (hx : IsName x) :
    item readInner (n + 1) ⟨Scanner.atStart resource ('#' :: (x.toList ++ k)) line, ms⟩ =
      directive readInner n ⟨(Scanner.atStart resource ('#' :: (x.toList ++ k)) line).advance, ms⟩ := by
  obtain ⟨c, cs, hcs, hc, -⟩ := hx
  have hpending : (Scanner.atStart resource ('#' :: (x.toList ++ k)) line).pending = '#' :: c :: (cs ++ k) := by
    rw [Scanner.pending_atStart, hcs, List.cons_append]
  exact item_directive hpending (.inl hc)

end Names

theorem Scanner.followedBy_eq_atStart {t : Scanner} {resource : Option String} {line : Nat} {p more : List Char}
    (hp : p ≠ []) (h : t.followedBy more = atStart resource (p ++ more) line) (other : List Char) :
    t.followedBy other = atStart resource (p ++ other) line := by
  cases p with
  | nil => exact absurd rfl hp
  | cons c p =>
    obtain ⟨resource', current, slot, rest, line'⟩ := t
    obtain ⟨rfl, rfl, rfl, hrest, rfl⟩ := Scanner.mk.inj h
    obtain rfl : rest = p := List.append_cancel_right hrest
    rfl

/-! ### What was put back -/

/-- Whether nothing is put back, or the period that is the current character. -/
def Scanner.Settled (s : Scanner) : Prop :=
  s.slot = none ∨ s.current = some '.'

theorem Scanner.Settled.advance {s : Scanner} (h : s.Settled) : s.advance.slot = none := by
  cases hs : s.current with
  | none =>
    rw [advance_of_left (left_eq_zero.2 hs)]
    exact h.resolve_right (by simp [hs])
  | some c => exact slot_advance (by simp [hs])

theorem Scanner.Tidy.settled {s : Scanner} {ops : List Op} (h : Tidy s ops) (hs : s.Settled) :
    (after ops s).Settled := by
  induction h with
  | nil => exact hs
  | advance _ ih => exact ih (.inl hs.advance)
  | period _ _ ih => exact ih (.inr rfl)

theorem Scan.Goes.settled {α : Type} {x : Scan α} {s t : Scanner} {a : α} {Φ : α → Scanner → Prop}
    (hx : Goes x s Φ) (h : x s = .ok a t) (hs : s.Settled) : t.Settled := by
  obtain ⟨ops, o, hdoes, htidy, -⟩ := hx
  obtain ⟨hrun, hafter⟩ := hdoes.sound
  rw [hafter a t (hrun.symm.trans h)]
  exact htidy.settled hs

theorem Read.Call.settled {readInner : ReadInner} {n : Nat} {α : Type} (c : Call α) {r r' : Reader} {a : α}
    (h : c.run readInner n r = .ok a r') (hs : r.scanner.Settled) : r'.scanner.Settled := by
  obtain ⟨ops, o, hdoes, htidy, -⟩ := @goes readInner n α c r
  obtain ⟨hrun, hafter⟩ := hdoes.sound
  rw [hafter a r' (hrun.symm.trans h)]
  exact htidy.settled hs

theorem Scanner.Settled.skipNewline {s : Scanner} (h : s.slot = none) : s.skipNewline.Settled := by
  rw [Scanner.skipNewline]
  split
  · exact .inl (Scanner.Settled.advance (.inl h))
  · exact .inl h

/-- A scanner at a character that ends no line and is no period is at the beginning of what is pending. -/
theorem Scanner.eq_atStart {s : Scanner} {c : Char} {cs : List Char} (hs : s.Settled) (h : s.pending = c :: cs)
    (hc : c ≠ '.' ∧ c ≠ '\n') : s = atStart s.resource (c :: cs) s.line := by
  have hcurrent := (pending_eq_cons h).1
  have hslot : s.slot = none := hs.resolve_right (by simp [hcurrent, hc.1])
  have hline : newlines [c] = 0 := List.count_eq_zero.2 fun hmem => hc.2 (List.mem_singleton.1 hmem).symm
  obtain ⟨resource, current, slot, rest, line⟩ := s
  obtain rfl : current = some c := hcurrent
  obtain rfl : slot = none := hslot
  obtain rfl : rest = cs := (List.cons.inj h).2
  show _ = (⟨resource, some c, none, rest, line + newlines [c]⟩ : Scanner)
  rw [hline]
  rfl

namespace ReadsNodes

variable {readInner : ReadInner} {r r' : Reader} {xs : List Node}

theorem settled (h : ReadsNodes readInner r xs r') (hr : r.scanner.Settled) : r'.scanner.Settled := by
  induction h with
  | nil => exact hr
  | cons h _ ih => exact ih (Read.Call.item.settled h hr)

theorem shrinks (h : ReadsNodes readInner r xs r') : r'.scanner.rest <:+ r.scanner.rest := by
  induction h with
  | nil => exact List.suffix_refl _
  | cons h _ ih => exact ih.trans ((Read.Call.item.isLocal _).shrinks h)

/-- The nodes do not depend on the text behind the character after them. -/
theorem replays {q : Reader} {more : List Char} (hmore : more ≠ [])
    (h : ReadsNodes readInner (q.followedBy more) xs r') (hlength : more.length ≤ r'.scanner.rest.length) :
    ∃ u : Reader, r' = u.followedBy more ∧
      ∀ other, ReadsNodes readInner (q.followedBy other) xs (u.followedBy other) := by
  generalize hr : q.followedBy more = r at h
  induction h generalizing q with
  | nil => exact ⟨q, hr.symm, fun _ => .nil⟩
  | @cons n r r₁ r' x xs hx hs ih =>
    subst hr
    obtain ⟨u, hu⟩ := (Read.Call.item.isLocal n).replays hmore hx (hlength.trans hs.shrinks.length_le)
    obtain ⟨-, rfl⟩ := EStateM.Result.ok.inj (hx.symm.trans (hu more))
    obtain ⟨v, hv, hreads⟩ := ih hlength rfl
    exact ⟨v, hv, fun other => .cons (hu other) (hreads other)⟩

/-- Nodes after a step, up to a hash sign, do not depend on what stands behind that sign. -/
theorem replays_after {α : Type} {x : Scan α} (hx : x.Local) {a : α} {t : Scanner} {resource : Option String}
    {line : Nat} {p more : List Char} {ms : List MacroDef} (hmore : more ≠ [])
    (hstep : x (Scanner.atStart resource (p ++ '#' :: more) line) = .ok a t) (ht : t.Settled)
    (h : ReadsNodes readInner ⟨t, ms⟩ xs r') (hpending : r'.scanner.pending = '#' :: more) :
    ∃ resource' line' ms', r' = ⟨Scanner.atStart resource' ('#' :: more) line', ms'⟩ ∧ ∀ other, ∃ t',
      x (Scanner.atStart resource (p ++ '#' :: other) line) = .ok a t' ∧
        ReadsNodes readInner ⟨t', ms⟩ xs ⟨Scanner.atStart resource' ('#' :: other) line', ms'⟩ := by
  have hstart (other : List Char) : Scanner.atStart resource (p ++ '#' :: other) line =
      (Scanner.atStart resource (p ++ ['#']) line).followedBy other := by
    rw [← Scanner.atStart_append (by simp), List.append_assoc]
    rfl
  have hr' := Scanner.eq_atStart (h.settled ht) hpending ⟨by decide, by decide⟩
  have hlength : more.length ≤ r'.scanner.rest.length := by
    rw [hr']
    exact Nat.le_refl _
  rw [hstart] at hstep
  obtain ⟨u, hu⟩ := hx.replays hstep (.of_ne hmore (hlength.trans h.shrinks.length_le))
  obtain ⟨-, rfl⟩ := EStateM.Result.ok.inj (hstep.symm.trans (hu more))
  obtain ⟨v, hv, hreads⟩ := replays (q := ⟨u, ms⟩) hmore h hlength
  subst hv
  refine ⟨_, _, v.macros, congrArg (Reader.mk · v.macros) hr', fun other => ⟨u.followedBy other, ?_, ?_⟩⟩
  · rw [hstart]
    exact hu other
  · have hv := Scanner.followedBy_eq_atStart (p := ['#']) (by simp) hr' other
    exact hv ▸ hreads other

/-- With a mark behind them they are a sequence. -/
theorem nodes {m : Mark} {r'' : Reader} (h : ReadsNodes readInner r xs r')
    (hmark : Read.Comes (Read.item readInner) r' (.mark m) r'') (done : List Node) :
    Read.Comes (fun n => Read.nodes readInner n done) r ((xs.foldl addNode done).reverse, m) r'' := by
  induction h generalizing done with
  | nil =>
    obtain ⟨k, hk⟩ := hmark
    refine ⟨k + 1, fun n hn => ?_⟩
    obtain ⟨n, rfl⟩ : ∃ j, n = j + 1 := ⟨n - 1, by omega⟩
    exact Read.bind_eq_ok.2 ⟨_, _, hk n (by omega), rfl⟩
  | @cons j r r₁ r' x xs hx _ ih =>
    obtain ⟨k, hk⟩ := ih hmark (addNode done x)
    refine ⟨max j k + 1, fun n hn => ?_⟩
    obtain ⟨n, rfl⟩ : ∃ i, n = i + 1 := ⟨n - 1, by omega⟩
    have hitem := (@Read.Call.below readInner j n _ .item (by omega)).ok hx
    exact Read.bind_eq_ok.2 ⟨_, _, hitem, hk n (by omega)⟩

end ReadsNodes

end Stencil
