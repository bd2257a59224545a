import Stencil.Proofs.CourseDocument

/-!
# The moments of reading

What a step of reading does to the scanner, one character at a time: `Scan.Does` follows a step through its
operations in order, and `Read.Does` does so for steps of reading nodes. From the course of the readers it
follows that a run only ever takes characters and puts back a period that it has just taken, so that at
every moment what is still to be read is an end of the text: `Tidy.suffix`, `Tidy.putBack`.
-/

namespace Stencil

open Stencil.Text

namespace Scanner

/-- What is done to a scanner, one character at a time. -/
inductive Op where
  | advance
  | putBack (c : Char)

/-- The scanner after an operation. -/
def Op.apply : Op → Scanner → Scanner
  | .advance, s => s.advance
  | .putBack c, s => s.putBack c

/-- The scanner after operations in a row. -/
def after : List Op → Scanner → Scanner
  | [], s => s
  | o :: ops, s => after ops (o.apply s)

variable {s : Scanner} {ops : List Op}

theorem after_append (ops ops' : List Op) (s : Scanner) : after (ops ++ ops') s = after ops' (after ops s) := by
  induction ops generalizing s with
  | nil => rfl
  | cons o ops ih => exact ih (o.apply s)

theorem after_replicate (k : Nat) (s : Scanner) : after (List.replicate k .advance) s = s.advanceBy k := by
  induction k generalizing s with
  | zero => rfl
  | succ k ih => exact ih s.advance

/-- No character is put back before one that was just taken. -/
theorem slot_advance (h : s.current ≠ none) : s.advance.slot = none := by
  obtain ⟨resource, current, slot, rest, line⟩ := s
  rcases current with _ | c
  · exact absurd rfl h
  · rcases slot with _ | d
    · cases rest <;> rfl
    · rfl

theorem slot_advanceBy {k : Nat} (h : k < s.left) : (s.advanceBy (k + 1)).slot = none := by
  rw [advanceBy_add]
  refine slot_advance fun hnone => ?_
  have hleft := left_eq_zero.2 hnone
  rw [left_advanceBy] at hleft
  omega

/-- Operations that take characters, and put back nothing but a period that was just taken. -/
inductive Tidy : Scanner → List Op → Prop
  | nil {s : Scanner} : Tidy s []
  | advance {s : Scanner} {ops : List Op} (h : Tidy s.advance ops) : Tidy s (.advance :: ops)
  | period {s : Scanner} {ops : List Op} (hs : s.current = some '.')
      (h : Tidy (s.advance.putBack '.') ops) : Tidy s (.advance :: .putBack '.' :: ops)

namespace Tidy

theorem replicate (k : Nat) (s : Scanner) : Tidy s (List.replicate k .advance) := by
  induction k generalizing s with
  | zero => exact .nil
  | succ k ih => exact .advance (ih s.advance)

theorem append {ops' : List Op} (h : Tidy s ops) (h' : Tidy (after ops s) ops') :
    Tidy s (ops ++ ops') := by
  induction h with
  | nil => exact h'
  | advance _ ih => exact .advance (ih h')
  | period hs _ ih => exact .period hs (ih h')

theorem pending_period (hs : s.current = some '.') : (s.advance.putBack '.').pending = s.pending := by
  obtain ⟨cs, hcs⟩ := List.head?_eq_some_iff.1 (s.current_eq ▸ hs)
  rw [pending_putBack_advance hcs, hcs]

/-- At every moment what is still to be read is an end of what was to be read at first. -/
theorem suffix (h : Tidy s ops) {before after : List Op} (hops : ops = before ++ after) :
    (Scanner.after before s).pending <:+ s.pending := by
  induction h generalizing before with
  | @nil s =>
    obtain ⟨rfl, rfl⟩ := List.append_eq_nil_iff.1 hops.symm
    exact List.suffix_refl _
  | @advance s ops _ ih =>
    cases before with
    | nil => exact List.suffix_refl _
    | cons o before =>
      obtain ⟨rfl, htail⟩ := List.cons.inj hops
      refine (ih htail).trans ?_
      rw [pending_advance]
      exact List.tail_suffix _
  | @period s ops hs _ ih =>
    rcases before with _ | ⟨o, _ | ⟨o', before⟩⟩
    · exact List.suffix_refl _
    · obtain ⟨rfl, -⟩ := List.cons.inj hops
      show s.advance.pending <:+ _
      rw [pending_advance]
      exact List.tail_suffix _
    · obtain ⟨rfl, htail⟩ := List.cons.inj hops
      obtain ⟨rfl, hrest⟩ := List.cons.inj htail
      rw [← pending_period hs]
      exact ih hrest

/-- A character is put back only where nothing else was put back before it, and it is a period that was
just taken. -/
theorem putBack (h : Tidy s ops) {before after : List Op} {c : Char}
    (hops : ops = before ++ .putBack c :: after) :
    c = '.' ∧ (Scanner.after before s).slot = none ∧
      ∃ earlier, before = earlier ++ [.advance] ∧ (Scanner.after earlier s).current = some '.' := by
  have hcons {s : Scanner} {o : Op} {before : List Op} (hbefore : c = '.' ∧
      (Scanner.after before (o.apply s)).slot = none ∧ ∃ earlier, before = earlier ++ [.advance] ∧
        (Scanner.after earlier (o.apply s)).current = some '.') :
      c = '.' ∧ (Scanner.after (o :: before) s).slot = none ∧
        ∃ earlier, o :: before = earlier ++ [.advance] ∧ (Scanner.after earlier s).current = some '.' := by
    obtain ⟨hc, hslot, earlier, rfl, hcurrent⟩ := hbefore
    exact ⟨hc, hslot, o :: earlier, rfl, hcurrent⟩
  induction h generalizing before with
  | nil => cases before <;> cases hops
  | @advance s ops _ ih =>
    cases before with
    | nil => cases hops
    | cons o before =>
      obtain ⟨rfl, htail⟩ := List.cons.inj hops
      exact hcons (ih htail)
  | @period s ops hs _ ih =>
    rcases before with _ | ⟨o, _ | ⟨o', before⟩⟩
    · cases hops
    · obtain ⟨rfl, htail⟩ := List.cons.inj hops
      obtain rfl := Op.putBack.inj (List.cons.inj htail).1
      exact ⟨rfl, slot_advance (by simp [hs]), [], rfl, hs⟩
    · obtain ⟨rfl, htail⟩ := List.cons.inj hops
      obtain ⟨rfl, hrest⟩ := List.cons.inj htail
      exact hcons (hcons (ih hrest))

end Tidy

end Scanner

open Scanner (Op Tidy)

namespace Scan

/-- What a step of reading does from a scanner, operation by operation, and how it ends. -/
inductive Does :
    {α : Type} → Scan α → Scanner → List Op → EStateM.Result ParseFailure Scanner α → Prop
  | pure {α : Type} {a : α} {s : Scanner} : Does (Pure.pure a) s [] (.ok a s)
  | bind {α β : Type} {x : Scan β} {f : β → Scan α} {s t : Scanner} {ops ops' : List Op} {b : β}
      {o : EStateM.Result ParseFailure Scanner α} (hx : Does x s ops (.ok b t))
      (hf : Does (f b) t ops' o) : Does (x >>= f) s (ops ++ ops') o
  | bindError {α β : Type} {x : Scan β} {f : β → Scan α} {s t : Scanner} {ops : List Op}
      {e : ParseFailure} (hx : Does x s ops (.error e t)) : Does (x >>= f) s ops (.error e t)
  | get {s : Scanner} : Does get s [] (.ok s s)
  | take {α : Type} {f : Scanner → α × Scanner} {s : Scanner} (k : Nat) (hf : (f s).2 = s.advanceBy k) :
      Does (modifyGet f) s (List.replicate k .advance) (.ok (f s).1 (f s).2)
  | putBack {c : Char} {s : Scanner} : Does (putBack c) s [.putBack c] (.ok () (s.putBack c))
  | fail {α : Type} {cause : ParseCause} {s : Scanner} :
      Does (α := α) (fail cause) s [] (.error (.error (s.error cause)) s.afterError)
  | throw {α : Type} {e : ParseFailure} {s : Scanner} : Does (α := α) (throw e) s [] (.error e s)
  | inner {α : Type} {a : α} {s : Scanner} : Does (inner (.ok a)) s [] (.ok a s)
  | innerError {α : Type} {e : ParseFailure} {s : Scanner} :
      Does (α := α) (inner (.error e)) s [] (.error e s)

variable {readInner : ReadInner} {n w : Nat} {α β : Type} {s : Scanner} {ops : List Op}

/-- The operations of a step tell how it ends, and where the scanner is if it gives a result. -/
theorem Does.sound {x : Scan α} {o : EStateM.Result ParseFailure Scanner α} (h : Does x s ops o) :
    x s = o ∧ ∀ a t, o = .ok a t → t = Scanner.after ops s := by
  induction h with
  | pure => exact ⟨rfl, fun a t h => by cases h; rfl⟩
  | @bind α β x f s t ops ops' b o _ _ ihx ihf =>
    obtain ⟨hx, hafter⟩ := ihx
    obtain ⟨hf, hafter'⟩ := ihf
    refine ⟨?_, fun a u h => ?_⟩
    · show EStateM.bind x f s = o
      rw [EStateM.bind, hx]
      exact hf
    · rw [Scanner.after_append, ← hafter b t rfl]
      exact hafter' a u h
  | @bindError α β x f s t ops e _ ihx =>
    refine ⟨?_, fun _ _ h => by cases h⟩
    show EStateM.bind x f s = _
    rw [EStateM.bind, ihx.1]
  | get => exact ⟨rfl, fun a t h => by cases h; rfl⟩
  | take k hf =>
    refine ⟨rfl, fun a t h => ?_⟩
    cases h
    rw [hf, Scanner.after_replicate]
  | putBack => exact ⟨rfl, fun a t h => by cases h; rfl⟩
  | fail => exact ⟨rfl, fun _ _ h => by cases h⟩
  | throw => exact ⟨rfl, fun _ _ h => by cases h⟩
  | inner => exact ⟨rfl, fun a t h => by cases h; rfl⟩
  | innerError => exact ⟨rfl, fun _ _ h => by cases h⟩

/-- Whether a step goes by operations that are tidy, and a result of it satisfies `Φ`. -/
def Goes (x : Scan α) (s : Scanner) (Φ : α → Scanner → Prop) : Prop :=
  ∃ ops o, Does x s ops o ∧ Tidy s ops ∧ ∀ a t, o = .ok a t → Φ a t

theorem Goes.bind {x : Scan β} {f : β → Scan α} {Ψ : β → Scanner → Prop} {Φ : α → Scanner → Prop}
    (hx : Goes x s Ψ) (hf : ∀ b t, Ψ b t → Goes (f b) t Φ) : Goes (x >>= f) s Φ := by
  obtain ⟨ops, o, hdoes, htidy, hΨ⟩ := hx
  cases o with
  | ok b t =>
    obtain ⟨ops', o', hdoes', htidy', hΦ⟩ := hf b t (hΨ b t rfl)
    rw [hdoes.sound.2 b t rfl] at htidy' hdoes' hdoes
    exact ⟨ops ++ ops', o', .bind hdoes hdoes', htidy.append htidy', hΦ⟩
  | error e t => exact ⟨ops, .error e t, .bindError hdoes, htidy, nofun⟩

/-- A step goes by tidy operations if what it calls does. -/
theorem Course.goes {x : Scan α} {Φ : α → Scanner → Prop}
    (hcalls : ∀ {β : Type} (c : Call β) (t : Scanner), c.Ready t →
      Goes (c.run readInner n) t fun _ u => u.left + c.taken ≤ t.left)
    (h : Course readInner n w x s Φ) : Goes x s Φ := by
  induction h with
  | pure h => exact ⟨[], _, .pure, .nil, fun a t ho => by cases ho; exact h⟩
  | bind _ _ ihx ihf => exact ihx.bind ihf
  | get h => exact ⟨[], _, .get, .nil, fun a t ho => by cases ho; exact h⟩
  | take k _ hf h => exact ⟨_, _, .take k hf, .replicate k _, fun a t ho => by cases ho; exact h⟩
  | @lookPast α p x y s Φ hs _ _ ihx ihy =>
    have hskip : Does Scan.skip s [.advance] (.ok () s.advance) := .take 1 rfl
    have hsees : Does (Scan.sees p) s.advance [] (.ok (s.advance.current.any p) s.advance) :=
      .bind (.bind .get .pure) .pure
    cases hp : s.advance.current.any p with
    | true =>
      obtain ⟨ops, o, hdoes, htidy, hΦ⟩ := ihx hp
      refine ⟨.advance :: ops, o, .bind hskip (.bind hsees ?_), .advance htidy, hΦ⟩
      rw [hp]
      exact hdoes
    | false =>
      obtain ⟨ops, o, hdoes, htidy, hΦ⟩ := ihy hp
      refine ⟨.advance :: .putBack '.' :: ops, o, .bind hskip (.bind hsees ?_), .period hs htidy, hΦ⟩
      rw [hp]
      exact .bind .putBack hdoes
  | fail => exact ⟨[], _, .fail, .nil, nofun⟩
  | refuse => exact ⟨[], _, .throw, .nil, nofun⟩
  | @inner name text s Φ _ _ h =>
    match readInner name text with
    | .ok ns => exact ⟨[], _, .inner, .nil, fun a t ho => by cases ho; exact h ns⟩
    | .error e => exact ⟨[], _, .innerError, .nil, nofun⟩
  | @call α s Φ c hr _ h =>
    obtain ⟨ops, o, hdoes, htidy, hafter⟩ := hcalls c s hr
    exact ⟨ops, o, hdoes, htidy, fun a t ho => h a t (hafter a t ho)⟩

theorem Call.goes (n : Nat) {α : Type} (c : Call α) (s : Scanner) (hs : c.Ready s) :
    Goes (c.run readInner n) s fun _ t => t.left + c.taken ≤ s.left := by
  induction n generalizing α s with
  | zero =>
    have hzero : c.run readInner 0 = throw .exhausted := by cases c <;> rfl
    rw [hzero]
    exact ⟨[], _, .throw, .nil, nofun⟩
  | succ n ih => exact (c.course hs).goes fun c' t hr => ih c' t hr

end Scan

namespace Read

/-- What a step of reading nodes does to the scanner, operation by operation, and how it ends. -/
inductive Does :
    {α : Type} → Read α → Reader → List Op → EStateM.Result ParseFailure Reader α → Prop
  | pure {α : Type} {a : α} {r : Reader} : Does (Pure.pure a) r [] (.ok a r)
  | bind {α β : Type} {x : Read β} {f : β → Read α} {r r' : Reader} {ops ops' : List Op} {b : β}
      {o : EStateM.Result ParseFailure Reader α} (hx : Does x r ops (.ok b r'))
      (hf : Does (f b) r' ops' o) : Does (x >>= f) r (ops ++ ops') o
  | bindError {α β : Type} {x : Read β} {f : β → Read α} {r r' : Reader} {ops : List Op}
      {e : ParseFailure} (hx : Does x r ops (.error e r')) : Does (x >>= f) r ops (.error e r')
  | scan {α : Type} {x : Scan α} {r : Reader} {ops : List Op} {a : α} {t : Scanner}
      (hx : Scan.Does x r.scanner ops (.ok a t)) :
      Does (Read.scan x) r ops (.ok a { r with scanner := t })
  | scanError {α : Type} {x : Scan α} {r : Reader} {ops : List Op} {e : ParseFailure} {t : Scanner}
      (hx : Scan.Does x r.scanner ops (.error e t)) :
      Does (Read.scan x) r ops (.error e { r with scanner := t })
  | define {m : MacroDef} {r : Reader} :
      Does (define m) r [] (.ok () { r with macros := addMacro r.macros m })
  | throw {α : Type} {e : ParseFailure} {r : Reader} : Does (α := α) (throw e) r [] (.error e r)

variable {readInner : ReadInner} {n w : Nat} {α β : Type} {r : Reader} {ops : List Op}

/-- The operations of a step tell how it ends, and where the scanner is if it gives a result. -/
theorem Does.sound {x : Read α} {o : EStateM.Result ParseFailure Reader α} (h : Does x r ops o) :
    x r = o ∧ ∀ a r', o = .ok a r' → r'.scanner = Scanner.after ops r.scanner := by
  induction h with
  | pure => exact ⟨rfl, fun a r' h => by cases h; rfl⟩
  | @bind α β x f r r' ops ops' b o _ _ ihx ihf =>
    obtain ⟨hx, hafter⟩ := ihx
    obtain ⟨hf, hafter'⟩ := ihf
    refine ⟨?_, fun a u h => ?_⟩
    · show EStateM.bind x f r = o
      rw [EStateM.bind, hx]
      exact hf
    · rw [Scanner.after_append, ← hafter b r' rfl]
      exact hafter' a u h
  | @bindError α β x f r r' ops e _ ihx =>
    refine ⟨?_, fun _ _ h => by cases h⟩
    show EStateM.bind x f r = _
    rw [EStateM.bind, ihx.1]
  | @scan α x r ops a t hx =>
    refine ⟨?_, fun b r' h => ?_⟩
    · rw [Read.scan, hx.sound.1]
    · cases h
      exact hx.sound.2 _ _ rfl
  | @scanError α x r ops e t hx => exact ⟨by rw [Read.scan, hx.sound.1], fun _ _ h => by cases h⟩
  | define => exact ⟨rfl, fun a r' h => by cases h; rfl⟩
  | throw => exact ⟨rfl, fun _ _ h => by cases h⟩

/-- Whether a step goes by operations that are tidy, and a result of it satisfies `Φ`. -/
def Goes (x : Read α) (r : Reader) (Φ : α → Scanner → Prop) : Prop :=
  ∃ ops o, Does x r ops o ∧ Tidy r.scanner ops ∧ ∀ a r', o = .ok a r' → Φ a r'.scanner

theorem Goes.bind {x : Read β} {f : β → Read α} {Ψ : β → Scanner → Prop} {Φ : α → Scanner → Prop}
    (hx : Goes x r Ψ) (hf : ∀ b r', Ψ b r'.scanner → Goes (f b) r' Φ) : Goes (x >>= f) r Φ := by
  obtain ⟨ops, o, hdoes, htidy, hΨ⟩ := hx
  cases o with
  | ok b r' =>
    obtain ⟨ops', o', hdoes', htidy', hΦ⟩ := hf b r' (hΨ b r' rfl)
    rw [hdoes.sound.2 b r' rfl] at htidy'
    exact ⟨ops ++ ops', o', .bind hdoes hdoes', htidy.append htidy', hΦ⟩
  | error e r' => exact ⟨ops, .error e r', .bindError hdoes, htidy, nofun⟩

theorem Goes.scan {x : Scan α} {Φ : α → Scanner → Prop} (h : Scan.Goes x r.scanner Φ) :
    Goes (Read.scan x) r Φ := by
  obtain ⟨ops, o, hdoes, htidy, hΦ⟩ := h
  cases o with
  | ok a t =>
    refine ⟨ops, _, .scan hdoes, htidy, fun b r' ho => ?_⟩
    cases ho
    exact hΦ _ _ rfl
  | error e t => exact ⟨ops, _, .scanError hdoes, htidy, nofun⟩

/-- A step goes by tidy operations if what it calls does. -/
theorem Course.goes {x : Read α} {s : Scanner} {Φ : α → Scanner → Prop}
    (hcalls : ∀ {β : Type} (c : Call β) (r : Reader),
      Goes (c.run readInner n) r fun b t => t.left + c.taken b ≤ r.scanner.left)
    (h : Course readInner n w x s Φ) (ms : List MacroDef) : Goes x ⟨s, ms⟩ Φ := by
  induction h generalizing ms with
  | pure h => exact ⟨[], _, .pure, .nil, fun a r' ho => by cases ho; exact h⟩
  | bind _ _ ihx ihf => exact (ihx ms).bind fun b r' hb => ihf b r'.scanner hb r'.macros
  | scan h => exact .scan (h.goes fun c t hr => c.goes n t hr)
  | define h => exact ⟨[], _, .define, .nil, fun a r' ho => by cases ho; exact h⟩
  | @call α s Φ c _ h =>
    obtain ⟨ops, o, hdoes, htidy, hafter⟩ := hcalls c ⟨s, ms⟩
    exact ⟨ops, o, hdoes, htidy, fun a r' ho => h a r'.scanner (hafter a r' ho)⟩

theorem Call.goes (n : Nat) {α : Type} (c : Call α) (r : Reader) :
    Goes (c.run readInner n) r fun a t => t.left + c.taken a ≤ r.scanner.left := by
  induction n generalizing α r with
  | zero =>
    have hzero : c.run readInner 0 = throw .exhausted := by cases c <;> rfl
    rw [hzero]
    exact ⟨[], _, .throw, .nil, nofun⟩
  | succ n ih => exact (c.course r.scanner).goes (fun c' r' => ih c' r') r.macros

end Read

end Stencil
