import Stencil.Proofs.DocumentAlike
import Stencil.Proofs.InPlace
import Stencil.Proofs.SuffixChain

/-!
# Braces around references

A reference that takes all characters up to a place takes the same ones in braces: its arguments and keys end
before that place, and a name ends at the brace as it ended there. What differs is where the reader looked: the
place of a reference without suffixes, and a period that was looked past.
-/

namespace Stencil

open Stencil.Text

namespace Scan

variable {readInner : ReadInner} {α : Type} {n : Nat} {resource : Option String} {line : Nat} {s t : Scanner}
  {w post : List Char}

/-! ### Characters that are left -/

theorem Goes.pending_suffix {x : Scan α} {a : α} {Φ : α → Scanner → Prop} (hx : Goes x s Φ) (h : x s = .ok a t) :
    t.pending <:+ s.pending := by
  obtain ⟨ops, o, hdoes, htidy, -⟩ := hx
  obtain ⟨hrun, hafter⟩ := hdoes.sound
  rw [hafter a t (hrun.symm.trans h)]
  exact htidy.suffix (List.append_nil ops).symm

/-- A name stands at the beginning of what it is read from, and ends before a character that does not go on
with it. -/
theorem name_atStart_eq_ok {what x : String} {cs : List Char} :
    name what (Scanner.atStart resource cs line) = .ok x t ↔ ∃ k, cs = x.toList ++ k ∧ IsName x ∧
      (∀ d ∈ k.head?, isNameChar d = false) ∧ t = Scanner.atStart resource k line := by
  constructor
  · intro h
    have hname : Gives (name what) (Scanner.atStart resource cs line) fun x t => ∃ k, cs = x.toList ++ k ∧
        IsName x ∧ (∀ d ∈ k.head?, isNameChar d = false) := by
      refine .name fun c ds p hp hc hds hhead t ht hslot => ⟨p, ?_, isName_ofList hc (List.all_eq_true.2 hds), hhead⟩
      rw [Scanner.pending_atStart] at hp
      rw [hp, String.toList_ofList]
    obtain ⟨k, rfl, hx, hk⟩ := hname x t h
    rw [name_eq hx (Scanner.pending_atStart _ _ _) hk, Scanner.advanceBy_atStart (hx.not_mem (by decide))] at h
    exact ⟨k, rfl, hx, hk, (EStateM.Result.ok.inj h).2.symm⟩
  · rintro ⟨k, rfl, hx, hk, rfl⟩
    rw [name_eq hx (Scanner.pending_atStart _ _ _) hk, Scanner.advanceBy_atStart (hx.not_mem (by decide))]

theorem skip_atStart {c : Char} {cs : List Char} (hc : c ≠ '\n') :
    skip (Scanner.atStart resource (c :: cs) line) = .ok () (Scanner.atStart resource cs line) :=
  congrArg (EStateM.Result.ok ()) (Scanner.advance_atStart hc)

theorem expect_atStart {c : Char} {cs : List Char} (hblank : isBlank c = false) (hc : c ≠ '\n') :
    expect c (Scanner.atStart resource (c :: cs) line) = .ok () (Scanner.atStart resource cs line) := by
  have hpending := Scanner.pending_atStart resource (c :: cs) line
  rw [expect, bind_ok (skipBlanks_eq _), Scanner.skipBlanks_eq hpending hblank, bind_ok (peek_eq _),
    if_pos (by rw [hpending]; rfl), skip_atStart hc]

/-! ### Closing characters -/

/-- What is read up to a closing character does not depend on what follows that. -/
theorem Local.replays_closing {x : Scan α} (hx : Local x) {a : α} {c : Char} {Φ : α → Scanner → Prop}
    (hgoes : Goes x (Scanner.atStart resource (w ++ post) line) Φ)
    (h : x (Scanner.atStart resource (w ++ post) line) = .ok a t) (hcurrent : t.current = some c)
    (hc : c ≠ '.' ∧ c ≠ '\n') (hpost : post <:+ t.advance.pending) :
    w ≠ [] ∧ ∃ resource' line' k, t = Scanner.atStart resource' (c :: (k ++ post)) line' ∧ ∀ other,
      x (Scanner.atStart resource (w ++ other) line) = .ok a (Scanner.atStart resource' (c :: (k ++ other)) line') := by
  have ht := hgoes.settled h (.inl rfl)
  have hw : w ≠ [] := by
    rintro rfl
    have hpending := hgoes.pending_suffix h
    rw [Scanner.pending_atStart, Scanner.pending_eq, hcurrent] at hpending
    exact absurd (hpost.length_le.trans_lt (Nat.lt_succ_self _)) (Nat.not_lt.2 hpending.length_le)
  obtain ⟨k, hk⟩ := hpost
  have hat := Scanner.eq_atStart ht (by rw [Scanner.pending_eq, hcurrent, ← hk]; rfl : t.pending = c :: (k ++ post)) hc
  have hbefore : t.Before post := by
    rw [hat]
    exact ⟨by simp [Scanner.atStart], fun _ => ⟨nofun, nofun⟩⟩
  rw [Scanner.atStart_append hw] at h
  obtain ⟨u, hu⟩ := hx.replays h hbefore
  have hu' := (EStateM.Result.ok.inj (h.symm.trans (hu post))).2
  refine ⟨hw, t.resource, t.line, k, hat, fun other => ?_⟩
  have hother := Scanner.followedBy_eq_atStart (p := c :: k) (by simp) (hu'.symm.trans hat) other
  rw [Scanner.atStart_append hw, hu other, hother]
  rfl

/-- Reads the arguments of a method up to the closing parenthesis. -/
def argumentsInside (readInner : ReadInner) (n : Nat) : Scan (List Expr) := do
  nextNonBlank
  if (← peek) = some ')' then return []
  else
    let first ← primary readInner n true
    let others ← moreArguments readInner n
    if (← peek) ≠ some ')' then fail (.expected ')')
    return first :: others

theorem arguments_eq : arguments readInner (n + 1) = (do
    let es ← argumentsInside readInner n
    skip
    return es) := by
  rw [arguments, argumentsInside]
  simp only [bind_assoc]
  congr 1
  funext _
  congr 1
  funext c
  split
  · rfl
  · simp only [bind_assoc]
    congr 1
    funext first
    congr 1
    funext others
    congr 1
    funext c
    split <;> rfl

/-- The arguments end at their closing parenthesis. -/
theorem gives_argumentsInside (n : Nat) (s : Scanner) :
    Gives (argumentsInside readInner n) s fun _ t => t.current = some ')' := by
  refine .seq fun _ u _ => .seq (.peek (.ite (fun hc => .pure hc) fun _ => ?_))
  refine .seq fun _ v _ => .seq fun _ w _ => .seq (.peek (.ite (fun _ => .seq .fail) fun hc => .pure ?_))
  exact not_not.1 hc

theorem argumentsInside_goes (n : Nat) (s : Scanner) : Goes (argumentsInside readInner n) s fun _ _ => True := by
  have hcourse : Course readInner n (8 * s.left + 8) (argumentsInside readInner n) s fun _ _ => True := by
    refine .seq (.nextNonBlank fun u hu => .seq (.peek (.ite (fun _ => .pure trivial) fun _ => ?_)))
    refine .seq (.primary (by omega) fun _ v hv => .seq (.moreArguments (by omega) fun _ w hw => ?_))
    exact .seq (.peek (.ite (fun _ => .seq .fail) fun _ => .pure trivial))
  exact hcourse.goes fun c t hr => c.goes n t hr

/-- Reads a key up to its closing bracket, from the opening one on. -/
def keyInside (readInner : ReadInner) (n : Nat) : Scan Expr := do
  skip
  primary readInner n false

theorem keyInside_goes (n : Nat) (s : Scanner) : Goes (keyInside readInner n) s fun _ _ => True := by
  have hcourse : Course readInner n (8 * s.left + 8) (keyInside readInner n) s fun _ _ => True :=
    .seq (.skip (.primary (by rw [Scanner.left_advance]; omega) fun _ _ _ => trivial))
  exact hcourse.goes fun c t hr => c.goes n t hr

theorem Local.argumentsInside : Local (argumentsInside readInner n) := by
  refine nextNonBlank.bind fun _ => peek.bind fun _ => ite pure ?_
  refine ((Call.primary true).isLocal n).bind fun _ => (Call.moreArguments.isLocal n).bind fun _ => ?_
  exact peek.bind fun _ => optional fail pure

theorem Local.keyInside : Local (keyInside readInner n) :=
  skip.bind fun _ => (Call.primary false).isLocal n

/-- Arguments that end before a place are the same ones whatever stands there. -/
theorem arguments_replays {es : List Expr}
    (h : arguments readInner n (Scanner.atStart resource (w ++ post) line) = .ok es t) (hpost : post <:+ t.pending) :
    w ≠ [] ∧ ∃ resource' line' k, t = Scanner.atStart resource' (k ++ post) line' ∧ ∀ other,
      arguments readInner n (Scanner.atStart resource (w ++ other) line) =
        .ok es (Scanner.atStart resource' (k ++ other) line') := by
  cases n with
  | zero => cases h
  | succ n =>
    rw [arguments_eq] at h ⊢
    obtain ⟨es', u, hinside, h⟩ := bind_eq_ok.1 h
    obtain ⟨_, _, hskip, h⟩ := bind_eq_ok.1 h
    cases hskip
    cases h
    obtain ⟨hw, resource', line', k, rfl, hreads⟩ := Local.argumentsInside.replays_closing (argumentsInside_goes n _)
      hinside (gives_argumentsInside n _ _ _ hinside) ⟨by decide, by decide⟩ hpost
    refine ⟨hw, resource', line', k, Scanner.advance_atStart (by decide), fun other => ?_⟩
    refine bind_eq_ok.2 ⟨_, _, hreads other, bind_eq_ok.2 ⟨(), _, rfl, ?_⟩⟩
    rw [Scanner.advance_atStart (by decide)]
    rfl

/-! ### Chains of suffixes -/

section Forward

variable {m : String} {k : List Char} {ss : List Suffix}

theorem suffixes_named (hm : IsName m) (hk : ∀ d ∈ k.head?, isNameChar d = false) :
    suffixes readInner (n + 1) (Scanner.atStart resource ('.' :: (m.toList ++ k)) line) = (do
      let s ← if (← peek) = some '(' then (Suffix.method m ·) <$> arguments readInner n else pure (.member m)
      return s :: (← suffixes readInner n)) (Scanner.atStart resource k line) := by
  have hletter : sees isLetter (Scanner.atStart resource (m.toList ++ k) line) =
      .ok true (Scanner.atStart resource (m.toList ++ k) line) := by
    obtain ⟨c, cs, hcs, hc, -⟩ := hm
    rw [hcs]
    exact congrArg (EStateM.Result.ok · _) hc
  rw [suffixes]
  refine (bind_ok (x := peek) (b := some '.') rfl).trans ?_
  refine (bind_ok (skip_atStart (by decide))).trans ?_
  refine (bind_ok hletter).trans ?_
  exact bind_ok (name_atStart_eq_ok.2 ⟨k, rfl, hm, hk, rfl⟩)

theorem suffixes_member (hm : IsName m) (hk : ∀ d ∈ k.head?, isNameChar d = false) (hopen : k.head? ≠ some '(')
    (h : suffixes readInner n (Scanner.atStart resource k line) = .ok ss t) :
    suffixes readInner (n + 1) (Scanner.atStart resource ('.' :: (m.toList ++ k)) line) =
      .ok (.member m :: ss) t := by
  rw [suffixes_named hm hk]
  refine (bind_ok (peek_eq _)).trans ?_
  rw [Scanner.pending_atStart, if_neg hopen]
  exact bind_eq_ok.2 ⟨_, _, rfl, bind_eq_ok.2 ⟨ss, t, h, rfl⟩⟩

theorem suffixes_method {es : List Expr} (hm : IsName m) (hopen : k.head? = some '(')
    (hargs : arguments readInner n (Scanner.atStart resource k line) = .ok es s)
    (h : suffixes readInner n s = .ok ss t) :
    suffixes readInner (n + 1) (Scanner.atStart resource ('.' :: (m.toList ++ k)) line) =
      .ok (.method m es :: ss) t := by
  have hk : ∀ d ∈ k.head?, isNameChar d = false := by
    rw [hopen]
    rintro _ ⟨⟩
    decide
  have hmethod : ((Suffix.method m ·) <$> arguments readInner n : Scan Suffix) (Scanner.atStart resource k line) =
      .ok (.method m es) s := bind_eq_ok.2 ⟨es, s, hargs, rfl⟩
  rw [suffixes_named hm hk]
  refine (bind_ok (peek_eq _)).trans ?_
  rw [Scanner.pending_atStart, if_pos hopen]
  exact bind_eq_ok.2 ⟨_, _, hmethod, bind_eq_ok.2 ⟨ss, t, h, rfl⟩⟩

theorem suffixes_index {key : Expr} {u : Scanner} (hs : s.current = some '[')
    (hkey : keyInside readInner n s = .ok key u) (hclose : u.current = some ']')
    (h : suffixes readInner n u.advance = .ok ss t) : suffixes readInner (n + 1) s = .ok (.index key :: ss) t := by
  have hpeek {s : Scanner} {c : Char} (h : s.current = some c) : peek s = .ok (some c) s :=
    congrArg (EStateM.Result.ok · s) h
  obtain ⟨_, v, hskip, hprimary⟩ := bind_eq_ok.1 hkey
  rw [suffixes]
  refine bind_eq_ok.2 ⟨_, s, hpeek hs, bind_eq_ok.2 ⟨_, v, hskip, bind_eq_ok.2 ⟨key, u, hprimary, ?_⟩⟩⟩
  exact bind_eq_ok.2 ⟨_, u, hpeek hclose, bind_eq_ok.2 ⟨_, _, skip_eq u, bind_eq_ok.2 ⟨ss, t, h, rfl⟩⟩⟩

/-- At a brace there is no suffix. -/
theorem suffixes_brace (cs : List Char) : suffixes readInner (n + 1) (Scanner.atStart resource ('\x7d' :: cs) line) =
    .ok [] (Scanner.atStart resource ('\x7d' :: cs) line) :=
  rfl

/-- The characters before a place do not change their beginning by a brace at the place. -/
theorem head?_braced {k : List Char} {P : Char → Prop} (hbrace : P '\x7d') (h : ∀ c ∈ (k ++ post).head?, P c) :
    ∀ c ∈ (k ++ '\x7d' :: post).head?, P c := by
  cases k with
  | nil =>
    rintro _ ⟨⟩
    exact hbrace
  | cons c k => exact h

/-- With a brace behind them the characters `w` begin the chain of suffixes that otherwise ends at `t`, where `post`
is left. -/
def BracedChain (readInner : ReadInner) (n : Nat) (resource : Option String) (line : Nat) (w post : List Char)
    (ss : List Suffix) (t : Scanner) : Prop :=
  ∃ resource' line', suffixes readInner n (Scanner.atStart resource (w ++ '\x7d' :: post) line) =
      .ok ss (Scanner.atStart resource' ('\x7d' :: post) line') ∧
    (Scanner.atStart resource' post line').LookedPast t

namespace BracedChain

theorem nil (h : (Scanner.atStart resource post line).LookedPast t) :
    BracedChain readInner (n + 1) resource line [] post [] t :=
  ⟨resource, line, suffixes_brace post, h⟩

theorem member (hm : IsName m) (hk : ∀ d ∈ (k ++ post).head?, isNameChar d = false)
    (hopen : ∀ d ∈ (k ++ post).head?, d ≠ '(') (h : BracedChain readInner n resource line k post ss t) :
    BracedChain readInner (n + 1) resource line ('.' :: (m.toList ++ k)) post (.member m :: ss) t := by
  obtain ⟨resource', line', hrun, hlooked⟩ := h
  refine ⟨resource', line', ?_, hlooked⟩
  rw [List.cons_append, List.append_assoc]
  exact suffixes_member hm (head?_braced (by decide) hk)
    (fun heq => head?_braced (P := (· ≠ '(')) (by decide) hopen _ heq rfl) hrun

theorem method {es : List Expr} {k' : List Char} {resource' : Option String} {line' : Nat} (hm : IsName m)
    (hk : k ≠ []) (hopen : (k ++ post).head? = some '(')
    (hargs : arguments readInner n (Scanner.atStart resource (k ++ '\x7d' :: post) line) =
      .ok es (Scanner.atStart resource' (k' ++ '\x7d' :: post) line'))
    (h : BracedChain readInner n resource' line' k' post ss t) :
    BracedChain readInner (n + 1) resource line ('.' :: (m.toList ++ k)) post (.method m es :: ss) t := by
  obtain ⟨resource'', line'', hrun, hlooked⟩ := h
  refine ⟨resource'', line'', ?_, hlooked⟩
  rw [List.cons_append, List.append_assoc]
  refine suffixes_method hm ?_ hargs hrun
  rwa [List.head?_append_of_ne_nil _ hk] at hopen ⊢

theorem index {key : Expr} {resource' : Option String} {line' : Nat} (hw : w ≠ [])
    (hbracket : (w ++ post).head? = some '[')
    (hkey : keyInside readInner n (Scanner.atStart resource (w ++ '\x7d' :: post) line) =
      .ok key (Scanner.atStart resource' (']' :: (k ++ '\x7d' :: post)) line'))
    (h : BracedChain readInner n resource' line' k post ss t) :
    BracedChain readInner (n + 1) resource line w post (.index key :: ss) t := by
  obtain ⟨resource'', line'', hrun, hlooked⟩ := h
  refine ⟨resource'', line'', suffixes_index ?_ hkey rfl ?_, hlooked⟩
  · rw [List.head?_append_of_ne_nil _ hw] at hbracket
    exact (List.head?_append_of_ne_nil _ hw).trans hbracket
  · rwa [Scanner.advance_atStart (by decide)]

end BracedChain

end Forward

/-- A chain that ends at a place, with a brace there, is the same chain. -/
theorem gives_suffixes_braced (n : Nat) (w : List Char) (resource : Option String) (line : Nat) :
    Gives (suffixes readInner n) (Scanner.atStart resource (w ++ post) line) fun ss t =>
      t.pending = post → BracedChain readInner n resource line w post ss t := by
  induction n generalizing w resource line with
  | zero => nofun
  | succ n ih =>
    have hcurrent : (Scanner.atStart resource (w ++ post) line).current = (w ++ post).head? := rfl
    have hempty {t : Scanner} (hsame : t.pending = w ++ post) (hpending : t.pending = post) : w = [] :=
      List.append_left_eq_self.1 (hsame.symm.trans hpending)
    -- what a chain leaves is an end of what it begins at
    have hrest {s t : Scanner} {ss : List Suffix} (hss : suffixes readInner n s = .ok ss t)
        (hpending : t.pending = post) : post <:+ s.pending :=
      hpending ▸ (Call.suffixes.goes n s trivial).pending_suffix hss
    refine .seq (.peek ?_)
    split
    · rename_i hdot
      obtain ⟨cs, hcs⟩ := List.head?_eq_some_iff.1 (hcurrent ▸ hdot)
      rw [hcs]
      refine .seq (.skip (.seq (.sees (.ite (fun _ => ?_) fun _ => .seq (.putBack (.pure fun hpending => ?_))))))
      · rw [Scanner.advance_atStart (by decide)]
        refine .seq fun m t₁ hname => ?_
        obtain ⟨k, rfl, hm, hk, rfl⟩ := name_atStart_eq_ok.1 hname
        have hword {k' : List Char} (hk' : k = k' ++ post) : w = '.' :: (m.toList ++ k') := by
          subst hk'
          rw [← List.append_assoc, ← List.cons_append] at hcs
          exact List.append_cancel_right hcs
        refine .seq (.peek (.ite (fun hopen => .seq (.map fun es u hargs => ?_)) fun hopen => .seq (.pure ?_)))
        · refine .seq fun ss t hss => .pure fun hpending => ?_
          have hopen : k.head? = some '(' := hopen
          have hready : 0 < (Scanner.atStart resource k line).left := by
            rw [Scanner.left, Scanner.pending_atStart]
            exact List.length_pos_iff.2 (by rintro rfl; cases hopen)
          obtain ⟨k', rfl⟩ := (hrest hss hpending).trans <|
            Scanner.pending_atStart resource k line ▸ (Call.arguments.goes n _ hready).pending_suffix hargs
          obtain ⟨hk', resource', line', k'', rfl, hreads⟩ := arguments_replays hargs (hrest hss hpending)
          rw [hword rfl]
          exact (ih k'' resource' line' ss t hss hpending).method hm hk' hopen (hreads _)
        · refine .seq fun ss t hss => .pure fun hpending => ?_
          obtain ⟨k', hk'⟩ := hrest hss hpending
          rw [Scanner.pending_atStart] at hk'
          subst hk'
          rw [hword rfl]
          exact (ih k' resource line ss t hss hpending).member hm hk fun c hc heq => hopen (heq ▸ hc)
      · rw [← hcs] at hpending ⊢
        rw [Scanner.Tidy.pending_period hdot] at hpending
        obtain rfl := hempty (Scanner.pending_atStart _ _ _) hpending
        exact .nil (.inr ⟨hdot, rfl⟩)
    · rename_i hbracket
      refine .seq fun _ v hskip => .seq fun key u hkey => .seq (.peek (.ite (fun _ => .seq .fail) fun hclose => ?_))
      refine .seq (.skip (.seq fun ss t hss => .pure fun hpending => ?_))
      have hclose : u.current = some ']' := not_not.1 hclose
      have hinside : keyInside readInner n (Scanner.atStart resource (w ++ post) line) = .ok key u :=
        bind_eq_ok.2 ⟨_, v, hskip, hkey⟩
      obtain ⟨hw, resource', line', k, rfl, hreads⟩ := Local.keyInside.replays_closing (keyInside_goes n _) hinside
        hclose ⟨by decide, by decide⟩ (hrest hss hpending)
      rw [Scanner.advance_atStart (by decide)] at hss
      exact (ih k resource' line' ss t hss hpending).index hw hbracket (hreads _)
    · refine .pure fun hpending => ?_
      obtain rfl := hempty (Scanner.pending_atStart _ _ _) hpending
      exact .nil (.inl rfl)

/-! ### References -/

/-- A reference that ends at a place, with a brace there, is the same one but for its place: where nothing follows
its name, the line is counted with the next character. -/
theorem gives_reference_braced (n : Nat) (quiet : Bool) (w : List Char) :
    Gives (reference readInner n quiet) (Scanner.atStart resource (w ++ post) line) fun e t => t.pending = post →
      ∃ e' resource' line', reference readInner n quiet (Scanner.atStart resource (w ++ '\x7d' :: post) line) =
          .ok e' (Scanner.atStart resource' ('\x7d' :: post) line') ∧
        LikeExpr false e e' ∧ (Scanner.atStart resource' post line').LookedPast t := by
  cases n with
  | zero => nofun
  | succ n =>
    refine .seq fun x t₁ hname => .seq (.here (.seq fun ss t hss => .pure fun hpending => ?_))
    obtain ⟨k, hcs, hx, hk, rfl⟩ := name_atStart_eq_ok.1 hname
    have hrest := (Call.suffixes.goes n _ trivial).pending_suffix hss
    rw [hpending, Scanner.pending_atStart] at hrest
    obtain ⟨k, rfl⟩ := hrest
    obtain rfl : w = x.toList ++ k := by
      rw [← List.append_assoc] at hcs
      exact List.append_cancel_right hcs
    obtain ⟨resource', line', hrun, hlooked⟩ := gives_suffixes_braced n k resource line ss t hss hpending
    have hname' : name "Reference" (Scanner.atStart resource (x.toList ++ k ++ '\x7d' :: post) line) =
        .ok x (Scanner.atStart resource (k ++ '\x7d' :: post) line) :=
      name_atStart_eq_ok.2 ⟨_, List.append_assoc .., hx, head?_braced (by decide) hk, rfl⟩
    refine ⟨.reference (Scanner.atStart resource (k ++ '\x7d' :: post) line).place x quiet ss, resource', line', ?_,
      .reference (Place.like_any _ _) (.refl ss), hlooked⟩
    exact bind_eq_ok.2 ⟨x, _, hname', bind_eq_ok.2 ⟨_, _, rfl, bind_eq_ok.2 ⟨ss, _, hrun, rfl⟩⟩⟩

/-- What stands in text before the name of a reference. -/
def dollarMarks (quiet : Bool) : List Char :=
  if quiet then ['$', '!'] else ['$']

section Dollar

variable {quiet : Bool} {ref : List Char}

/-- Reads what a dollar sign in text begins, of which the marks before a brace or a name have been read. -/
def dollarEnd (readInner : ReadInner) (n : Nat) (quiet : Bool) : Scan Node := do
  if (← peek) = some '\x7b' then
    skip
    if ← sees isLetter then
      let e ← reference readInner n quiet
      expect '\x7d'
      return .output e
    else plainText (dollarMarks quiet ++ ['\x7b'])
  else if ← sees isLetter then
    return .output (← reference readInner n quiet)
  else plainText (dollarMarks quiet)

theorem dollar_marks (hbang : ref.head? ≠ some '!') :
    dollar readInner n (Scanner.atStart resource (dollarMarks quiet ++ ref) line) =
      dollarEnd readInner n quiet (Scanner.atStart resource ref line) := by
  cases quiet with
  | true =>
    refine (bind_ok (skip_atStart (by decide))).trans <| (bind_ok (x := peek) (b := some '!') rfl).trans ?_
    rw [if_pos rfl]
    exact bind_ok (skip_atStart (by decide))
  | false =>
    refine (bind_ok (skip_atStart (by decide))).trans <| (bind_ok (x := peek) (b := ref.head?) rfl).trans ?_
    simp only [if_neg hbang, decide_eq_false hbang]
    rfl

theorem letter_append (hletter : ref.head?.any isLetter = true) (k : List Char) :
    (ref ++ k).head?.any isLetter = true := by
  cases ref with
  | nil => cases hletter
  | cons c cs => exact hletter

/-- A dollar sign and a letter begin a reference. -/
theorem dollar_alone (hletter : ref.head?.any isLetter = true) :
    dollar readInner n (Scanner.atStart resource (dollarMarks quiet ++ ref) line) =
      (do return Node.output (← reference readInner n quiet)) (Scanner.atStart resource ref line) := by
  have hne {d : Char} (hd : isLetter d = false) : ref.head? ≠ some d := by
    intro heq
    rw [heq] at hletter
    exact absurd hletter (by simp [hd])
  rw [dollar_marks (hne rfl)]
  refine (bind_ok (x := peek) (b := ref.head?) rfl).trans ?_
  rw [if_neg (hne rfl)]
  exact (bind_ok (x := sees isLetter) (b := true) (congrArg (EStateM.Result.ok · _) hletter)).trans rfl

/-- So do a dollar sign, a brace and a letter. -/
theorem dollar_braced (hletter : ref.head?.any isLetter = true) :
    dollar readInner n (Scanner.atStart resource (dollarMarks quiet ++ '\x7b' :: ref) line) =
      (do
        let e ← reference readInner n quiet
        expect '\x7d'
        return Node.output e) (Scanner.atStart resource ref line) := by
  rw [dollar_marks (by simp)]
  refine (bind_ok (x := peek) (b := some '\x7b') rfl).trans ?_
  rw [if_pos rfl]
  refine (bind_ok (skip_atStart (by decide))).trans ?_
  exact bind_ok (x := sees isLetter) (b := true) (congrArg (EStateM.Result.ok · _) hletter)

end Dollar

/-- What a dollar sign begins is the same with braces around it, but for its place, if it ends where the closing
brace stands. -/
theorem gives_dollar_braced {quiet : Bool} {ref : List Char} (n : Nat) (hletter : ref.head?.any isLetter = true) :
    Gives (dollar readInner n) (Scanner.atStart resource (dollarMarks quiet ++ (ref ++ post)) line) fun x t =>
      t.pending = post → ∃ x' resource' line',
        dollar readInner n (Scanner.atStart resource (dollarMarks quiet ++ '\x7b' :: (ref ++ '\x7d' :: post)) line) =
          .ok x' (Scanner.atStart resource' post line') ∧
        LikeNode false x x' ∧ (Scanner.atStart resource' post line').LookedPast t := by
  intro x t h hpending
  rw [dollar_alone (letter_append hletter post)] at h
  obtain ⟨e, _, hreference, hpure⟩ := bind_eq_ok.1 h
  cases hpure
  obtain ⟨e', resource', line', hrun, he, hlooked⟩ := gives_reference_braced n quiet ref e t hreference hpending
  refine ⟨.output e', resource', line', ?_, .output he, hlooked⟩
  rw [dollar_braced (letter_append hletter _)]
  exact bind_eq_ok.2 ⟨e', _, hrun, bind_eq_ok.2 ⟨(), _, expect_atStart (by decide) (by decide), rfl⟩⟩

end Scan

end Stencil
