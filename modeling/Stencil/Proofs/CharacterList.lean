import Stencil.Proofs.ComesTo

/-!
# The scanner as a list of characters

What a scanner holds is a list: the current character, a character in the slot, and the unread end of the
text. `Stands` is the invariant that each operation keeps: the end of the text, as the current character or
in the slot, means that nothing is left to read, and the line counts the line feeds that were taken out of
the text. Under it every operation is the one on lists that its name says, from one step to all in a row,
`Stands.step` and `Stands.run`, and an error quotes the list.
-/

namespace Stencil

open Stencil.Text

namespace Scanner

/-- What a scanner holds: the current character, the one in the slot, and the unread text. -/
def sequence (s : Scanner) : List Char :=
  s.current.toList ++ (s.slot.getD none).toList ++ s.rest

/-- Whether a scanner stands in a text: what it has not read is the end of it, and its line is one more than
the line feeds before that end. -/
structure Stands (text : List Char) (s : Scanner) : Prop where
  read : ∃ taken, text = taken ++ s.rest ∧ s.line = 1 + newlines taken
  atEnd : s.current = none → s.slot = none ∧ s.rest = []
  endInSlot : s.slot = some none → s.rest = []

/-- The text that an error quotes of the characters to be read. -/
def quoted (cs : List Char) : String :=
  if cs = [] then "EOF"
  else String.ofList (cs.take quotedLength) ++ if quotedLength < cs.length then "..." else ""

/-- The current characters on the way of a scanner, as long as there is one, a number of them at most. -/
def onTheWay : Nat → Scanner → List Char
  | 0, _ => []
  | n + 1, s =>
    match s.current with
    | none => []
    | some c => c :: onTheWay n s.advance

variable {text : List Char} {s : Scanner}

theorem following_eq (s : Scanner) : s.following = quoted s.pending := by
  rw [following, quoted]
  cases s.pending with
  | nil => rfl
  | cons c cs => simp

/-- Going on one character at a time gives the characters in order. -/
theorem onTheWay_eq (n : Nat) (s : Scanner) : s.onTheWay n = s.pending.take n := by
  induction n generalizing s with
  | zero => simp [onTheWay]
  | succ n ih =>
    rw [onTheWay, current_eq]
    cases h : s.pending with
    | nil => rfl
    | cons c cs => simp [ih, pending_advance, h]

/-- Reading a run of characters takes the current one and goes on with the next, as long as they are of
the class. -/
theorem takeWhile_loop (p : Char → Bool) (s : Scanner) :
    s.takeWhile p =
      match s.current with
      | none => ([], s)
      | some c =>
        if p c then (c :: (s.advance.takeWhile p).1, (s.advance.takeWhile p).2) else ([], s) := by
  rw [current_eq]
  cases h : s.pending with
  | nil => simp [takeWhile, h, advanceBy]
  | cons c cs => by_cases hc : p c = true <;> simp [takeWhile, h, hc, pending_advance, advanceBy]

/-- Going past the blanks goes on as long as the current character is one. -/
theorem skipBlanks_loop (s : Scanner) :
    s.skipBlanks = if s.current.any isBlank then s.advance.skipBlanks else s := by
  rw [skipBlanks, takeWhile_loop]
  cases s.current with
  | none => rfl
  | some c => by_cases hc : isBlank c = true <;> simp [hc, skipBlanks]

namespace Stands

theorem pending_eq (h : Stands text s) : s.pending = s.sequence := by
  have hend := h.atEnd
  have hslot := h.endInSlot
  obtain ⟨resource, current, slot, rest, line⟩ := s
  rcases current with _ | c
  · obtain ⟨rfl, rfl⟩ := hend rfl
    rfl
  · rcases slot with _ | _ | d
    · rfl
    · obtain rfl := hslot rfl
      rfl
    · rfl

theorem take (h : ∃ taken, text = taken ++ s.rest ∧ s.line = 1 + newlines taken) (hslot : s.slot = none) :
    Stands text s.take := by
  obtain ⟨resource, current, slot, rest, line⟩ := s
  obtain ⟨taken, htext, hline⟩ := h
  subst hslot
  cases rest with
  | nil => exact ⟨⟨taken, htext, hline⟩, fun _ => ⟨rfl, rfl⟩, nofun⟩
  | cons c cs =>
    refine ⟨⟨taken ++ [c], ?_, ?_⟩, nofun, nofun⟩
    · rw [htext]
      exact List.append_cons taken c cs
    simp only at hline
    simp only [Scanner.take, newlines, List.count_append, List.count_singleton, beq_iff_eq, hline]
    split <;> rfl

theorem ofText (text : String) (resource : Option String) :
    Stands (unifyNewlines text.toList) (ofText text resource) :=
  take ⟨[], rfl, rfl⟩ rfl

theorem advance (h : Stands text s) : Stands text s.advance := by
  have hread := h.read
  have hslot := h.endInSlot
  obtain ⟨resource, current, slot, rest, line⟩ := s
  rcases current with _ | c
  · exact h
  · rcases slot with _ | d
    · exact take hread rfl
    · refine ⟨hread, fun hd => ⟨rfl, hslot ?_⟩, nofun⟩
      exact congrArg some hd

theorem advanceBy (h : Stands text s) (n : Nat) : Stands text (s.advanceBy n) := by
  induction n generalizing s with
  | zero => exact h
  | succ n ih => exact ih h.advance

theorem skipBlanks (h : Stands text s) : Stands text s.skipBlanks :=
  h.advanceBy _

theorem putBack (h : Stands text s) (c : Char) : Stands text (s.putBack c) := by
  refine ⟨h.read, nofun, fun hcurrent => (h.atEnd ?_).2⟩
  exact Option.some.inj hcurrent

end Stands

/-- What can be done with a scanner. -/
inductive Action where
  | advance
  | skipBlanks
  | nextNonBlank
  | skipNewline
  | expect (c : Char)
  | name (what : String)
  | putBack (c : Char)
  deriving DecidableEq, Repr

namespace Action

/-- The action as a step of reading, with the name that it reads. -/
def step : Action → Scan (Option String)
  | advance => (fun _ => none) <$> Scan.skip
  | skipBlanks => (fun _ => none) <$> Scan.skipBlanks
  | nextNonBlank => (fun _ => none) <$> Scan.nextNonBlank
  | skipNewline => (fun _ => none) <$> Scan.skipNewline
  | expect c => (fun _ => none) <$> Scan.expect c
  | name what => some <$> Scan.name what
  | putBack c => (fun _ => none) <$> Scan.putBack c

/-- How the action ends, and the scanner it leaves. -/
def perform (a : Action) (s : Scanner) : Except ParseFailure (Option String) × Scanner :=
  match a.step s with
  | .ok r t => (.ok r, t)
  | .error e t => (.error e, t)

/-- The action on a list of characters: the name that it reads or the cause for which it fails, and the
characters there. -/
def onList (cs : List Char) : Action → Except ParseCause (Option String) × List Char
  | advance => (.ok none, cs.tail)
  | skipBlanks => (.ok none, cs.dropWhile isBlank)
  | nextNonBlank => (.ok none, cs.tail.dropWhile isBlank)
  | skipNewline => (.ok none, if cs.head? = some '\n' then cs.tail else cs)
  | expect c =>
    let found := cs.dropWhile isBlank
    if found.head? = some c then (.ok none, found.tail) else (.error (.expected c), found)
  | name what =>
    if cs.head?.any isLetter then
      (.ok (some (String.ofList (cs.takeWhile isNameChar))), cs.dropWhile isNameChar)
    else (.error (.nameStart what), cs)
  | putBack c => (.ok none, c :: cs)

/-- The characters that an action leaves. A failure takes those that its error quotes. -/
def left (cs : List Char) (a : Action) : List Char :=
  match a.onList cs with
  | (.ok _, rest) => rest
  | (.error _, rest) => rest.drop quotedLength

/-- Whether an action may be done: a character is put back only into an empty slot. -/
def Allowed (s : Scanner) : Action → Prop
  | putBack _ => s.slot = none
  | _ => True

instance (s : Scanner) : (a : Action) → Decidable (a.Allowed s)
  | putBack _ => inferInstanceAs (Decidable (s.slot = none))
  | advance | skipBlanks | nextNonBlank | skipNewline | expect _ | name _ => isTrue trivial

variable {β : Type} {a : Action} {x : Scan β} {f : β → Option String} {t : Scanner}

theorem perform_of_ok {b : β} (ha : a.step = f <$> x) (hx : x s = .ok b t) :
    a.perform s = (.ok (f b), t) := by
  rw [perform, ha, show (f <$> x) s = EStateM.map f x s from rfl, EStateM.map, hx]

theorem perform_of_error {e : ParseFailure} (ha : a.step = f <$> x) (hx : x s = .error e t) :
    a.perform s = (.error e, t) := by
  rw [perform, ha, show (f <$> x) s = EStateM.map f x s from rfl, EStateM.map, hx]

end Action

/-- The scanner after actions in a row. -/
def afterActions (actions : List Action) (s : Scanner) : Scanner :=
  actions.foldl (fun t a => (a.perform t).2) s

/-- Whether actions may be done in a row. -/
def AllAllowed : List Action → Scanner → Prop
  | [], _ => True
  | a :: actions, s => a.Allowed s ∧ AllAllowed actions (a.perform s).2

instance decidableAllAllowed : (actions : List Action) → (s : Scanner) → Decidable (AllAllowed actions s)
  | [], _ => isTrue trivial
  | a :: actions, s =>
    have := decidableAllAllowed actions (a.perform s).2
    inferInstanceAs (Decidable (a.Allowed s ∧ AllAllowed actions (a.perform s).2))

/-- The error of a cause at a scanner, as the list tells it. -/
def listError (cause : ParseCause) (t : Scanner) : ParseFailure :=
  .error ⟨cause, ⟨t.resource, t.line⟩, some (quoted t.sequence)⟩

/-- Whether an action does with a scanner what it does with the list: it ends as there, with the characters
left that are left there. A failure tells the line of the scanner and quotes the list where it stands, and
takes what it quotes. -/
def Follows (text : List Char) (a : Action) (s : Scanner) : Prop :=
  match a.onList s.sequence with
  | (.ok r, rest) => ∃ t, a.perform s = (.ok r, t) ∧ Stands text t ∧ t.resource = s.resource ∧
      t.sequence = rest
  | (.error cause, rest) => ∃ t u, a.perform s = (.error (listError cause t), u) ∧
      Stands text t ∧ t.resource = s.resource ∧ t.sequence = rest ∧
      Stands text u ∧ u.resource = s.resource ∧ u.sequence = rest.drop quotedLength

theorem resource_advanceBy (n : Nat) (s : Scanner) : (s.advanceBy n).resource = s.resource := by
  induction n generalizing s with
  | zero => rfl
  | succ n ih => exact (ih s.advance).trans (resource_apply .advance s)

theorem resource_ofText (text : String) (resource : Option String) : (ofText text resource).resource = resource := by
  rw [ofText, take]
  split <;> rfl

namespace Stands

theorem sequence_advance (h : Stands text s) : s.advance.sequence = s.sequence.tail := by
  rw [← h.advance.pending_eq, pending_advance, h.pending_eq]

theorem sequence_advanceBy (h : Stands text s) (n : Nat) :
    (s.advanceBy n).sequence = s.sequence.drop n := by
  rw [← (h.advanceBy n).pending_eq, pending_advanceBy, h.pending_eq]

theorem sequence_skipBlanks (h : Stands text s) : s.skipBlanks.sequence = s.sequence.dropWhile isBlank := by
  rw [← h.skipBlanks.pending_eq, pending_skipBlanks, h.pending_eq]

theorem current_eq_head? (h : Stands text s) : s.current = s.sequence.head? := by
  rw [current_eq, h.pending_eq]

/-- A failure tells the line where it stands, quotes the list, and takes what it quotes. -/
theorem fail (h : Stands text s) (cause : ParseCause) {α : Type} :
    (Scan.fail cause : Scan α) s = .error (listError cause s) s.afterError ∧
      Stands text s.afterError ∧ s.afterError.resource = s.resource ∧
      s.afterError.sequence = s.sequence.drop quotedLength := by
  refine ⟨?_, h.advanceBy _, resource_advanceBy _ _, h.sequence_advanceBy _⟩
  rw [listError, ← h.pending_eq, ← following_eq]
  rfl

/-- Going past the blanks and a character. -/
theorem expect (h : Stands text s) (c : Char) : Follows text (.expect c) s := by
  have hblank := h.skipBlanks
  have hsequence := h.sequence_skipBlanks
  have hresource : s.skipBlanks.resource = s.resource := resource_advanceBy _ _
  have hrun : Scan.expect c s =
      (if s.skipBlanks.current = some c then Scan.skip else Scan.fail (.expected c)) s.skipBlanks := rfl
  rw [hblank.current_eq_head?, hsequence] at hrun
  by_cases hc : (s.sequence.dropWhile isBlank).head? = some c
  · rw [if_pos hc] at hrun
    simp only [Follows, Action.onList, if_pos hc]
    refine ⟨s.skipBlanks.advance, Action.perform_of_ok (f := fun _ => none) rfl hrun, hblank.advance, ?_, ?_⟩
    · rw [← hresource]
      exact resource_apply .advance s.skipBlanks
    · rw [hblank.sequence_advance, hsequence]
  · obtain ⟨hfail, hstands, hafter, hleft⟩ := hblank.fail (.expected c) (α := Unit)
    rw [if_neg hc, hfail] at hrun
    rw [hresource] at hafter
    rw [hsequence] at hleft
    simp only [Follows, Action.onList, if_neg hc]
    exact ⟨s.skipBlanks, s.skipBlanks.afterError, Action.perform_of_error rfl hrun, hblank, hresource,
      hsequence, hstands, hafter, hleft⟩

/-- Reading a name. -/
theorem name (h : Stands text s) (what : String) : Follows text (.name what) s := by
  have hrun : Scan.name what s =
      (if s.current.any isLetter then String.ofList <$> Scan.takeWhile isNameChar
        else Scan.fail (.nameStart what)) s := by
    simp only [Scan.name, map_eq_pure_bind]
    rfl
  rw [h.current_eq_head?] at hrun
  by_cases hc : s.sequence.head?.any isLetter = true
  · rw [if_pos hc] at hrun
    simp only [Follows, Action.onList, if_pos hc]
    have hafter : Stands text (s.takeWhile isNameChar).2 := h.advanceBy _
    rw [← h.pending_eq]
    refine ⟨_, Action.perform_of_ok rfl hrun, hafter, resource_advanceBy _ _, ?_⟩
    exact hafter.pending_eq.symm.trans (pending_takeWhile isNameChar s)
  · obtain ⟨hfail, hstands, hafter, hleft⟩ := h.fail (.nameStart what) (α := String)
    rw [if_neg hc, hfail] at hrun
    simp only [Follows, Action.onList, if_neg hc]
    exact ⟨s, s.afterError, Action.perform_of_error rfl hrun, h, rfl, rfl, hstands, hafter, hleft⟩

/-- An action that may be done does with the scanner what it does with the list. -/
theorem step (h : Stands text s) {a : Action} (ha : a.Allowed s) : Follows text a s := by
  cases a with
  | advance => exact ⟨s.advance, rfl, h.advance, resource_apply .advance s, h.sequence_advance⟩
  | skipBlanks => exact ⟨s.skipBlanks, rfl, h.skipBlanks, resource_advanceBy _ _, h.sequence_skipBlanks⟩
  | nextNonBlank =>
    refine ⟨s.advance.skipBlanks, rfl, h.advance.skipBlanks, ?_, ?_⟩
    · exact (resource_advanceBy _ _).trans (resource_apply .advance s)
    · rw [h.advance.sequence_skipBlanks, h.sequence_advance]
  | skipNewline =>
    have hrun : s.skipNewline = if s.sequence.head? = some '\n' then s.advance else s := by
      rw [skipNewline, h.current_eq_head?]
    refine ⟨s.skipNewline, rfl, ?_⟩
    by_cases hc : s.sequence.head? = some '\n'
    · rw [hrun, if_pos hc, if_pos hc]
      exact ⟨h.advance, resource_apply .advance s, h.sequence_advance⟩
    · rw [hrun, if_neg hc, if_neg hc]
      exact ⟨h, rfl, rfl⟩
  | expect c => exact h.expect c
  | name what => exact h.name what
  | putBack c =>
    refine ⟨s.putBack c, rfl, h.putBack c, rfl, ?_⟩
    rw [← (h.putBack c).pending_eq, pending_putBack c s ha, h.pending_eq]

/-- An action keeps a scanner in its text, and leaves the characters that it leaves on the list. -/
theorem perform (h : Stands text s) {a : Action} (ha : a.Allowed s) :
    Stands text (a.perform s).2 ∧ (a.perform s).2.resource = s.resource ∧
      (a.perform s).2.sequence = a.left s.sequence := by
  have hstep := h.step ha
  rw [Follows] at hstep
  rw [Action.left]
  split at hstep
  · obtain ⟨t, hrun, hstands, hresource, hsequence⟩ := hstep
    rw [hrun]
    exact ⟨hstands, hresource, hsequence⟩
  · obtain ⟨t, u, hrun, -, -, -, hstands, hresource, hsequence⟩ := hstep
    rw [hrun]
    exact ⟨hstands, hresource, hsequence⟩

/-- Actions in a row leave what they leave on the list. -/
theorem run (h : Stands text s) {actions : List Action} (hallowed : AllAllowed actions s) :
    Stands text (afterActions actions s) ∧ (afterActions actions s).resource = s.resource ∧
      (afterActions actions s).sequence = actions.foldl Action.left s.sequence := by
  induction actions generalizing s with
  | nil => exact ⟨h, rfl, rfl⟩
  | cons a actions ih =>
    obtain ⟨ha, hrest⟩ := hallowed
    obtain ⟨hstands, hresource, hsequence⟩ := h.perform ha
    obtain ⟨hstands', hresource', hsequence'⟩ := ih hstands hrest
    refine ⟨hstands', hresource'.trans hresource, ?_⟩
    rw [List.foldl_cons, ← hsequence]
    exact hsequence'

end Stands

/-- A scanner is the list of characters that it holds, whatever is done with it, also at the end of the text
and past it: what was done so far left the characters that it leaves of the text as a list, the line counts
the line feeds that were taken from the text, and each further action does what it does with the list. An
error tells the line and quotes the first characters of the list, which are the current characters on the
way on, and takes them. -/
theorem scanner_is_list (text : String) (resource : Option String) {actions : List Action}
    (h : AllAllowed actions (ofText text resource)) :
    let source := unifyNewlines text.toList
    let s := afterActions actions (ofText text resource)
    s.sequence = actions.foldl Action.left source ∧
      (∃ taken, source = taken ++ s.rest ∧ s.line = 1 + newlines taken) ∧
      (∀ a : Action, a.Allowed s → Follows source a s) ∧
      ∀ cause : ParseCause,
        (Scan.fail cause : Scan Unit) s =
            .error (.error ⟨cause, ⟨resource, s.line⟩, some (quoted s.sequence)⟩) s.afterError ∧
          s.onTheWay quotedLength = s.sequence.take quotedLength ∧
          s.afterError.sequence = s.sequence.drop quotedLength := by
  intro source s
  have hbegin : (ofText text resource).sequence = source := by
    rw [← (Stands.ofText text resource).pending_eq, pending_ofText]
  obtain ⟨hstands, hsame, hsequence⟩ := (Stands.ofText text resource).run h
  rw [hbegin] at hsequence
  refine ⟨hsequence, hstands.read, fun a ha => hstands.step ha, fun cause => ?_⟩
  obtain ⟨hfail, -, -, hleft⟩ := hstands.fail cause (α := Unit)
  rw [listError, hsame, resource_ofText] at hfail
  refine ⟨hfail, ?_, hleft⟩
  rw [onTheWay_eq, hstands.pending_eq]

/-- A character put back at a line end, and one at the end of the text, which is all that is left there. -/
theorem scanner_is_list_putBack :
    let actions : List Action :=
      [.advance, .putBack 'x', .name "Name", .nextNonBlank, .advance, .putBack 'y']
    let s := afterActions actions (ofText "a\r\n b" none)
    AllAllowed actions (ofText "a\r\n b" none) ∧ s.sequence = ['y'] ∧
      (Action.expect 'z').Allowed s ∧ Follows ['a', '\n', ' ', 'b'] (.expect 'z') s := by
  intro actions s
  have h : AllAllowed actions (ofText "a\r\n b" none) := by decide
  obtain ⟨hsequence, -, hnext, -⟩ := scanner_is_list "a\r\n b" none h
  exact ⟨h, hsequence, trivial, hnext (.expect 'z') trivial⟩

end Scanner

end Stencil
