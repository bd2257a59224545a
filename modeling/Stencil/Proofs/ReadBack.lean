import Stencil.Proofs.ReadRow

/-!
# Reading expressions back

The text of an expression whose operators associate to the left is read as that expression again, unless a
negation stands in it as an element, bound, argument or index. One lemma for each form of expression, and
from them `Expr.readsBack`.
-/

namespace Stencil

open Stencil.Text Scan

/-- A run of characters of a class before a character of another class. -/
theorem span_append {c : Char → Bool} {l k : List Char} (hl : ∀ d ∈ l, c d = true)
    (hk : ∀ d ∈ k.head?, c d = false) :
    (l ++ k).takeWhile c = l ∧ (l ++ k).dropWhile c = k := by
  rw [List.takeWhile_append_of_pos hl, List.dropWhile_append_of_pos hl]
  match k with
  | [] => exact ⟨List.append_nil _, rfl⟩
  | d :: k =>
    have hd : c d = false := hk d rfl
    simp [hd]

theorem Delimits.head? {k : List Char} (h : Delimits k) : ∀ c ∈ k.head?, c ∈ [' ', ')', ',', ']', '.'] := by
  cases h with
  | endOfText => intro c hc; cases hc
  | char q h =>
    rintro _ ⟨⟩
    simp only [List.mem_cons, List.not_mem_nil] at h ⊢
    grind
  | dots q =>
    rintro _ ⟨⟩
    decide

/-- No name or number goes on after an expression. -/
theorem Delimits.not_isNameChar {k : List Char} (h : Delimits k) :
    ∀ c ∈ k.head?, isNameChar c = false := by
  intro c hc
  have := h.head? c hc
  simp only [List.mem_cons, List.not_mem_nil, or_false] at this
  rcases this with rfl | rfl | rfl | rfl | rfl <;> decide

section Words

variable {k : List Char} {E : ParseError → Prop}

/-- A name is read as itself. -/
theorem reads_name {what x : String} {Φ : String → List Char → Prop} (hx : IsName x)
    (hk : ∀ c ∈ k.head?, isNameChar c = false) (h : Φ x k) : Reads (name what) (x.toList ++ k) Φ E := by
  obtain ⟨c, cs, hcs, hc, hall⟩ := hx
  have hspan := span_append (c := isNameChar) (l := x.toList) (k := k) (by
    rw [hcs]
    exact List.forall_mem_cons.2 ⟨isNameChar_of_isLetter hc, hall⟩) hk
  rw [hcs, List.cons_append]
  refine .name hc ?_
  rw [← List.cons_append, ← hcs, hspan.1, hspan.2, String.ofList_toList]
  exact h

/-- The digits of a number are read as the number. -/
theorem reads_integer (negative : Bool) {m : Nat} {Φ : Expr → List Char → Prop}
    (hword : Number.isWord (if negative then -(m : Int) else m) = true)
    (hk : ∀ c ∈ k.head?, isNameChar c = false)
    (h : ∀ place, Φ (.literal place (.int (if negative then -(m : Int) else m))) k) :
    Reads (integer negative) (Nat.toDigits 10 m ++ k) Φ E := by
  have hdigits : ∀ c ∈ Nat.toDigits 10 m, isDigit c = true := fun c hc => isDigit_of_mem_toDigits hc
  have hspan := span_append hdigits (k := k) fun c hc => by
    have := hk c hc
    simp only [isNameChar, Bool.or_eq_false_iff] at this
    exact this.1.1.2
  have hnil : (Nat.toDigits 10 m).isEmpty = false := by
    rw [List.isEmpty_eq_false_iff]
    exact Nat.toDigits_ne_nil
  have hshort : (Nat.toDigits 10 m).length ≤ 10 := by
    rw [Nat.length_toDigits_le_iff (by decide) (by decide)]
    rw [Number.isWord_iff] at hword
    cases negative <;> simp at hword <;> omega
  have hlong : decide (Number.longestInteger < (Nat.toDigits 10 m).length) = false := by
    rw [decide_eq_false_iff_not, Number.longestInteger]
    omega
  rw [integer]
  refine .bind (.takeWhile ?_)
  rw [hspan.1, hspan.2]
  simp only [hnil, hlong, foldl_toDigits, hword, Bool.or_self, Bool.not_true, Bool.false_eq_true, if_false]
  exact .bind (.here fun place => .pure (h place))

end Words

variable {readInner : ReadInner}

/-- Whether the text of an expression, with fuel in proportion to its length, is read as that expression
where an element, a bound, an argument or an index is expected, unless it is a negation or holds one in such
a place: then it is refused. -/
def Expr.ReadsAsItem (readInner : ReadInner) (nullAllowed : Bool) (e : Expr) : Prop :=
  ∀ ⦃n : Nat⦄ ⦃p k : List Char⦄, Delimits k → 4 * e.source.toList.length + 3 ≤ n →
    p.dropWhile isBlank = e.source.toList ++ k →
    Reads (primary readInner n nullAllowed) p
      (fun r q => e.IsPlainItem ∧ r.bare = e.bare ∧ q = k.dropWhile isBlank) fun _ => ¬ e.IsPlainItem

namespace Expr

/-- The blanks after an expression are skipped. -/
theorem reads_then_skipBlanks {x : Scan Expr} {p : List Char} {Φ : Expr → List Char → Prop}
    {E : ParseError → Prop} (h : Reads x p (fun e q => Φ e (q.dropWhile isBlank)) E) :
    Reads (do let e ← x; skipBlanks; return e) p Φ E :=
  .bind (h.mono (fun _ _ he => .bind (.skipBlanks (.pure he))) fun _ he => he)

/-- A primary expression that begins with a digit is a number, and one that begins with a letter a word. -/
theorem reads_primary_of_isNameChar {nullAllowed : Bool} {n : Nat} {p l : List Char} {c : Char}
    {Φ : Expr → List Char → Prop} {E : ParseError → Prop} (hc : isDigit c = true ∨ isLetter c = true)
    (hp : p.dropWhile isBlank = c :: l)
    (h : Reads (if isDigit c then integer false else word readInner n nullAllowed) (c :: l)
      (fun e q => Φ e (q.dropWhile isBlank)) E) :
    Reads (primary readInner (n + 1) nullAllowed) p Φ E := by
  rw [primary]
  refine .bind (.skipBlanks (.bind (.peek ?_)))
  rw [hp, List.head?_cons]
  split
  case h_6 heq =>
    obtain rfl := Option.some.inj heq
    by_cases hd : isDigit c = true
    · rw [if_pos hd] at h ⊢
      exact reads_then_skipBlanks h
    · rw [if_neg hd] at h ⊢
      rw [if_pos (hc.resolve_left hd)]
      exact reads_then_skipBlanks h
  case h_7 heq => cases heq
  all_goals
    rename_i heq
    obtain rfl := Option.some.inj heq
    exact absurd hc (by decide)

theorem isPlainItem_literal (place : Place) (v : Literal) : (Expr.literal place v).IsPlainItem :=
  ⟨rfl, by simp [PlainItems, Everywhere, HasPlainItems, items]⟩

/-- A literal that is a word is read back. -/
theorem readsAsItem_word {nullAllowed : Bool} {place : Place} {v : Literal}
    (hv : (v.source = "true" ∧ v = .bool true) ∨ (v.source = "false" ∧ v = .bool false) ∨
      (v.source = "null" ∧ v = .null ∧ nullAllowed = true)) :
    ReadsAsItem readInner nullAllowed (.literal place v) := by
  intro n p k hk hn hp
  change p.dropWhile isBlank = v.source.toList ++ k at hp
  change 4 * v.source.toList.length + 3 ≤ n at hn
  have hw : IsName v.source := by
    obtain ⟨hw, -⟩ | ⟨hw, -⟩ | ⟨hw, -, -⟩ := hv <;> rw [hw] <;>
      exact isName_ofList rfl rfl
  obtain ⟨c, cs, hcs, hc, -⟩ := id hw
  obtain ⟨n, rfl⟩ : ∃ m, n = m + 2 := ⟨n - 2, by omega⟩
  refine reads_primary_of_isNameChar (.inr hc) (l := cs ++ k) (by rw [hp, hcs]; rfl) ?_
  rw [if_neg (by simp [isDigit_of_isLetter hc]), ← List.cons_append, ← hcs, word]
  refine .bind (reads_name hw hk.not_isNameChar ?_)
  obtain ⟨hw, rfl⟩ | ⟨hw, rfl⟩ | ⟨hw, rfl, rfl⟩ := hv <;> rw [hw] <;>
    exact .bind (.here fun place' => .pure ⟨isPlainItem_literal .., rfl, rfl⟩)

/-- A number is read back. -/
theorem readsAsItem_int {nullAllowed : Bool} {place : Place} {m : Int}
    (hm : Number.isWord m = true) : ReadsAsItem readInner nullAllowed (.literal place (.int m)) := by
  intro n p k hk hn hp
  obtain ⟨n, rfl⟩ : ∃ m, n = m + 1 := ⟨n - 1, by omega⟩
  have hdone (place' : Place) : (Expr.literal place (.int m)).IsPlainItem ∧
      (Expr.literal place' (.int m)).bare = (Expr.literal place (.int m)).bare ∧
      k.dropWhile isBlank = k.dropWhile isBlank := ⟨isPlainItem_literal .., rfl, rfl⟩
  cases m with
  | ofNat m =>
    have hsource : (Expr.literal place (.int (.ofNat m))).source.toList = Nat.toDigits 10 m :=
      Nat.toList_repr
    obtain ⟨c, cs, h⟩ := List.exists_cons_of_ne_nil (Nat.toDigits_ne_nil (n := m) (b := 10))
    have hc : isDigit c = true := isDigit_of_mem_toDigits (h ▸ List.mem_cons_self)
    refine reads_primary_of_isNameChar (.inl hc) (l := cs ++ k) (by rw [hp, hsource, h]; rfl) ?_
    rw [if_pos hc, ← List.cons_append, ← h]
    exact reads_integer false hm hk.not_isNameChar hdone
  | negSucc m =>
    have hsource : (Expr.literal place (.int (.negSucc m))).source.toList = '-' :: Nat.toDigits 10 (m + 1) :=
      String.toList_append.trans (congrArg _ Nat.toList_repr)
    rw [primary]
    refine .bind (.skipBlanks (.bind (.peek ?_)))
    rw [hp, hsource]
    exact .bind (.skip (reads_then_skipBlanks
      (reads_integer true hm hk.not_isNameChar hdone)))

/-- A text between single quotes is read back. -/
theorem readsAsItem_text {nullAllowed : Bool} {place : Place} {nodes : List Node}
    (h : (Expr.text place .single nodes).IsWritable) :
    ReadsAsItem readInner nullAllowed (.text place .single nodes) := by
  obtain ⟨place', s, rfl, hs⟩ := h
  intro n p k hk hn hp
  obtain ⟨n, rfl⟩ : ∃ m, n = m + 1 := ⟨n - 1, by omega⟩
  have hsource : (Expr.text place .single [.text place' s]).source.toList ++ k =
      '\'' :: (s.toList ++ '\'' :: k) := by
    simp [source, Quote.char, nodesSource, Node.source]
  have hplain : (Expr.text place .single [.text place' s]).IsPlainItem :=
    ⟨rfl, by simp [PlainItems, Everywhere, HasPlainItems, items]⟩
  have hspan := span_append (c := fun c => c != '\'' && c != '\\') (l := s.toList) (k := '\'' :: k)
    (fun c hc => by simp [(hs c hc).1, (hs c hc).2.1]) (by rintro _ ⟨⟩; decide)
  rw [primary]
  refine .bind (.skipBlanks (.bind (.peek ?_)))
  rw [hp, hsource]
  refine reads_then_skipBlanks (.bind (.skip (.bind (.bind (.takeWhile ?_)))))
  simp only [List.tail_cons, Quote.char]
  rw [hspan.1, hspan.2]
  refine .bind (.peek (.bind (.skip (.pure ?_))))
  refine .bind (.here fun place' => .pure ⟨hplain, ?_, rfl⟩)
  rw [String.ofList_toList]
  rfl

end Expr

/-- The text of expressions after a first one, each with the comma before it. -/
def restText (es : List Expr) : List Char :=
  es.flatMap fun e => ',' :: ' ' :: e.source.toList

theorem toList_intercalate_sources (e : Expr) (es : List Expr) :
    (", ".intercalate (sources (e :: es))).toList = e.source.toList ++ restText es := by
  induction es generalizing e with
  | nil => simp [sources, restText]
  | cons e' es ih =>
    have htail := ih e'
    rw [String.toList_intercalate] at htail ⊢
    rw [sources, sources, List.map_cons, List.map_cons, List.intercalate_cons_cons, ← List.map_cons,
      ← sources, htail]
    simp [restText]

section Rest

variable {close : Char} (hclose : close ∈ [')', ']'])

include hclose

theorem delimits_restText (es : List Expr) (k : List Char) : Delimits (restText es ++ close :: k) := by
  cases es with
  | nil => exact .char k (by simp at hclose ⊢; grind)
  | cons e es => exact .char _ (by decide)

theorem dropWhile_restText (es : List Expr) (k : List Char) :
    (restText es ++ close :: k).dropWhile isBlank = restText es ++ close :: k := by
  cases es with
  | nil =>
    simp only [List.mem_cons, List.not_mem_nil, or_false] at hclose
    rcases hclose with rfl | rfl <;> exact List.dropWhile_cons_of_neg (by decide)
  | cons e es => exact List.dropWhile_cons_of_neg (by decide)

end Rest

/-- The expressions after a first one are read back, by a function that reads them one by one up to a
closing character. -/
theorem reads_more {more : Nat → Scan (List Expr)} {step : Scan Unit} {nullAllowed : Bool}
    (hmore : ∀ n, more (n + 1) = do
      if (← peek) = some ',' then
        step
        let e ← primary readInner n nullAllowed
        return e :: (← more n)
      else return [])
    (hstep : ∀ {q : List Char} {Φ : Unit → List Char → Prop} {E : ParseError → Prop},
      (∀ q', q'.dropWhile isBlank = q.dropWhile isBlank → Φ () q') → Reads step (',' :: q) Φ E)
    {close : Char} (hclose : close ∈ [')', ']']) {es : List Expr}
    (h : ∀ e ∈ es, e.ReadsAsItem readInner nullAllowed) {n : Nat} {k : List Char}
    (hn : 4 * (restText es).length + 1 ≤ n) :
    Reads (more n) (restText es ++ close :: k)
      (fun r q => (∀ e ∈ es, e.IsPlainItem) ∧ r.map Expr.bare = es.map Expr.bare ∧ q = close :: k)
      fun _ => ∃ e ∈ es, ¬ e.IsPlainItem := by
  induction es generalizing n with
  | nil =>
    obtain ⟨n, rfl⟩ : ∃ m, n = m + 1 := ⟨n - 1, by omega⟩
    rw [hmore]
    refine .bind (.peek ?_)
    rw [if_neg]
    · refine .pure ⟨?_, rfl, rfl⟩
      rintro e ⟨⟩
    · rintro ⟨⟩
      revert hclose
      decide
  | cons e es ih =>
    obtain ⟨n, rfl⟩ : ∃ m, n = m + 1 := ⟨n - 1, by omega⟩
    have htext : restText (e :: es) ++ close :: k =
        ',' :: ' ' :: (e.source.toList ++ (restText es ++ close :: k)) := by
      simp [restText]
    have hlen : (restText (e :: es)).length = e.source.toList.length + 2 + (restText es).length := by
      simp [restText]
      omega
    rw [hmore, htext]
    refine .bind (.peek ?_)
    rw [List.head?_cons, if_pos rfl]
    refine .bind (hstep fun q hq => .bind ((h e List.mem_cons_self (delimits_restText hclose es k)
      (by omega) ?_).mono ?_ fun _ he => ⟨e, List.mem_cons_self, he⟩))
    · rw [hq, List.dropWhile_cons_of_pos (by decide), e.dropWhile_source]
    · rintro r _ ⟨hplain, hr, rfl⟩
      rw [dropWhile_restText hclose]
      refine .bind ((ih (fun e' he' => h e' (List.mem_cons_of_mem _ he')) (by omega)).mono ?_ ?_)
      · rintro rs _ ⟨hplains, hrs, rfl⟩
        exact .pure ⟨List.forall_mem_cons.2 ⟨hplain, hplains⟩, by rw [List.map_cons, List.map_cons, hr, hrs],
          rfl⟩
      · rintro _ ⟨e', he', hne⟩
        exact ⟨e', List.mem_cons_of_mem _ he', hne⟩

/-- Elements after the first are read back. -/
theorem reads_elements {es : List Expr} (h : ∀ e ∈ es, e.ReadsAsItem readInner false) {n : Nat}
    {k : List Char} (hn : 4 * (restText es).length + 1 ≤ n) :
    Reads (elements readInner n) (restText es ++ ']' :: k)
      (fun r q => (∀ e ∈ es, e.IsPlainItem) ∧ r.map Expr.bare = es.map Expr.bare ∧ q = ']' :: k)
      fun _ => ∃ e ∈ es, ¬ e.IsPlainItem :=
  reads_more (fun n => by rw [elements]) (fun hΦ => .skip (hΦ _ rfl)) (by decide) h hn

/-- Arguments after the first are read back. -/
theorem reads_moreArguments {es : List Expr} (h : ∀ e ∈ es, e.ReadsAsItem readInner true) {n : Nat}
    {k : List Char} (hn : 4 * (restText es).length + 1 ≤ n) :
    Reads (moreArguments readInner n) (restText es ++ ')' :: k)
      (fun r q => (∀ e ∈ es, e.IsPlainItem) ∧ r.map Expr.bare = es.map Expr.bare ∧ q = ')' :: k)
      fun _ => ∃ e ∈ es, ¬ e.IsPlainItem :=
  reads_more (fun n => by rw [moreArguments])
    (fun hΦ => .nextNonBlank (hΦ _ (dropWhile_dropWhile ..))) (by decide) h hn

/-- The arguments of a method are read back. -/
theorem reads_arguments (es : List Expr) (h : ∀ e ∈ es, e.ReadsAsItem readInner true) {n : Nat}
    {k : List Char} (hn : 4 * (", ".intercalate (sources es)).toList.length + 5 ≤ n) :
    Reads (arguments readInner n) ('(' :: ((", ".intercalate (sources es)).toList ++ ')' :: k))
      (fun r q => (∀ e ∈ es, e.IsPlainItem) ∧ r.map Expr.bare = es.map Expr.bare ∧ q = k)
      fun _ => ∃ e ∈ es, ¬ e.IsPlainItem := by
  obtain ⟨n, rfl⟩ : ∃ m, n = m + 1 := ⟨n - 1, by omega⟩
  rw [arguments]
  refine .bind (.nextNonBlank ?_)
  cases es with
  | nil =>
    refine .bind (.peek ?_)
    exact .bind (.skip (.pure ⟨fun _ h => (nomatch h), rfl, rfl⟩))
  | cons e es =>
    rw [toList_intercalate_sources] at hn ⊢
    rw [List.length_append] at hn
    rw [List.tail_cons, List.append_assoc, e.dropWhile_source]
    obtain ⟨c, hc, -, hne, -⟩ := e.head?_source
    refine .bind (.peek ?_)
    rw [List.head?_append, hc, Option.some_or, if_neg (by rintro ⟨⟩; exact hne (by decide))]
    refine .bind ((h e List.mem_cons_self (delimits_restText (by decide) es k) (by omega)
      (e.dropWhile_source _)).mono ?_ fun _ he => ⟨e, List.mem_cons_self, he⟩)
    rintro r _ ⟨hplain, hr, rfl⟩
    rw [dropWhile_restText (by decide)]
    refine .bind ((reads_moreArguments (fun e' he' => h e' (List.mem_cons_of_mem _ he'))
      (by omega)).mono ?_ ?_)
    · rintro rs _ ⟨hplains, hrs, rfl⟩
      refine .bind (.peek ?_)
      refine .bind (.skip (.pure ⟨List.forall_mem_cons.2 ⟨hplain, hplains⟩, ?_, rfl⟩))
      rw [List.map_cons, List.map_cons, hr, hrs]
    · rintro _ ⟨e', he', hne⟩
      exact ⟨e', List.mem_cons_of_mem _ he', hne⟩

/-- A character that is put back after a look at the one that follows it is still to be read. -/
theorem reads_putBack {α : Type} {Φ : α → List Char → Prop} {E : ParseError → Prop} {c : Char}
    {cs : List Char} {p : Char → Bool} {y z : Scan α} (hp : cs.head?.any p = false)
    (h : Reads z (c :: cs) Φ E) :
    Reads (do skip; if ← sees p then y else do putBack c; z) (c :: cs) Φ E := by
  intro s hs
  have hsees : (do skip; if ← sees p then y else do putBack c; z : Scan α) s =
      z (s.advance.putBack c) := by
    show (if s.advance.current.any p then y else do putBack c; z : Scan α) s.advance = _
    rw [Scanner.current_eq, Scanner.pending_advance, hs, List.tail_cons, hp]
    rfl
  rw [hsees]
  exact h _ (Scanner.pending_putBack_advance hs c)

/-- No suffix is read where an expression ends. -/
theorem reads_noSuffix {n : Nat} {k : List Char} {Φ : List Suffix → List Char → Prop}
    {E : ParseError → Prop} (hk : Delimits k) (h : Φ [] k) :
    Reads (suffixes readInner (n + 1)) k Φ E := by
  rw [suffixes]
  refine .bind (.peek ?_)
  cases hk with
  | endOfText => exact .pure h
  | char q hc =>
    simp only [List.mem_cons, List.not_mem_nil, or_false] at hc
    rcases hc with rfl | rfl | rfl | rfl <;> exact .pure h
  | dots q => exact reads_putBack (show isLetter '.' = false by decide) (.pure h)

/-- How the text of suffixes begins, with what follows it. -/
theorem head?_suffixesSource {k : List Char} (hk : Delimits k) (ss : List Suffix) :
    ∀ c ∈ ((suffixesSource ss).toList ++ k).head?, c ∈ ['[', ' ', ')', ',', ']', '.'] := by
  cases ss with
  | nil => exact fun c hc => List.mem_cons_of_mem _ (hk.head? c hc)
  | cons s ss =>
    cases s <;> simp only [suffixesSource, Suffix.source, String.toList_append] <;> rintro _ ⟨⟩ <;> decide

/-- No suffix goes on with the name before it. -/
theorem not_isNameChar_suffixesSource {k : List Char} (hk : Delimits k) (ss : List Suffix) :
    ∀ c ∈ ((suffixesSource ss).toList ++ k).head?, isNameChar c = false := by
  intro c hc
  have := head?_suffixesSource hk ss c hc
  simp only [List.mem_cons, List.not_mem_nil, or_false] at this
  rcases this with rfl | rfl | rfl | rfl | rfl | rfl <;> decide

/-- No suffix begins with the parenthesis of a method. -/
theorem head?_suffixesSource_ne {k : List Char} (hk : Delimits k) (ss : List Suffix) :
    ((suffixesSource ss).toList ++ k).head? ≠ some '(' :=
  fun hp => absurd (head?_suffixesSource hk ss _ hp) (by decide)

/-- Suffixes are read back. -/
theorem reads_suffixes {ss : List Suffix} (hw : ∀ s ∈ ss, s.IsWritable)
    (h : ∀ s ∈ ss, ∀ i ∈ s.items, ∀ nullAllowed, (nullAllowed = false → i.isNull = false) →
      i.isBinary = false → i.ReadsAsItem readInner nullAllowed) {n : Nat} {k : List Char}
    (hk : Delimits k) (hn : 4 * (suffixesSource ss).toList.length + 1 ≤ n) :
    Reads (suffixes readInner n) ((suffixesSource ss).toList ++ k)
      (fun r q => (∀ s ∈ ss, ∀ i ∈ s.items, i.IsPlainItem) ∧ r.map Suffix.bare = ss.map Suffix.bare ∧ q = k)
      fun _ => ∃ s ∈ ss, ∃ i ∈ s.items, ¬ i.IsPlainItem := by
  induction ss generalizing n with
  | nil =>
    obtain ⟨n, rfl⟩ : ∃ m, n = m + 1 := ⟨n - 1, by omega⟩
    exact reads_noSuffix hk ⟨fun _ hs => (nomatch hs), rfl, rfl⟩
  | cons s ss ih =>
    obtain ⟨n, rfl⟩ : ∃ m, n = m + 1 := ⟨n - 1, by omega⟩
    have hmem : s ∈ s :: ss := List.mem_cons_self
    rw [suffixesSource, String.toList_append, List.length_append] at hn
    -- What is still to be done when the first suffix has been read.
    have hrest {s' : Suffix} (hs : ∀ i ∈ s.items, i.IsPlainItem) (hbare : s'.bare = s.bare)
        (hlong : 0 < s.source.toList.length) :
        Reads (do return s' :: (← suffixes readInner n)) ((suffixesSource ss).toList ++ k)
          (fun r q => (∀ s₁ ∈ s :: ss, ∀ i ∈ s₁.items, i.IsPlainItem) ∧
            r.map Suffix.bare = (s :: ss).map Suffix.bare ∧ q = k)
          fun _ => ∃ s₁ ∈ s :: ss, ∃ i ∈ s₁.items, ¬ i.IsPlainItem := by
      refine .bind ((ih (fun s hs => hw s (List.mem_cons_of_mem _ hs))
        (fun s hs => h s (List.mem_cons_of_mem _ hs)) (by omega)).mono ?_ ?_)
      · rintro r _ ⟨hplain, hr, rfl⟩
        exact .pure ⟨List.forall_mem_cons.2 ⟨hs, hplain⟩, by rw [List.map_cons, List.map_cons, hbare, hr], rfl⟩
      · rintro _ ⟨s₁, hs₁, hi⟩
        exact ⟨s₁, List.mem_cons_of_mem _ hs₁, hi⟩
    rw [suffixes, suffixesSource, String.toList_append, List.append_assoc]
    cases s with
    | member m =>
      have hm : IsName m := hw _ hmem
      have hsource : (Suffix.member m).source.toList = '.' :: m.toList := String.toList_append
      rw [hsource]
      refine .bind (.peek (.bind (.skip (.bind (.sees ?_)))))
      obtain ⟨c, cs, hcs, hc, -⟩ := id hm
      rw [if_pos (by simp [hcs, hc])]
      refine .bind (reads_name hm (not_isNameChar_suffixesSource hk ss) (.bind (.peek ?_)))
      rw [if_neg (head?_suffixesSource_ne hk ss)]
      exact .bind (.pure (hrest (fun _ hi => (nomatch hi)) rfl (by simp [hsource])))
    | method m args =>
      obtain ⟨hm, hargs⟩ : IsName m ∧ ∀ a ∈ args, a.isBinary = false := hw _ hmem
      have hsource : (Suffix.method m args).source.toList ++ ((suffixesSource ss).toList ++ k) =
          '.' :: (m.toList ++ '(' :: ((", ".intercalate (sources args)).toList ++
            ')' :: ((suffixesSource ss).toList ++ k))) := by
        simp [Suffix.source]
      have hlen : (Suffix.method m args).source.toList.length =
          m.toList.length + (", ".intercalate (sources args)).toList.length + 3 := by
        simp only [Suffix.source, String.toList_append, List.length_append]
        have h₁ : ".".toList.length = 1 := rfl
        have h₂ : "(".toList.length = 1 := rfl
        have h₃ : ")".toList.length = 1 := rfl
        omega
      rw [hsource]
      refine .bind (.peek (.bind (.skip (.bind (.sees ?_)))))
      obtain ⟨c, cs, hcs, hc, -⟩ := id hm
      rw [if_pos (by simp [hcs, hc])]
      refine .bind (reads_name hm (by rintro _ ⟨⟩; decide) (.bind (.peek ?_)))
      rw [List.head?_cons, if_pos rfl]
      refine .bind (.map ((reads_arguments args
        (fun a ha => h _ hmem a ha true (fun hf => by cases hf) (hargs a ha)) (by omega)).mono ?_ ?_))
      · rintro args' _ ⟨hplain, hbare, rfl⟩
        refine hrest hplain ?_ (by omega)
        rw [Suffix.bare, Suffix.bare, exprsBare_eq_map, exprsBare_eq_map, hbare]
      · exact fun _ hi => ⟨_, hmem, hi⟩
    | index key =>
      obtain ⟨hbinary, hnull⟩ : key.IsItem := hw _ hmem
      have hsource : (Suffix.index key).source.toList ++ ((suffixesSource ss).toList ++ k) =
          '[' :: (key.source.toList ++ ']' :: ((suffixesSource ss).toList ++ k)) := by
        simp [Suffix.source]
      have hlen : (Suffix.index key).source.toList.length = key.source.toList.length + 2 := by
        simp [Suffix.source]
      have hkey : key.ReadsAsItem readInner false :=
        h _ hmem key List.mem_cons_self false (fun _ => hnull) hbinary
      rw [hsource]
      refine .bind (.peek (.bind (.skip (.bind ((hkey (.char _ (by decide)) (by omega)
        (key.dropWhile_source _)).mono ?_ fun _ hi => ⟨_, hmem, key, List.mem_cons_self, hi⟩)))))
      rintro key' _ ⟨hplain, hbare, rfl⟩
      rw [List.dropWhile_cons_of_neg (by decide)]
      refine .bind (.peek (.bind (.skip (hrest ?_ ?_ (by omega)))))
      · rintro i hi
        rwa [List.mem_singleton.1 hi]
      · rw [Suffix.bare, Suffix.bare, hbare]

namespace Expr

/-- A list is read back. -/
theorem readsAsItem_list {nullAllowed : Bool} {place : Place} {es : List Expr}
    (h : ∀ e ∈ es, e.ReadsAsItem readInner false) :
    ReadsAsItem readInner nullAllowed (.list place es) := by
  intro n p k hk hn hp
  have hplain : (Expr.list place es).IsPlainItem ↔ ∀ e ∈ es, e.IsPlainItem :=
    (and_iff_right rfl).trans plainItems_list
  have hsource (k : List Char) : (Expr.list place es).source.toList ++ k =
      '[' :: ((", ".intercalate (sources es)).toList ++ ']' :: k) := by
    simp [source]
  have hlen : (Expr.list place es).source.toList.length =
      (", ".intercalate (sources es)).toList.length + 2 := by
    simpa using congrArg List.length (hsource [])
  obtain ⟨n, rfl⟩ : ∃ m, n = m + 2 := ⟨n - 2, by omega⟩
  rw [primary]
  refine .bind (.skipBlanks (.bind (.peek ?_)))
  rw [hp, hsource]
  refine reads_then_skipBlanks ?_
  rw [listOrRange]
  refine .bind (.nextNonBlank ?_)
  cases es with
  | nil => exact .bind (.peek (.bind (.skip (.bind (.here fun _ => .pure ⟨hplain.2 (List.forall_mem_nil _), rfl, rfl⟩)))))
  | cons e es =>
    rw [toList_intercalate_sources, List.length_append] at hlen
    rw [toList_intercalate_sources, List.tail_cons, List.append_assoc, e.dropWhile_source]
    obtain ⟨c, hc, -, hne, -⟩ := e.head?_source
    refine .bind (.peek ?_)
    rw [List.head?_append, hc, Option.some_or, if_neg (by rintro ⟨⟩; exact hne (by decide))]
    refine .bind ((h e List.mem_cons_self (delimits_restText (by decide) es k) (by omega)
      (e.dropWhile_source _)).mono ?_ fun _ he hall => he (hplain.1 hall e List.mem_cons_self))
    rintro r _ ⟨hfirst, hr, rfl⟩
    rw [dropWhile_restText (by decide)]
    refine .bind (.peek ?_)
    rw [if_neg (by cases es <;> rintro ⟨⟩)]
    refine .bind ((reads_elements (fun e' he' => h e' (List.mem_cons_of_mem _ he')) (by omega)).mono ?_ ?_)
    · rintro rs _ ⟨hothers, hrs, rfl⟩
      refine .bind (.peek (.bind (.skip (.bind (.here fun _ => .pure ⟨?_, ?_, rfl⟩)))))
      · exact hplain.2 (List.forall_mem_cons.2 ⟨hfirst, hothers⟩)
      · rw [bare, bare, exprsBare_eq_map, exprsBare_eq_map, List.map_cons, List.map_cons, hr, hrs]
    · rintro _ ⟨e', he', hne⟩ hall
      exact hne (hplain.1 hall e' (List.mem_cons_of_mem _ he'))

/-- A range is read back. -/
theorem readsAsItem_range {nullAllowed : Bool} {place : Place} {first last : Expr}
    (hfirst : first.ReadsAsItem readInner false) (hlast : last.ReadsAsItem readInner false) :
    ReadsAsItem readInner nullAllowed (.range place first last) := by
  intro n p k hk hn hp
  have hplain : (Expr.range place first last).IsPlainItem ↔ first.IsPlainItem ∧ last.IsPlainItem :=
    (and_iff_right rfl).trans plainItems_range
  have hsource (k : List Char) : (Expr.range place first last).source.toList ++ k =
      '[' :: (first.source.toList ++ '.' :: '.' :: (last.source.toList ++ ']' :: k)) := by
    simp [source]
  have hlen : (Expr.range place first last).source.toList.length =
      first.source.toList.length + last.source.toList.length + 4 := by
    simp [source]
    omega
  obtain ⟨n, rfl⟩ : ∃ m, n = m + 2 := ⟨n - 2, by omega⟩
  rw [primary]
  refine .bind (.skipBlanks (.bind (.peek ?_)))
  rw [hp, hsource]
  refine reads_then_skipBlanks ?_
  rw [listOrRange]
  refine .bind (.nextNonBlank ?_)
  rw [List.tail_cons, first.dropWhile_source]
  obtain ⟨c, hc, -, hne, -⟩ := first.head?_source
  refine .bind (.peek ?_)
  rw [List.head?_append, hc, Option.some_or, if_neg (by rintro ⟨⟩; exact hne (by decide))]
  refine .bind ((hfirst (.dots _) (by omega) (first.dropWhile_source _)).mono ?_
    fun _ he hall => he (hplain.1 hall).1)
  rintro r _ ⟨hfirstPlain, hr, rfl⟩
  rw [List.dropWhile_cons_of_neg (by decide)]
  refine .bind (.peek (.bind (.skip (.bind (.peek (.bind (.nextNonBlank ?_)))))))
  rw [List.tail_cons, List.tail_cons, last.dropWhile_source]
  refine .bind ((hlast (.char _ (by decide)) (by omega) (last.dropWhile_source _)).mono ?_
    fun _ he hall => he (hplain.1 hall).2)
  rintro r' _ ⟨hlastPlain, hr', rfl⟩
  rw [List.dropWhile_cons_of_neg (by decide)]
  refine .bind (.peek (.bind (.nextNonBlank (.bind (.here fun _ => .pure ⟨?_, ?_, ?_⟩)))))
  · exact hplain.2 ⟨hfirstPlain, hlastPlain⟩
  · rw [bare, bare, hr, hr']
  · exact dropWhile_dropWhile ..

/-- A reference is read back. -/
theorem readsAsItem_reference {nullAllowed : Bool} {place : Place} {x : String} {ss : List Suffix}
    (hx : IsName x) (hw : ∀ s ∈ ss, s.IsWritable)
    (h : ∀ s ∈ ss, ∀ i ∈ s.items, ∀ nullAllowed, (nullAllowed = false → i.isNull = false) →
      i.isBinary = false → i.ReadsAsItem readInner nullAllowed) :
    ReadsAsItem readInner nullAllowed (.reference place x false ss) := by
  intro n p k hk hn hp
  have hplain : (Expr.reference place x false ss).IsPlainItem ↔ ∀ s ∈ ss, ∀ i ∈ s.items, i.IsPlainItem :=
    (and_iff_right rfl).trans plainItems_reference
  have hsource (k : List Char) : (Expr.reference place x false ss).source.toList ++ k =
      '$' :: (x.toList ++ ((suffixesSource ss).toList ++ k)) := by
    simp [source]
  have hlen : (Expr.reference place x false ss).source.toList.length =
      x.toList.length + (suffixesSource ss).toList.length + 1 := by
    simp [source]
  obtain ⟨n, rfl⟩ : ∃ m, n = m + 3 := ⟨n - 3, by omega⟩
  obtain ⟨c, cs, hcs, hc, -⟩ := id hx
  rw [primary]
  refine .bind (.skipBlanks (.bind (.peek ?_)))
  rw [hp, hsource]
  refine .bind (.skip (reads_then_skipBlanks ?_))
  rw [required, List.tail_cons]
  -- The name begins with a letter, so no mark for quietness and no brace stands before it.
  have hletter (d : Char) (hd : isLetter d = false) :
      (x.toList ++ ((suffixesSource ss).toList ++ k)).head? ≠ some d := by
    rw [hcs]
    rintro ⟨⟩
    exact absurd hc (by simp [hd])
  refine .bind (.peek ?_)
  rw [if_neg (hletter '!' (by decide))]
  refine .bind (.peek ?_)
  rw [if_neg (hletter '\x7b' (by decide)), Scan.reference]
  refine .bind (reads_name hx (not_isNameChar_suffixesSource hk ss) (.bind (.here fun place' => .bind ?_)))
  refine (reads_suffixes hw h hk (by omega)).mono ?_ ?_
  · rintro ss' _ ⟨hitems, hss, rfl⟩
    refine .pure ⟨hplain.2 hitems, ?_, rfl⟩
    rw [bare, bare, suffixesBare_eq_map, suffixesBare_eq_map, hss]
  · rintro _ ⟨s, hs, i, hi, hne⟩ hall
    exact hne (hplain.1 hall s hs i hi)

/-- A negation is no item. -/
theorem readsAsItem_negation {nullAllowed : Bool} {place : Place} {e : Expr} :
    ReadsAsItem readInner nullAllowed (.negation place e) := by
  intro n p k hk hn hp
  obtain ⟨n, rfl⟩ : ∃ m, n = m + 1 := ⟨n - 1, by omega⟩
  have hsource : (Expr.negation place e).source.toList = '!' :: e.operandText := String.toList_append
  rw [primary]
  refine .bind (.skipBlanks (.bind (.peek ?_)))
  rw [hp, hsource]
  exact .bind (.fail fun _ _ hplain => by cases hplain.1)

/-- What is read back as an item is read back as an operand. -/
theorem ReadsAsItem.readsBack {e : Expr} (hbinary : e.isBinary = false) (hnegation : e.isNegation = false)
    (h : e.ReadsAsItem readInner false) : e.ReadsBack readInner := by
  intro n p k hk hn hp
  have htext : e.operandText = e.source.toList := by
    rw [operandText, hbinary, inParens, if_neg (by decide)]
  rw [htext] at hn hp
  obtain ⟨n, rfl⟩ : ∃ m, n = m + 1 := ⟨n - 1, by omega⟩
  obtain ⟨c, hc, -, -, hne⟩ := e.head?_source
  have hhead : (p.dropWhile isBlank).head? = some c := by
    rw [hp, List.head?_append, hc, Option.some_or]
  rw [unary]
  refine .bind (.skipBlanks (.bind (.peek ?_)))
  rw [hhead]
  have hprimary : Reads (primary readInner n false) (p.dropWhile isBlank)
      (fun r q => e.PlainItems ∧ r.bare = e.bare ∧ q = k.dropWhile isBlank) fun _ => ¬ e.PlainItems :=
    (h hk (by omega) ((dropWhile_dropWhile ..).trans hp)).mono (fun _ _ hr => ⟨hr.1.2, hr.2⟩)
      fun _ he hplain => he ⟨hnegation, hplain⟩
  split
  · rename_i heq
    obtain rfl := Option.some.inj heq
    exact absurd (List.mem_cons_self) (hne hbinary hnegation)
  · rename_i heq
    obtain rfl := Option.some.inj heq
    exact absurd (by decide) (hne hbinary hnegation)
  · exact hprimary

/-- A negation is read back as an operand, when what it negates is. -/
theorem readsBack_negation {place : Place} {e : Expr} (h : e.ReadsBack readInner) :
    (Expr.negation place e).ReadsBack readInner := by
  intro n p k hk hn hp
  have hsource : (Expr.negation place e).operandText = '!' :: e.operandText := String.toList_append
  have hplain : (Expr.negation place e).PlainItems ↔ e.PlainItems := by
    simp [PlainItems, Everywhere, HasPlainItems, items]
  rw [hsource, List.length_cons] at hn
  obtain ⟨n, rfl⟩ : ∃ m, n = m + 1 := ⟨n - 1, by omega⟩
  rw [unary]
  refine .bind (.skipBlanks (.bind (.peek ?_)))
  rw [hp, hsource]
  refine .bind (.skip (.bind (.here fun place' => .bind ?_)))
  refine (h hk (by omega) (e.dropWhile_operandText k)).mono ?_ fun _ he hall => he (hplain.1 hall)
  rintro e' _ ⟨hall, hbare, rfl⟩
  exact .bind (.skipBlanks (.pure ⟨hplain.2 hall, by rw [bare, bare, hbare], dropWhile_dropWhile ..⟩))

/-- An expression with operators is read back in parentheses, when its operands are read back. -/
theorem readsBack_binary {t : Expr} (hbinary : t.isBinary = true) (ht : t.LeftGrouped)
    (h : ∀ u ∈ t.operands, u.ReadsBack readInner) : t.ReadsBack readInner := by
  intro n p k hk hn hp
  have htext : t.operandText = '(' :: (t.source.toList ++ [')']) := by
    rw [operandText, hbinary, toList_inParens]
    rfl
  rw [htext] at hn hp
  simp only [List.length_append, List.length_cons, List.length_nil] at hn
  obtain ⟨n, rfl⟩ : ∃ m, n = m + 1 := ⟨n - 1, by omega⟩
  rw [unary]
  refine .bind (.skipBlanks (.bind (.peek ?_)))
  rw [hp]
  refine .bind (.nextNonBlank ?_)
  rw [List.cons_append, List.tail_cons, List.append_assoc, t.dropWhile_source]
  refine .bind ((reads_expr ht h (.parenthesis k) (by omega) (t.dropWhile_source _)).mono ?_ ?_)
  · rintro e _ ⟨hplain, hbare, rfl⟩
    refine .bind (.expect (List.dropWhile_cons_of_neg (by decide)) (.bind (.skipBlanks (.pure ?_))))
    exact ⟨t.plainItems_iff_operands.2 hplain, hbare, rfl⟩
  · rintro _ ⟨u, hu, hne⟩ hall
    exact hne (t.plainItems_iff_operands.1 hall u hu)

/-- What reading can make is read back as an item and as an operand, and so are its operands, when its
operators associate to the left. -/
theorem readsBack (t : Expr) (hw : t.Everywhere IsWritable) (hd : t.WithoutTemplates)
    (hg : t.LeftGrouped) :
    (∀ nullAllowed, (nullAllowed = false → t.isNull = false) → t.isBinary = false →
      t.ReadsAsItem readInner nullAllowed) ∧
    (t.isNull = false → t.ReadsBack readInner ∧ ∀ u ∈ t.operands, u.ReadsBack readInner) := by
  -- What is no binary expression and no negation is read as an operand where it is read as an item.
  have hitem {t : Expr} (hbinary : t.isBinary = false) (hnegation : t.isNegation = false)
      (h : ∀ nullAllowed, (nullAllowed = false → t.isNull = false) → t.ReadsAsItem readInner nullAllowed) :
      (∀ nullAllowed, (nullAllowed = false → t.isNull = false) → t.isBinary = false →
        t.ReadsAsItem readInner nullAllowed) ∧
      (t.isNull = false → t.ReadsBack readInner ∧ ∀ u ∈ t.operands, u.ReadsBack readInner) := by
    refine ⟨fun nullAllowed hnull _ => h nullAllowed hnull, fun hnull => ?_⟩
    have hback : t.ReadsBack readInner := ReadsAsItem.readsBack hbinary hnegation (h false fun _ => hnull)
    rw [operands_of_not_isBinary hbinary]
    exact ⟨hback, fun u hu => List.mem_singleton.1 hu ▸ hback⟩
  induction t using Expr.induction with
  | literal place v => 
    refine hitem rfl rfl fun nullAllowed hnull => ?_
    cases v with
    | null =>
      cases nullAllowed with
      | true => exact readsAsItem_word (.inr (.inr ⟨rfl, rfl, rfl⟩))
      | false => exact nomatch hnull rfl
    | bool b =>
      cases b with
      | true => exact readsAsItem_word (.inl ⟨rfl, rfl⟩)
      | false => exact readsAsItem_word (.inr (.inl ⟨rfl, rfl⟩))
    | int m => exact readsAsItem_int hw
  | binary lhs op rhs ihl ihr =>
    obtain ⟨⟨hlnull, hrnull⟩, hwl, hwr⟩ := hw
    have hl := (ihl hwl hd.2.1 hg.2.1).2 hlnull
    have hr := (ihr hwr hd.2.2 hg.2.2).2 hrnull
    have hoperands := forall_mem_operands_binary op hl hr
    exact ⟨fun _ _ h => (by cases h), fun _ => ⟨readsBack_binary rfl hg hoperands, hoperands⟩⟩
  | negation place e ih =>
    have he := ((ih hw.2 hd.2 hg.2).2 hw.1).1
    refine ⟨fun _ _ _ => readsAsItem_negation, fun _ => ⟨readsBack_negation he, ?_⟩⟩
    rw [operands_of_not_isBinary rfl]
    exact fun u hu => List.mem_singleton.1 hu ▸ readsBack_negation he
  | text place quote nodes =>
    cases quote with
    | single => exact hitem rfl rfl fun nullAllowed hnull => readsAsItem_text hw
    | double => exact hd.elim
  | list place es ih =>
    refine hitem rfl rfl fun nullAllowed hnull => readsAsItem_list fun e he => ?_
    obtain ⟨hbinary, hnull⟩ := hw.1 e he
    exact (ih e he (exprsEverywhere_iff.1 hw.2 e he) (exprsEverywhere_iff.1 hd.2 e he)
      (exprsEverywhere_iff.1 hg.2 e he)).1 false (fun _ => hnull) hbinary
  | range place first last ihf ihl =>
    obtain ⟨⟨hfirst, hlast⟩, hwf, hwl⟩ := hw
    exact hitem rfl rfl fun nullAllowed hnull => readsAsItem_range
      ((ihf hwf hd.2.1 hg.2.1).1 false (fun _ => hfirst.2) hfirst.1)
      ((ihl hwl hd.2.2 hg.2.2).1 false (fun _ => hlast.2) hlast.1)
  | reference place x quiet ss ih =>
    obtain ⟨⟨hx, rfl, hss⟩, hws⟩ := hw
    refine hitem rfl rfl fun nullAllowed hnull => readsAsItem_reference hx hss ?_
    intro s hs i hi
    exact (ih s hs i hi (suffixesEverywhere_iff.1 hws s hs i hi) (suffixesEverywhere_iff.1 hd.2 s hs i hi)
      (suffixesEverywhere_iff.1 hg.2 s hs i hi)).1

end Expr

/-- The text of an expression without misplaced negations is read before a closing parenthesis. -/
theorem reads_source {t : Expr} (ht : t.Everywhere Expr.IsWritable) (hnull : t.isNull = false)
    (hd : t.WithoutTemplates) (hg : t.LeftGrouped) (hplain : t.PlainItems) {n : Nat} {p k : List Char}
    (hn : 4 * t.source.toList.length + 8 ≤ n) (hp : p.dropWhile isBlank = t.source.toList ++ ')' :: k)
    {Φ : Expr → List Char → Prop} {E : ParseError → Prop} (h : ∀ e, Φ e (')' :: k)) :
    Reads (expr readInner n) p Φ E := by
  refine (reads_expr hg ((t.readsBack ht hd hg).2 hnull).2 (.parenthesis k) hn hp).mono ?_ ?_
  · rintro e _ ⟨-, -, rfl⟩
    exact h e
  · rintro _ ⟨u, hu, hne⟩
    exact absurd (t.plainItems_iff_operands.1 hplain u hu) hne

end Stencil
