import Stencil.Proofs.Twins

/-!
# Steps of runs side by side

Two steps agree when, from stores that go side by side, they end alike: with related results, or with
stops that differ in places only, and in stores that go side by side still.
-/

namespace Stencil

open Store (Twins LikeBody)

/-- Whether two steps end alike. -/
inductive Agree (π : Pairing) {α : Type} (A : α → α → Prop) :
    EStateM.Result Halt Store α → EStateM.Result Halt Store α → Prop
  | ok {a b : α} {s t : Store} (hab : A a b) (h : Twins π s t) : Agree π A (.ok a s) (.ok b t)
  | error {e e' : Halt} {s t : Store} (he : e.Like π.strict e') (h : Twins π s t) :
      Agree π A (.error e s) (.error e' t)

variable {π : Pairing} {α β : Type} {A : α → α → Prop} {B : β → β → Prop} {s t : Store}

namespace Agree

theorem bind {x x' : Run β} {f f' : β → Run α} (hx : Agree π B (x s) (x' t))
    (hf : ∀ b b' s' t', x s = .ok b s' → B b b' → Twins π s' t' → Agree π A (f b s') (f' b' t')) :
    Agree π A ((x >>= f) s) ((x' >>= f') t) := by
  show Agree π A (EStateM.bind x f s) (EStateM.bind x' f' t)
  rw [EStateM.bind, EStateM.bind]
  generalize hs : x s = rs at hx hf
  generalize x' t = rt at hx
  cases hx with
  | ok hb h => exact hf _ _ _ _ rfl hb h
  | error he h => exact .error he h

theorem andThen {x x' : Run α} {after after' : Store → Store} (hx : Agree π A (x s) (x' t))
    (hafter : ∀ s' t', Twins π s' t' → Twins π (after s') (after' t')) :
    Agree π A (Run.andThen x after s) (Run.andThen x' after' t) := by
  rw [Run.andThen, Run.andThen]
  generalize x s = rs at hx
  generalize x' t = rt at hx
  cases hx with
  | ok ha h => exact .ok ha (hafter _ _ h)
  | error he h => exact .error he (hafter _ _ h)

theorem mapFailure {x x' : Run α} {f f' : Failure → Failure} (hf : π.strict = true → f = f')
    (hx : Agree π A (x s) (x' t)) : Agree π A (Run.mapFailure f x s) (Run.mapFailure f' x' t) := by
  rw [Run.mapFailure, Run.mapFailure]
  generalize x s = rs at hx
  generalize x' t = rt at hx
  cases hx with
  | ok ha h => exact .ok ha h
  | error he h =>
    cases he with
    | leave hp => exact .error (.leave hp) h
    | failure he => exact .error (.failure fun hs => by rw [hf hs, he hs]) h
    | exhausted => exact .error .exhausted h

theorem catchLeave {x x' : Run Unit} (stops : Bool → Bool) (hx : Agree π Eq (x s) (x' t)) :
    Agree π Eq (Run.catchLeave stops x s) (Run.catchLeave stops x' t) := by
  rw [Run.catchLeave, Run.catchLeave]
  generalize x s = rs at hx
  generalize x' t = rt at hx
  cases hx with
  | ok ha h => exact .ok ha h
  | error he h =>
    cases he with
    | @leave p p' b hp =>
      by_cases hb : stops b
      · simpa [hb] using Agree.ok rfl h
      · simpa [hb] using Agree.error (.leave hp) h
    | failure he => exact .error (.failure he) h
    | exhausted => exact .error .exhausted h

theorem capture {x x' : Run Unit} (h : Twins π s t)
    (hx : Agree π Eq (x { s with written := "" }) (x' { t with written := "" })) :
    Agree π Eq (Run.capture x s) (Run.capture x' t) := by
  rw [Run.capture, Run.capture, h.written]
  generalize x { s with written := "" } = rs at hx
  generalize x' { t with written := "" } = rt at hx
  cases hx with
  | ok _ h' =>
    simp only [h'.written]
    exact .ok rfl (h'.withWritten _)
  | error he h' => exact .error he (h'.withWritten _)

theorem endBreaks {x x' : Run Unit} (hx : Agree π Eq (x s) (x' t)) :
    Agree π Eq (Run.endBreaks x s) (Run.endBreaks x' t) := by
  rw [Run.endBreaks, Run.endBreaks]
  generalize x s = rs at hx
  generalize x' t = rt at hx
  cases hx with
  | ok ha h => exact .ok ha h
  | error he h =>
    cases he with
    | @leave p p' b hp =>
      cases b with
      | true => exact .error (.failure fun hs => by rw [hp hs]) h
      | false => exact .ok rfl h
    | failure he => exact .error (.failure he) h
    | exhausted => exact .error .exhausted h

/-- A step of host code sees and changes the cells only. -/
theorem toRun (h : Twins π s t) (x : Step α) : Agree π Eq (x.toRun s) (x.toRun t) := by
  rw [Step.toRun, Step.toRun, ← h.cells]
  cases x s.toCells with
  | ok a cells => exact .ok rfl (h.withCells cells)
  | error e cells => exact .error (.refl _) (h.withCells cells)

/-- Reading a template on both sides, where the answers are alike. -/
theorem reads (h : Twins π s t) {answer answer' : Except Halt Document}
    (ha : LikeAnswer π.strict answer answer') {s' t' : Store} (hs : s.Reads s') (ht : t.Reads t')
    {rs rt : EStateM.Result Halt Store Template} (hrs : Run.Gives answer s' rs)
    (hrt : Run.Gives answer' t' rt) :
    Agree π (fun a b => LikeDocument π.strict a.document b.document) rs rt := by
  have h' := h.reads hs ht
  cases hrs with
  | ok =>
    cases hrt with
    | ok =>
      cases ha with
      | ok hd => exact .ok hd h'
    | error => cases ha
  | error =>
    cases hrt with
    | ok => cases ha
    | error =>
      cases ha with
      | error he => exact .error he h'

end Agree

/-- Acts that differ in places only, and how the results of such acts are related. -/
inductive Act.Like (strict : Bool) : {α : Type} → (α → α → Prop) → Act α → Act α → Prop
  | step {α : Type} (x : Step α) : Act.Like strict Eq (.step x) (.step x)
  | fail {α : Type} {f f' : Failure} (hf : strict = true → f = f') :
      Act.Like strict (α := α) Eq (.step (Step.fail f)) (.step (Step.fail f'))
  | fuel : Act.Like strict Eq .fuel .fuel
  | host : Act.Like strict Eq .host .host
  | source {e e' : Expr} (he : LikeExpr strict e e') : Act.Like strict Eq (.source e) (.source e')
  | find {name : String} : Act.Like strict (Option.Rel (LikeMacro strict)) (.find name) (.find name)
  | defined {x : String} : Act.Like strict Eq (.defined x) (.defined x)
  | define {body body' : List Node} {origin : String} (hb : LikeNodes strict body body') :
      Act.Like strict (fun b b' => b.ref = b'.ref) (.define body origin) (.define body' origin)
  | write {text : String} : Act.Like strict Eq (.write text) (.write text)
  | load {p p' : Place} {name : String} (hp : p.Like strict p') :
      Act.Like strict (fun a b => LikeDocument strict a.document b.document) (.load p name) (.load p' name)
  | parse {p p' : Place} {text : String} (hp : p.Like strict p') :
      Act.Like strict (fun a b => LikeDocument strict a.document b.document) (.parse p text)
        (.parse p' text)

/-- Whether the source text that an act takes shows all of its expression. -/
def Act.ShowsAll : {α : Type} → Act α → Prop
  | _, .source e => e.isShown = true
  | _, _ => True

/-- The places of two directives that read a text do not matter for what they read. -/
def ReadsAlike (strict : Bool) : Prop :=
  strict = true ∨ ∀ (resource resource' : Option String) (text : String),
    LikeAnswer strict ((Document.read resource text).mapError ParseFailure.halt)
      ((Document.read resource' text).mapError ParseFailure.halt)

/-- Acts that differ in places only end alike. -/
theorem Act.Like.agree (hread : ReadsAlike π.strict) {a a' : Act α} (ha : a.Like π.strict A a')
    (hshows : π.strict = true ∨ a.ShowsAll) (h : Twins π s t) (n : Nat) (scope : Scope) :
    Agree π A (a.run n scope s) (a'.run n scope t) := by
  cases ha with
  | step x => exact .toRun h x
  | fail hf => exact .error (.failure hf) h
  | fuel => exact .ok rfl h
  | host => exact .ok (h.root scope.root).host h
  | source he =>
    refine .ok ?_ h
    rcases hshows with hs | hshows
    · rw [he.eq_of_strict hs]
    · exact he.source_eq hshows
  | find => exact .ok ((h.root scope.root).macros _) h
  | defined => exact .ok (h.isDefined_eq scope _) h
  | define hb =>
    refine .bind (.toRun h Run.freshId) fun id id' s' t' _ hid h' => ?_
    obtain rfl : id = id' := hid
    exact .ok rfl (h'.addBlock ⟨rfl, hb, rfl⟩)
  | @write text =>
    have h' := h.withWritten (s.written ++ text)
    refine .ok rfl ?_
    show Twins π { s with written := s.written ++ text } { t with written := t.written ++ text }
    rw [← h.written]
    exact h'
  | @load p p' name hp =>
    refine .mapFailure (fun hs => by rw [hp hs]) (.bind (.ok (A := π.paired)
      (h.root scope.root).loader h) fun r r' s' t' _ hr h' => ?_)
    obtain ⟨s₁, hs, hgs⟩ := Run.gives_load s' r name
    obtain ⟨t₁, ht, hgt⟩ := Run.gives_load t' r' name
    have hl : s'.answer = π.left.answer := congrArg Library.answer h'.left
    have hr' : t'.answer = π.right.answer := congrArg Library.answer h'.right
    rw [hl] at hgs
    rw [hr'] at hgt
    exact .reads h' (π.alike hr name) hs ht hgs hgt
  | @parse p p' text hp =>
    refine .mapFailure (fun hs => by rw [hp hs]) (.bind (.ok (A := fun _ _ => True) trivial h)
      fun r r' s' t' _ _ h' => ?_)
    obtain ⟨s₁, hs, -, hgs⟩ := Run.gives_parseText s' r (some ("#evaluate " ++ p.text)) text
    obtain ⟨t₁, ht, -, hgt⟩ := Run.gives_parseText t' r' (some ("#evaluate " ++ p'.text)) text
    refine .reads h' ?_ hs ht hgs hgt
    rcases hread with hstrict | hread
    · rw [hp hstrict]
      exact .refl _
    · exact hread _ _ _

end Stencil
