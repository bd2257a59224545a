import Stencil.Evaluate.Render

/-!
# Scripts of host code

Using host values, converting them to text and calculating with them asks for no variable, begins no loop or
macro call and loads no template. `Script.OfHost` says so of a script: it is made of host code, of failures
that are reworded, and of blocks and values that are converted to text one level deeper.
-/

namespace Stencil

/-- Whether an act concerns the host alone, or only the source text of an expression. -/
def Act.IsHost : {α : Type} → Act α → Prop
  | _, step _ | _, fuel | _, host | _, source _ => True
  | _, _ => False

/-- Scripts that use the host and nothing else. -/
inductive Script.OfHost {scope : Scope} : {α : Type} → Script scope α → Prop
  | done {α : Type} {a : α} : Script.OfHost (.done a)
  | andThen {α β : Type} {x : Script scope β} {f : β → Script scope α} (first : Script.OfHost x)
      (second : ∀ b, Script.OfHost (f b)) : Script.OfHost (.andThen x f)
  | act {α : Type} {a : Act α} (h : a.IsHost) : Script.OfHost (.act a)
  | rethrow {α : Type} {f : Failure → Failure} {x : Script scope α} (inner : Script.OfHost x) :
      Script.OfHost (.rethrow f x)
  | block {b : BlockRef} : Script.OfHost (.block b)
  | text {v : Value} : Script.OfHost (.text v)

namespace Script.OfHost

variable {scope : Scope} {α β : Type}

theorem bind {x : Script scope β} {f : β → Script scope α} (hx : Script.OfHost x)
    (hf : ∀ b, Script.OfHost (f b)) : Script.OfHost (x >>= f) :=
  .andThen hx hf

theorem map {x : Script scope β} (f : β → α) (hx : Script.OfHost x) :
    Script.OfHost (x >>= fun b => Pure.pure (f b)) :=
  .andThen hx fun _ => .done

theorem step (x : Step α) : Script.OfHost (.act (.step x) : Script scope α) :=
  .act trivial

theorem failAt (place : Place) (cause : EvalCause) :
    Script.OfHost (Script.failAt place cause : Script scope α) :=
  .step _

end Script.OfHost

open Script (OfHost)

variable {scope : Scope}

/-! ### Values as text -/

theorem ofHost_formattedWithin (n : Nat) (v : Value) :
    OfHost (formattedWithin n v : Script scope String) := by
  induction n generalizing v with
  | zero => exact .step _
  | succ n ih =>
    unfold formattedWithin
    split
    · exact .done
    · refine .bind (.step _) fun state => ?_
      split
      · exact .map _ (ih _)
      · exact .step _
      · exact .done
      · exact .done
    · exact .done
    · exact .block
    · exact .done
    · exact .done
    · exact .bind (.step _) fun _ => .done

theorem ofHost_formatted (v : Value) : OfHost (formatted v : Script scope String) :=
  .bind (.step _) fun _ => ofHost_formattedWithin _ v

theorem ofHost_listTextsFrom (r : ListRef) (texts : Array String) (n position : Nat) :
    OfHost (listTextsFrom r texts n position : Script scope (List String)) := by
  induction n generalizing texts position with
  | zero => exact .step _
  | succ n ih =>
    unfold listTextsFrom
    refine .bind (.step _) fun items => ?_
    split
    · exact .bind .text fun _ => ih _ _
    · exact .done

mutual

theorem ofHost_textOf : (v : Value) → OfHost (textOf v : Script scope String)
  | .null | .bool _ | .range .. => .done
  | .tuple vs | .set vs | .keys vs => .map _ (ofHost_textsOf vs)
  | .map entries => .map _ (ofHost_entryTextsOf entries)
  | .list r => .bind (.act trivial) fun n => .map _ (ofHost_listTextsFrom r #[] n 0)
  | .int _ | .float _ | .str _ | .bytes _ | .stream _ | .loop _ | .block _ | .object .. | .type _
  | .function .. | .getter .. | .day _ | .moment _ | .nan _ => ofHost_formatted _

theorem ofHost_textsOf : (vs : List Value) → OfHost (textsOf vs : Script scope (List String))
  | [] => .done
  | v :: vs => .bind (ofHost_textOf v) fun _ => .map _ (ofHost_textsOf vs)

theorem ofHost_entryTextsOf : (es : List (Value × Value)) →
    OfHost (entryTextsOf es : Script scope (List String))
  | [] => .done
  | (k, v) :: es => .bind (ofHost_textOf k) fun _ => .bind (ofHost_textOf v) fun _ =>
    .map _ (ofHost_entryTextsOf es)

end

theorem ofHost_hostTextOf (host : HostKind) (v : Value) :
    OfHost (host.textOf v : Script scope String) := by
  cases host with
  | standard => exact ofHost_textOf v
  | shouting => exact .map _ (ofHost_textOf v)
  | failing => exact .step _

/-! ### Uses of host values -/

theorem ofHost_callPerson (self : Value) (method : String) (args : List Value) :
    OfHost (Object.callPerson self method args : Script scope Value) := by
  unfold Object.callPerson
  split
  case h_2 =>
    exact .bind (.step _) fun _ => .bind (ofHost_formatted _) fun _ => .map _ (ofHost_formatted _)
  case h_7 =>
    refine .bind (.step _) fun items => ?_
    split
    · exact .done
    · exact .step _
  all_goals first
    | exact .done
    | exact .step _
    | exact .bind (.step _) fun _ => .done
    | exact .bind (.step _) fun _ => .map _ (.step _)
    | exact .bind (ofHost_formatted _) fun _ => .step _

theorem ofHost_objectCall (cls : HostClass) (self : Value) (method : String) (args : List Value) :
    OfHost (Object.call cls self method args : Script scope Value) := by
  unfold Object.call
  split
  · exact ofHost_callPerson _ _ _
  · exact .done
  · exact .done
  · exact .done
  · refine .bind (.step _) fun state => ?_
    split
    · exact .bind (.step _) fun _ => .done
    · exact .done
    · exact .done
  · exact .done

theorem ofHost_methodCall (m : Method) (args : List Value) :
    OfHost (m.call args : Script scope Value) := by
  unfold Method.call
  split
  · exact ofHost_objectCall _ _ _ _
  · exact .bind (.act trivial) fun _ => .step _

theorem ofHost_propertyOf (v : Value) (name : String) :
    OfHost (Host.propertyOf v name : Script scope Value) := by
  unfold Host.propertyOf
  split
  · exact .done
  · split
    · exact .step _
    · refine .bind (.step _) fun found => ?_
      split
      · exact .bind (ofHost_textOf v) fun _ => .step _
      · exact .done
      · exact ofHost_methodCall _ _
      · exact .done
      · exact .step _

theorem ofHost_callFunction (cls : HostClass) (name : String) (args : List Value) :
    OfHost (Host.callFunction cls name args : Script scope Value) := by
  unfold Host.callFunction
  split
  · exact ofHost_objectCall _ _ _ _
  · exact .step _

theorem ofHost_callable {m : Member} {sig : Option Signature} {run : List Value → Script scope Value}
    (h : Host.callable? m = some (sig, run)) (args : List Value) : OfHost (run args) := by
  unfold Host.callable? at h
  split at h
  · cases h
    exact ofHost_methodCall _ _
  · cases h
    exact ofHost_callFunction _ _ _
  · cases h
    exact .step _
  · cases h

theorem ofHost_callMethodOf (v : Value) (name : String) (args : List Value) :
    OfHost (Host.callMethodOf v name args : Script scope Value) := by
  unfold Host.callMethodOf
  extract_lets call
  have hcall : ∀ m, OfHost (call m) := by
    intro m
    unfold call
    split
    · exact .step _
    · split
      · exact ofHost_callable ‹_› args
      · exact .bind (ofHost_textsOf args) fun _ => .step _
  split
  · exact .bind .done hcall
  · exact .bind (.step _) hcall

theorem ofHost_indexSequence (size : Nat) (item : Nat → Value) (key : Value) :
    OfHost (Host.indexSequence size item key : Script scope Value) := by
  unfold Host.indexSequence
  split
  · exact .bind (.step _) fun _ => .step _
  · exact .bind (ofHost_textOf _) fun _ => .step _

theorem ofHost_indexOf (v key : Value) : OfHost (Host.indexOf v key : Script scope Value) := by
  unfold Host.indexOf
  split
  · exact .bind (.step _) fun _ => ofHost_indexSequence _ _ _
  · exact ofHost_indexSequence _ _ _
  · exact ofHost_indexSequence _ _ _
  · exact .step _
  · exact ofHost_callMethodOf _ _ _

/-! ### Operands -/

theorem ofHost_hostText (place : Place) (v : Value) : OfHost (hostText place v : Script scope String) :=
  .bind (.act trivial) fun host => .rethrow (ofHost_hostTextOf host v)

theorem ofHost_shown (place : Place) (v : Value) : OfHost (shown place v : Script scope String) := by
  unfold shown
  split
  · exact .done
  · exact .map _ (ofHost_hostText _ _)

theorem ofHost_integerOperand (place : Place) (v : Value) :
    OfHost (integerOperand place v : Script scope (Option Int)) := by
  unfold integerOperand
  split
  · exact .done
  · exact .done
  · exact .bind (ofHost_shown _ _) fun _ => .failAt _ _

theorem ofHost_bound (place : Place) (v : Value) : OfHost (bound place v : Script scope Int) := by
  refine .bind (ofHost_integerOperand place v) fun n => ?_
  split
  · exact .done
  · exact .failAt _ _

theorem ofHost_equal (place : Place) (a b : Value) : OfHost (equal place a b : Script scope Bool) := by
  unfold equal
  split
  · exact .done
  · exact .done
  · exact .done
  · split
    · exact .bind (.step _) fun _ => .done
    · exact .bind (ofHost_hostText _ _) fun _ => .map _ (ofHost_hostText _ _)

theorem ofHost_operandText (place : Place) (operand : Expr) (v : Value) :
    OfHost (operandText place operand v : Script scope String) := by
  unfold operandText
  split
  · exact .act trivial
  · exact ofHost_hostText _ _

theorem ofHost_plus (place : Place) (lhs rhs : Expr) (a b : Value) :
    OfHost (plus place lhs rhs a b : Script scope Value) := by
  have htext : ∀ a b, OfHost (do
      let left ← operandText place lhs a
      let right ← operandText place rhs b
      return .str (left ++ right) : Script scope Value) := fun a b =>
    .bind (ofHost_operandText _ _ _) fun _ => .map _ (ofHost_operandText _ _ _)
  unfold plus
  split
  · exact htext _ _
  · exact htext _ _
  · exact .done
  · exact .done
  · exact .done
  · exact .bind (ofHost_shown _ _) fun _ => .bind (ofHost_shown _ _) fun _ => .failAt _ _

theorem ofHost_arithmetic (place : Place) (lhs : Expr) (op : Operator) (rhs : Expr) (a b : Option Int) :
    OfHost (arithmetic place lhs op rhs a b : Script scope Value) := by
  unfold arithmetic
  repeat' split
  all_goals first
    | exact .done
    | exact .failAt _ _

end Stencil
