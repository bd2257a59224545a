import Stencil.Value.Basic

/-!
# Host — signatures

Signatures of methods. A call is accepted when its arguments can be bound to the parameters and each
argument is of the type that its parameter is declared with; null is of every type.
-/

namespace Stencil

/-- A declared type of a parameter. -/
inductive TypeHint where
  | text
  | integer
  | boolean
  | real
  | list
  deriving DecidableEq, Repr, Inhabited

/-- Whether a value is of a declared type. An integer is also a real number, a boolean is neither. -/
def TypeHint.admits : TypeHint → Value → Bool
  | _, .null => true
  | text, .str _ => true
  | integer, .int _ => true
  | boolean, .bool _ => true
  | real, .int _ | real, .float _ | real, .nan _ => true
  | list, .list _ => true
  | _, _ => false

/-- A parameter that takes one argument by its position. -/
structure Param where
  hint : Option TypeHint := none
  optional : Bool := false
  deriving DecidableEq, Repr, Inhabited

/-- The parameters of a method. `more` allows any further arguments; `needsName` is there when an
argument has to be given by name, which a template cannot do. -/
structure Signature where
  params : List Param := []
  more : Bool := false
  needsName : Bool := false
  deriving DecidableEq, Repr, Inhabited

namespace Signature

/-- A signature of parameters without declared types. -/
def untyped (required optional : Nat) : Signature :=
  { params := List.replicate required {} ++ List.replicate optional { optional := true } }

/-- A signature of one parameter of a declared type. -/
def one (hint : TypeHint) : Signature :=
  { params := [{ hint := some hint }] }

/-- Whether each argument is of the declared type of its parameter. -/
def typesFit : List Param → List Value → Bool
  | p :: ps, v :: vs => (p.hint.all fun h => h.admits v) && typesFit ps vs
  | _, _ => true

/-- Whether a call with these arguments is accepted. -/
def accepts (sig : Signature) (args : List Value) : Bool :=
  !sig.needsName && (args.length ≤ sig.params.length || sig.more) &&
    (sig.params.drop args.length).all (·.optional) && typesFit sig.params args

end Signature

/-- Whether a call is accepted by a method that may show no signature. -/
def accepted (sig : Option Signature) (args : List Value) : Bool :=
  sig.all fun s => s.accepts args

end Stencil
