import Stencil.Run.Store

/-!
# Run — the evaluator one level deeper

Evaluation that leaves the tree at hand: reading an argument, rendering a block, a macro or another
template, or following a list into its cell. Such a step may go on for ever, so it is run with less fuel;
a `Deeper` is what is left of the evaluator for it.
-/

namespace Stencil

/-- The evaluator one level deeper: evaluating an expression, rendering nodes, and converting a value to
text. The fuel bounds the number of levels that are left. -/
structure Deeper where
  fuel : Nat
  eval : Scope → Expr → Run Value
  render : Scope → List Node → Run Unit
  text : Value → Run String

namespace Deeper

/-- The text that a block renders to. -/
def blockText (d : Deeper) (b : Block) : Run String :=
  Run.capture (d.render b.scope b.body)

/-- The value of an argument. -/
def thunk (d : Deeper) (t : Thunk) : Run Value :=
  d.eval t.scope t.expr

end Deeper

end Stencil
