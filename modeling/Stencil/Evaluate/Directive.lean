import Stencil.Evaluate.Operand

/-!
# Evaluate — directives

What directives do with the values of their arguments: calls of macros by name, and templates that are
loaded or read from a text.
-/

namespace Stencil

variable {scope : Scope}

/-- Calls a macro by name. -/
def callMacro (place : Place) (name : String) (args : List Expr) (body : Option (List Node)) :
    Script scope Unit := do
  match ← Act.find name with
  | none => Script.failAt place (.unknownMacro name)
  | some m =>
    if args.length = m.params.length then Script.call m args body
    else Script.failAt place (.arity name m.params.length args.length)

/-- Renders the template of a name. -/
def parseDirective (place : Place) (name : Value) : Script scope Unit := do
  match name with
  | .str name =>
    let t ← Act.load place name
    Script.template t
  | .null => Script.failAt place (.parseName "null")
  | v => Script.failAt place (.parseName v.typeName)

/-- Renders a text as a template. Null renders nothing. -/
def evaluateDirective (place : Place) (source : Value) : Script scope Unit := do
  match source with
  | .null => return ()
  | .str text =>
    let t ← Act.parse place text
    Script.template t
  | v => Script.failAt place (.evaluateText (← hostText place v))

end Stencil
