import Stencil.Config.EngineConfig
import Stencil.Evaluate.Render

/-!
# Engine — templates from files

An engine renders templates from files. It keeps the templates that it has read, by name, unless its
configuration says otherwise; clearing it makes it read them again.
-/

namespace Stencil

/-- An engine: its configuration, the directory of its templates, and the templates kept. -/
structure Engine where
  config : EngineConfig
  root : Path
  kept : Bindings Template
  deriving Inhabited

namespace Engine

/-- A new engine, if its directory can be one. -/
def ofConfig? (config : EngineConfig) : Except ResourceError Engine := do
  let root ← config.resourceRoot.resolve?.mapError .file
  return ⟨config, root, []⟩

/-- Where the engine finds templates. -/
def opener (e : Engine) : Opener :=
  .files e.root e.config.encoding

/-- Reads a template anew. -/
def readTemplate (e : Engine) (name : String) : Run Template :=
  Template.ofName e.opener name

/-- The template of a name, and the engine that keeps it. -/
def template (e : Engine) (name : String) : Run (Template × Engine) := do
  if e.config.cacheTemplates then
    match e.kept.get? name with
    | some t => return (t, e)
    | none =>
      let t ← e.readTemplate name
      return (t, { e with kept := e.kept.put name t })
  else return (← e.readTemplate name, e)

/-- Renders the template of a name. The engine keeps the template also when rendering it fails. -/
def render (e : Engine) (name : String) (vars : Bindings Value) : Run (Except Halt String × Engine) :=
  do
    let (t, e) ← e.template name
    fun s =>
      match t.evaluate vars .standard s with
      | .ok text s => .ok (.ok text, e) s
      | .error h s => .ok (.error h, e) s

/-- The engine without the templates it has kept. -/
def clear (e : Engine) : Engine :=
  { e with kept := [] }

/-- Where the file of a name is. -/
def resolve (e : Engine) (name : String) : Except ResourceError Path :=
  resolveFile e.root name

/-- The text of the file of a name. -/
def openText (e : Engine) (name : Option String) : Run String :=
  match name with
  | none => Run.fail (.resource .noName)
  | some name => Run.openText e.opener name

end Engine

end Stencil
