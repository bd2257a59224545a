import Stencil.Run.Scope
import Stencil.Template.ReadDocument

/-!
# Run — loading templates

Loading templates. A loader opens a name, reads the document, and keeps the template under the name when
that succeeds; a name that was loaded is not opened again.
-/

namespace Stencil

/-- Where a template file is: under the root, which it may not leave. -/
def resolveFile (root : Path) (name : String) : Except ResourceError Path := do
  let p ← (root.join (Path.ofText name)).resolve?.mapError .file
  if p.isInside root then return p
  else throw (.outside name root)

/-- The text of a template file. -/
def readFile (files : FileTree) (root : Path) (encoding : String) (name : String) :
    Except ResourceError String := do
  let p ← resolveFile root name
  if encoding.toList.contains '\x00' then throw .unusableEncoding
  match files.read p, Encoding.ofName? encoding with
  | .error e, _ => throw (.file e)
  | .ok _, none => throw (.unknownEncoding encoding)
  | .ok bytes, some enc => (enc.decodeLines bytes).mapError .undecodable

namespace Run

/-- Stops with a resource error, if there is one. -/
def ofResource {α : Type} (x : Except ResourceError α) : Run α :=
  match x with
  | .ok a => return a
  | .error e => fail (.resource e)

/-- Opens a name and reads its text. -/
def openText (opener : Opener) (name : String) : Run String := do
  match opener with
  | .noNames => fail (.resource (.noNamedResources name))
  | .texts =>
    modify fun s => { s with opened := s.opened.put name ((s.opened.get? name).getD 0 + 1) }
    match (← get).texts.get? name with
    | some text => return text
    | none => fail (.resource (.unknownName name))
  | .files root encoding => ofResource (readFile (← get).files root encoding name)

/-- A new loader that has loaded nothing. -/
def newLoader (opener : Opener) : Run LoaderRef :=
  modifyGet fun s => (⟨s.loaders.size⟩, { s with loaders := s.loaders.alloc ⟨opener, []⟩ })

/-- A loader as it is. -/
def loader (r : LoaderRef) : Run Loader := do
  return (← get).loaders.get r.index

/-- A number for a template that was not given out before. -/
def templateId : Run Nat :=
  modifyGet fun s => (s.templates, { s with templates := s.templates + 1 })

/-- Reads a text as a template of a loader. -/
def parseText (r : LoaderRef) (resource : Option String) (text : String) : Run Template := do
  match Document.read resource text with
  | .ok document =>
    let id ← templateId
    return ⟨id, document, r⟩
  | .error (.error e) => fail (.parse e)
  | .error .exhausted => exhausted

/-- Opens a name and reads it as a template of a loader, whether or not it was loaded before. -/
def parseResource (r : LoaderRef) (name : String) : Run Template := do
  let text ← openText (← loader r).opener name
  parseText r (some name) text

/-- The template of a name. It is read when the name is loaded for the first time with success. -/
def load (r : LoaderRef) (name : String) : Run Template := do
  match (← loader r).cache.get? name with
  | some t => return t
  | none =>
    let t ← parseResource r name
    let l ← loader r
    modify fun s => { s with loaders := s.loaders.set r.index { l with cache := l.cache.put name t } }
    return t

/-- The loader of an evaluation. -/
def loaderOf (scope : Scope) : Run LoaderRef := do
  return ((← get).root scope.root).loader

/-- An error of opening or reading a template, as an evaluation error at a place. -/
def loadFailure (place : Place) : Failure → Failure
  | .parse e => .evaluation ⟨some place, .unreadable e, []⟩
  | .resource e => if e.isOpening then .evaluation ⟨some place, .resource e, []⟩ else .resource e
  | f => f

/-- The template of a name, for a directive at a place. -/
def loadAt (scope : Scope) (place : Place) (name : String) : Run Template :=
  mapFailure (loadFailure place) do load (← loaderOf scope) name

/-- A text read as a template, for a directive at a place. -/
def parseAt (scope : Scope) (place : Place) (text : String) : Run Template :=
  mapFailure (loadFailure place) do
    parseText (← loaderOf scope) (some ("#evaluate " ++ place.text)) text

end Run

namespace Template

/-- Reads a text as a template that can name no others. -/
def ofText (text : String) : Run Template := do
  Run.parseText (← Run.newLoader .noNames) none text

/-- Reads a named text as a template, with a loader of its own for the templates that it names. -/
def ofName (opener : Opener) (name : String) : Run Template := do
  Run.parseResource (← Run.newLoader opener) name

end Template

end Stencil
