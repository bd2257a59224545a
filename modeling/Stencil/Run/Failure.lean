import Stencil.Files.Encoding
import Stencil.Files.FileTree
import Stencil.Template.ParseError
import Stencil.Value.Basic

/-!
# Run — what can go wrong

What can go wrong when a template is evaluated, as causes; one function per kind of failure words it.
An evaluation error has a place, and a trace of the macros that were being rendered.
-/

namespace Stencil

open Stencil.Text (quoted)

/-- The kinds of ordinary errors of host code. -/
inductive FaultKind where
  | badValue
  | badKey
  | badIndex
  | badType
  | badState
  | noAttribute
  | tooLarge
  | unmet
  deriving DecidableEq, Repr, Inhabited

/-- The name of a kind of error. -/
def FaultKind.name : FaultKind → String
  | badValue => "ValueError"
  | badKey => "KeyError"
  | badIndex => "IndexError"
  | badType => "TypeError"
  | badState => "RuntimeError"
  | noAttribute => "AttributeError"
  | tooLarge => "OverflowError"
  | unmet => "AssertionError"

/-- An ordinary error of host code. -/
structure Fault where
  kind : FaultKind
  text : String
  deriving DecidableEq, Repr, Inhabited

/-- Why a host value cannot be used as a template asks. -/
inductive AccessError where
  | noGetter (member shown typeName : String)
  | noMethod (method typeName : String)
  | ambiguous (members : List String)
  | argumentTypes (method : String) (shown : List String)
  | indexType (shown : String)
  | indexBefore (index : Int) (size : Nat)
  | indexAfter (index : Int) (size : Nat)
  | stated (text : String)
  deriving DecidableEq, Repr, Inhabited

/-- The access error in words. -/
def AccessError.message : AccessError → String
  | noGetter member shown typeName =>
    s!"member {member} does not correspond to a public getter of {shown}, a {typeName}"
  | noMethod method typeName => s!"no method {method} in {typeName}"
  | ambiguous members =>
    "ambiguous method invocation, could be one of: " ++ ", ".intercalate members
  | argumentTypes method shown =>
    s!"parameters for method {method} have wrong types: [" ++ ", ".intercalate shown ++ "]"
  | indexType shown => s!"list index is not an Integer: {shown}"
  | indexBefore index size =>
    s!"negative list index {index} counts from the end of the list, but the list size is only {size}"
  | indexAfter index size => s!"list index {index} is not valid for list of size {size}"
  | stated text => text

/-- Why a resource cannot be opened or read. -/
inductive ResourceError where
  | unknownName (name : String)
  | noName
  | noNamedResources (name : String)
  | outside (name : String) (root : Path)
  | file (fault : FileFault)
  | undecodable (e : DecodeError)
  | unknownEncoding (name : String)
  | unusableEncoding
  deriving DecidableEq, Repr, Inhabited

namespace ResourceError

/-- The kind of a resource error. -/
def kindName : ResourceError → String
  | unknownName _ | noName | file (.missing _) => "FileNotFoundError"
  | noNamedResources _ | file (.tooLong _) => "OSError"
  | outside .. => "PermissionError"
  | file .unusable | unusableEncoding => "ValueError"
  | file (.isDirectory _) => "IsADirectoryError"
  | file (.notDirectory _) => "NotADirectoryError"
  | undecodable _ => "UnicodeDecodeError"
  | unknownEncoding _ => "LookupError"

/-- The resource error in words. -/
def message : ResourceError → String
  | unknownName name => name
  | noName => "A resource name is required to open a template file"
  | noNamedResources name => s!"No ResourceOpener has been configured to read {name}"
  | outside name root => s!"Resource {name} is outside {root.text}"
  | file (.missing p) => s!"[Errno 2] No such file or directory: {quoted p.text}"
  | file (.isDirectory p) => s!"[Errno 21] Is a directory: {quoted p.text}"
  | file (.notDirectory p) => s!"[Errno 20] Not a directory: {quoted p.text}"
  | file (.tooLong p) => s!"[Errno 36] File name too long: {quoted p.text}"
  | file .unusable => "embedded null byte"
  | undecodable e => e.message
  | unknownEncoding name => s!"unknown encoding: {name}"
  | unusableEncoding => "embedded null character"

/-- Whether the resource could not be opened, as opposed to read; a name that no file can have is not
looked for. -/
def isOpening : ResourceError → Bool
  | file .unusable | undecodable _ | unknownEncoding _ | unusableEncoding => false
  | _ => true

end ResourceError

/-- Why the evaluation of a node failed. -/
inductive EvalCause where
  | undefined (name : String)
  | nullOutput (source : String)
  | notInteger (shown : String)
  | nullBound
  | nullOperand (isLeft : Bool) (source : String) (op : Operator)
  | notAddable (left right : String)
  | nullBase (whole part : String)
  | blockBase (whole part origin : String)
  | access (source : String) (e : AccessError)
  | notIterable (shown : String)
  | notScope (source : String)
  | unknownMacro (name : String)
  | arity (name : String) (expected found : Nat)
  | parseName (typeName : String)
  | evaluateText (shown : String)
  | leaveOutside
  | fault (e : Fault)
  | unreadable (e : ParseError)
  | resource (e : ResourceError)
  | stated (text : String)
  deriving DecidableEq, Repr, Inhabited

/-- The cause in words. -/
def EvalCause.text : EvalCause → String
  | undefined name => s!"Undefined reference ${name}"
  | nullOutput source => s!"Null value for {source}"
  | notInteger shown => s!"Arithmetic is only available on integers, not {shown}"
  | nullBound => "Arithmetic is only available on integers, not null"
  | nullOperand isLeft source op =>
    let side := if isLeft then "Left" else "Right"
    s!"{side} operand {source} of {op.symbol} must not be null"
  | notAddable left right =>
    s!"Operands of + must both be integers, or at least one must be a string: {left} + {right}"
  | nullBase whole part => s!"In {whole}: {part} must not be null"
  | blockBase whole part origin =>
    s!"In {whole}: {part} comes from {origin} and cannot be dereferenced"
  | access source e => s!"In {source}: {e.message}"
  | notIterable shown => s!"Not iterable: {shown}"
  | notScope source => s!"Argument to #break is not a supported scope: {source}"
  | unknownMacro name =>
    s!"#{name} is neither a standard directive nor a macro that has been defined"
  | arity name expected found =>
    s!"Wrong number of arguments to #{name}: expected {expected}, got {found}"
  | parseName typeName => s!"Argument to #parse must be a string, not {typeName}"
  | evaluateText shown => s!"Argument to #evaluate must be a string: {shown}"
  | leaveOutside => "#break($foreach) is not inside a #foreach"
  | fault e => s!"{e.kind.name}: {e.text}"
  | unreadable e => s!"ParseError: {e.message}"
  | resource e => s!"{e.kindName}: {e.message}"
  | stated text => text

/-- A macro that was being rendered: its name and the line of its definition. -/
structure MacroStep where
  name : String
  line : Nat
  deriving DecidableEq, Repr, Inhabited

/-- What a macro adds in front of the message of an error inside it. -/
def MacroStep.text (m : MacroStep) : String :=
  s!"In macro #{m.name} defined on line {m.line}: "

/-- An evaluation error. The trace has the outermost macro first; an error without a place was stated
by the host. -/
structure EvalError where
  place : Option Place
  cause : EvalCause
  trace : List MacroStep
  deriving DecidableEq, Repr, Inhabited

namespace EvalError

/-- The message of the error where it arose. -/
def originMessage (e : EvalError) : String :=
  match e.place with
  | some p => s!"In expression {p.text}: {e.cause.text}"
  | none => e.cause.text

/-- The whole message. -/
def message (e : EvalError) : String :=
  String.join (e.trace.map MacroStep.text) ++ e.originMessage

/-- The error as it leaves a macro. -/
def inside (m : MacroStep) (e : EvalError) : EvalError :=
  { e with trace := m :: e.trace }

end EvalError

/-- A failure of evaluation, of host code or of a resource. -/
inductive Failure where
  | evaluation (e : EvalError)
  | access (e : AccessError)
  | fault (e : Fault)
  | parse (e : ParseError)
  | resource (e : ResourceError)
  deriving DecidableEq, Repr, Inhabited

/-- Why a step of host code stopped early: a failure, or no fuel left. -/
inductive Stop where
  | failure (f : Failure)
  | exhausted
  deriving DecidableEq, Repr, Inhabited

/-- Why an evaluation stopped early: a break, a failure, or no fuel left. A break remembers where it
stands, and whether only a loop may stop it. -/
inductive Halt where
  | leave (place : Place) (loopOnly : Bool)
  | failure (f : Failure)
  | exhausted
  deriving DecidableEq, Repr, Inhabited

/-- The stop of host code as the stop of the evaluation that uses it. -/
def Stop.halt : Stop → Halt
  | failure f => .failure f
  | exhausted => .exhausted

end Stencil
