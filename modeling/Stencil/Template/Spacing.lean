import Stencil.Template.Tree
import Stencil.Text.Blank

/-!
# Template — white space before assignments

White space before an assignment. A blank text between a reference and a `#set` is dropped when it
stays on one line, and so is one that begins a sequence; between a comment or a directive and a `#set`
it is dropped whatever it holds. `addNode` applies the rule node by node as a sequence grows.
-/

namespace Stencil

open Stencil.Text

/-- Whether a node is text of white space only, or of nothing. -/
def Node.isBlank : Node → Bool
  | .text _ s => s.toList.all Text.isBlank
  | _ => false

/-- Whether a node is blank text on one line. -/
def Node.isBlankOnLine : Node → Bool
  | .text p s => (Node.text p s).isBlank && !s.toList.contains '\n'
  | _ => false

/-- Whether a node writes out a reference. -/
def Node.isReference : Node → Bool
  | .output (.reference ..) => true
  | _ => false

/-- Whether a node is a directive. The place that a macro definition leaves behind is not one. -/
def Node.isDirective : Node → Bool
  | .text .. | .comment .. | .sequence .. | .output .. => false
  | _ => true

/-- Whether a node is a comment. -/
def Node.isComment : Node → Bool
  | .comment .. => true
  | _ => false

/-- Whether a node is an assignment. -/
def Node.isAssign : Node → Bool
  | .assign .. => true
  | _ => false

/-- Whether the last of the nodes, which are given last first, gives way to an assignment. -/
def givesWay : List Node → Bool
  | [] => false
  | [space] => space.isBlankOnLine
  | space :: before :: _ =>
    if before.isReference then space.isBlankOnLine
    else if before.isComment || before.isDirective then space.isBlank
    else false

/-- Adds a node to a sequence, which is given last node first. -/
def addNode (nodes : List Node) (n : Node) : List Node :=
  if n.isAssign && givesWay nodes then n :: nodes.drop 1 else n :: nodes

/-- The sequence that nodes read one after another make. -/
def assemble (nodes : List Node) : List Node :=
  (nodes.foldl addNode []).reverse

/-- A macro body without a blank text before an assignment that begins it. -/
def dropInitialBlank : List Node → List Node
  | space :: next :: rest => if space.isBlank && next.isAssign then next :: rest else space :: next :: rest
  | nodes => nodes

end Stencil
