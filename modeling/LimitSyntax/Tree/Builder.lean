import LimitSyntax.Tree.Basic

/-!
# Building a tree

A builder holds the nodes that are open, each inside the next. Tokens and closed nodes are added to
the innermost open node. A node may be opened around elements that are already there: a checkpoint
remembers how many elements the current node had.
-/

namespace LimitSyntax.Tree

/-- An open node. -/
structure Frame where
  kind : Kind
  /-- Offset at which the node was opened. -/
  start : Nat
  elements : Array Element := #[]
  description : Option String := none
  error : Option String := none
  deriving Inhabited

/-- The span of a node that closes at `offset`: that of its elements, or an empty one. -/
def Frame.span (f : Frame) (offset : Nat) : Span :=
  match f.elements[0]?, f.elements.back? with
  | some first, some last => first.span.cover last.span
  | _, _ => .empty (min f.start offset)

def Frame.node (f : Frame) (span : Span) : Node :=
  ⟨f.kind, span, f.elements.toList, f.description, f.error⟩

/-- A place in the elements of the node that was innermost when it was taken. -/
structure Checkpoint where
  depth : Nat
  index : Nat
  deriving DecidableEq, Inhabited

/-- A tree in the making. There is always an innermost open node; the last of the others is the
root. -/
structure Builder where
  top : Frame := ⟨.program, 0, #[], none, none⟩
  below : List Frame := []
  /-- End of the last token. -/
  offset : Nat := 0
  deriving Inhabited

namespace Builder

/-- Number of open nodes. -/
def depth (b : Builder) : Nat := b.below.length + 1

/-- Opens a node with the given elements, which start at `start`. -/
def push (b : Builder) (parent : Frame) (kind : Kind) (start : Nat) (elements : Array Element) :
    Builder :=
  { b with top := { kind, start, elements }, below := parent :: b.below }

/-- Opens a node. -/
def start (b : Builder) (kind : Kind) : Builder := b.push b.top kind b.offset #[]

/-- The current place. -/
def checkpoint (b : Builder) : Checkpoint := ⟨b.depth, b.top.elements.size⟩

/-- Opens a node around all elements added to the current node since `c` was taken. A checkpoint of
another depth, or past the elements that are there, opens an empty node. -/
def startAt (b : Builder) (c : Checkpoint) (kind : Kind) : Builder :=
  if c.depth ≠ b.depth ∨ b.top.elements.size < c.index then b.start kind
  else
    let adopted := b.top.elements.extract c.index
    let start := (adopted[0]?.map (·.span.start)).getD b.offset
    b.push { b.top with elements := b.top.elements.shrink c.index } kind start adopted

/-- Adds a token. -/
def token (b : Builder) (t : Token) : Builder :=
  { b with
    top := { b.top with elements := b.top.elements.push (.token t) }
    offset := t.fullSpan.stop }

/-- The token that `popToken` takes back. -/
def lastToken? (b : Builder) : Option Token := b.top.elements.back?.bind Element.token?

/-- Takes back the last element of the current node if it is a token. -/
def popToken (b : Builder) : Builder :=
  match b.lastToken? with
  | none => b
  | some t =>
    { b with
      top := { b.top with elements := b.top.elements.pop }
      offset := t.fullSpan.start }

/-- Describes the current node. -/
def describe (b : Builder) (text : String) : Builder :=
  { b with top := { b.top with description := some text } }

/-- Notes what is wrong with the current node. -/
def markError (b : Builder) (text : String) : Builder :=
  { b with top := { b.top with error := some text } }

/-- Closes the current node. The root stays open. -/
def finish (b : Builder) : Builder :=
  match b.below with
  | [] => b
  | parent :: below =>
    let node := b.top.node (b.top.span b.offset)
    { b with
      top := { parent with elements := parent.elements.push (.node node) }
      below }

/-- Closes `n` nodes. -/
def finishMany (b : Builder) : Nat → Builder
  | 0 => b
  | n + 1 => b.finish.finishMany n

/-- Closes nodes until at most `depth` are open. -/
def unwind (b : Builder) (depth : Nat) : Builder := b.finishMany (b.depth - max depth 1)

/-- Closes all nodes. The root spans the whole source. -/
def tree (b : Builder) (sourceLength : Nat) : Node := (b.unwind 1).top.node ⟨0, sourceLength⟩

end Builder

end LimitSyntax.Tree
