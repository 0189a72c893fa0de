import LimitSyntax.Datum
import LimitSyntax.Text.Quoted
import LimitSyntax.Token.Datum
import LimitSyntax.Tree.Kind

/-!
# Concrete trees

A node holds nodes and tokens in source order. Tokens keep their trivia, so the tokens of a tree
spell out the source. Every question about a whole tree is asked of its `walk`, the list of its
elements in preorder.
-/

namespace LimitSyntax.Tree

mutual
/-- A node of a concrete tree. -/
structure Node where
  kind : Kind
  /-- From the start of the first to the end of the last element, trivia included. -/
  span : Span
  elements : List Element
  description : Option String
  /-- What was wrong with the text of the node. -/
  error : Option String

/-- A child of a node. -/
inductive Element where
  | node (n : Node)
  | token (t : Token)
end

instance : Inhabited Node := ⟨⟨default, default, [], none, none⟩⟩

instance : Inhabited Element := ⟨.node default⟩

namespace Element

/-- The span of an element, trivia included. -/
def span : Element → Span
  | .node n => n.span
  | .token t => t.fullSpan

/-- The node, if the element is one. -/
def node? : Element → Option Node
  | .node n => some n
  | .token _ => none

/-- The token, if the element is one. -/
def token? : Element → Option Token
  | .node _ => none
  | .token t => some t

mutual
/-- Adds an element at the given depth and all below it to `out`, in preorder. -/
def walkInto (out : Array (Nat × Element)) (depth : Nat) : Element → Array (Nat × Element)
  | .token t => out.push (depth, .token t)
  | .node ⟨kind, span, elements, description, error⟩ =>
    walkAllInto (out.push (depth, .node ⟨kind, span, elements, description, error⟩)) (depth + 1)
      elements

/-- Adds elements at the given depth and all below them to `out`, in preorder. -/
def walkAllInto (out : Array (Nat × Element)) (depth : Nat) :
    List Element → Array (Nat × Element)
  | [] => out
  | e :: es => walkAllInto (walkInto out depth e) depth es
end

/-- An element and all below it in preorder, each with its depth. -/
def walk (e : Element) : List (Nat × Element) := (e.walkInto #[] 0).toList

end Element

namespace Node

/-- A node and all below it in preorder, each with its depth. -/
def walk (n : Node) : List (Nat × Element) := (Element.node n).walk

/-- The nodes of a tree in preorder, each with its depth. -/
def nodes (n : Node) : List (Nat × Node) :=
  n.walk.filterMap fun (depth, e) => e.node?.map (depth, ·)

/-- The tokens of a tree in source order. -/
def allTokens (n : Node) : List Token := n.walk.filterMap fun (_, e) => e.token?

/-- The nodes directly below. -/
def children (n : Node) : List Node := n.elements.filterMap Element.node?

/-- The tokens directly below. -/
def tokens (n : Node) : List Token := n.elements.filterMap Element.token?

/-- The first node of a kind directly below. -/
def child? (n : Node) (kind : Kind) : Option Node := n.children.find? (·.kind == kind)

/-- The nodes of a kind directly below. -/
def childrenOf (n : Node) (kind : Kind) : List Node := n.children.filter (·.kind == kind)

/-- The nodes of a kind in the whole tree, the root included. -/
def descendants (n : Node) (kind : Kind) : List Node :=
  (n.nodes.map (·.2)).filter (·.kind == kind)

/-- The text of a tree without trivia. -/
def text (n : Node) : String := String.join (n.allTokens.map (·.lexeme))

/-- The source text of a tree. -/
def reconstruct (n : Node) : String := Token.reconstruct n.allTokens

/-- Whether any part of the tree did not meet the grammar. -/
def hasErrors (n : Node) : Bool :=
  n.nodes.any fun (_, m) => m.kind == .errorNode || m.error.isSome

/-- What was wrong, in preorder. -/
def errorMessages (n : Node) : List String := n.nodes.filterMap fun (_, m) => m.error

end Node

/-! ## Dumps -/

/-- The row of an element in a dump, without its indentation. -/
def Element.row : Element → String
  | .token t => t.kind.name ++ " " ++ Text.quote t.lexeme
  | .node n =>
    n.kind.name ++ "@" ++ toString n.span.start ++ ".." ++ toString n.span.stop ++
      (n.description.map fun d => " (" ++ d ++ ")").getD "" ++
      (n.error.map fun e => " [error: " ++ e ++ "]").getD ""

/-- A tree as text, one element to a line, each level indented by two spaces. -/
def Node.dump (n : Node) : String :=
  String.join (n.walk.map fun (depth, e) => Text.spaces (2 * depth) ++ e.row ++ "\n")

/-! ## Trees as data -/

/-- A field that is left out if there is no text. -/
def optionalText (name : String) (text : Option String) : List (String × Datum) :=
  (text.map fun t => [(name, Datum.text t)]).getD []

mutual
/-- A node as a datum. Description and error are left out of a node that has none. -/
def Node.datum : Node → Datum
  | ⟨kind, span, elements, description, error⟩ =>
    .record "Node" <|
      [("kind", .symbol kind.name), ("span", span.datum),
       ("elements", .list (elementData elements []))] ++
      optionalText "description" description ++ optionalText "error" error

def Element.datum : Element → Datum
  | .node n => .variant "Node" n.datum
  | .token t => .variant "Token" t.datum

/-- Elements as data; `done` holds the data of those before them, last one first. -/
def elementData : List Element → List Datum → List Datum
  | [], done => done.reverse
  | e :: es, done => elementData es (e.datum :: done)
end

end LimitSyntax.Tree
