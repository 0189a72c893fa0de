import LimitSyntax.Diagnostic.Collector
import LimitSyntax.Token.Scan
import LimitSyntax.Tree.Builder

/-!
# The state of a parse

The tokens read and those still to be read, the tree built from them, the bodies that are open, and
what was reported.
-/

namespace LimitSyntax.Grammar

/-- What stays the same during a parse. -/
structure Input where
  source : Source
  /-- The token seen after the last one. -/
  eof : Token
  /-- The number of reports after which the parse halts. -/
  limit : Nat

/-- A body in braces that has been entered. -/
structure OpenBlock where
  /-- What the body belongs to. -/
  kind : String
  brace : Token

/-- A parse between two tokens. -/
structure State where
  read : Array Token := #[]
  rest : List Token
  /-- The tree of the tokens read, if one is wanted. -/
  tree : Option Tree.Builder
  errors : Diagnostic.Collector
  /-- The open bodies, innermost first. -/
  blocks : List OpenBlock := []
  /-- Number of open bodies that hold declarations. -/
  depth : Nat := 0
  /-- Whether the text belongs to a concurrency block, where tasks and workers are known. -/
  concurrent : Bool := false
  /-- Number of reports. -/
  reported : Nat := 0
  /-- Whether the limit of reports was reached. -/
  halted : Bool := false
  /-- The description of the last thing found wrong, whether or not it was reported. -/
  lastError : Option String := none
  /-- Offset of the token at which a closing brace was last found missing. -/
  unclosedAt : Option Nat := none
  /-- Whether a bound on nested calls or on the turns of a loop was met: it cuts a parse short. -/
  spent : Bool := false

/-- The block that is blamed when its closing brace is missing. -/
def OpenBlock.context (b : OpenBlock) (source : Source) : Diagnostic.Block where
  kind := b.kind
  line := b.brace.line
  column := Text.columnAt source.text.toList b.brace.span.start
  lexeme := b.brace.lexeme

/-- What is reported when the limit is reached. -/
def tooManyErrors : String := "Too many syntax errors; aborting parse."

namespace Input

/-- A message about the text of `token`. -/
def message (i : Input) (token : Token) (description : String) : Diagnostic.Message :=
  Diagnostic.Message.new .grammar description
    |>.locate token.line (Text.columnAt i.source.text.toList token.span.start)
    |>.inFile i.source.file

end Input

namespace State

/-- Number of tokens read. -/
def position (s : State) : Nat := s.read.size

/-- Changes the tree, if there is one. -/
def mapTree (s : State) (f : Tree.Builder → Tree.Builder) : State :=
  { s with tree := s.tree.map f }

/-- Moves past the token `t`, after which `rest` is left. -/
def take (s : State) (t : Token) (rest : List Token) : State :=
  { s with read := s.read.push t, rest, tree := s.tree.map (·.token t) }

/-- Moves back over the last token. -/
def back (s : State) : State :=
  match s.read.back? with
  | some t =>
    { s with read := s.read.pop, rest := t :: s.rest, tree := s.tree.map Tree.Builder.popToken }
  | none => s

/-- Reports something wrong with `token`. An error token was reported when it was scanned. Reports
end with the one that reaches the limit and a note that says so. -/
def report (s : State) (i : Input) (token : Token) (description : String)
    (block : Option OpenBlock) : State :=
  let s := { s with lastError := some description }
  if s.halted || token.kind == .error then s
  else
    let message := (i.message token description).onToken token.lexeme
    let message := match block with
      | some b => message.inBlock (b.context i.source)
      | none => message
    let (isNew, errors) := s.errors.record message (some i.source.text)
    if isNew then
      let s := { s with errors, reported := s.reported + 1 }
      if s.reported < i.limit then s
      else { s with
        errors := s.errors.report (i.message token tooManyErrors) (some i.source.text)
        halted := true }
    else s

end State

end LimitSyntax.Grammar
