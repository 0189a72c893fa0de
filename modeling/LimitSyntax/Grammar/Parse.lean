import LimitSyntax.Ast.Members
import LimitSyntax.Grammar.State

/-!
# Parsers

A parser reads tokens and may give up. It gives up only after it has noted what is wrong, and
whatever it has read stays read. Rules that contain each other are called through `Rules`.
-/

namespace LimitSyntax.Grammar

/-- A computation on the state of a parse that may give up. -/
abbrev Parse := ReaderT Input (ExceptT Unit (StateM State))

/-! ## Tokens -/

/-- The token `k` places ahead. -/
def peekAt (k : Nat) : Parse Token := do
  return ((← get).rest[k]?).getD (← read).eof

/-- The next token. -/
def peek : Parse Token := peekAt 0

/-- The last token read, or the next one at the start. -/
def previous : Parse Token := do
  match (← get).read.back? with
  | some t => return t
  | none => peek

/-- Whether the token `k` places ahead is of a kind. -/
def checkAt (k : Nat) (kind : Token.Kind) : Parse Bool := do
  return (← peekAt k).kind == kind

/-- Whether the next token is of a kind. -/
def check (kind : Token.Kind) : Parse Bool := checkAt 0 kind

/-- Whether all tokens are read. -/
def atEnd : Parse Bool := check .eof

/-- Reads the next token. The end is never passed. -/
def advance : Parse Token := do
  match (← get).rest with
  | t :: rest =>
    if t.kind != .eof then modify (·.take t rest)
    return t
  | [] => return (← read).eof

/-- Reads the next token if it is of a kind. -/
def eat (kind : Token.Kind) : Parse Bool := do
  if ← check kind then
    let _ ← advance
    return true
  else return false

/-- Moves back over the last token. -/
def rewind : Parse Unit := modify State.back

/-- Reads the next token if it is of a kind and the two tokens behind it meet a condition. -/
def eatBefore (kind : Token.Kind) (ahead : Token → Token → Bool) : Parse Bool := do
  if ← eat kind then
    if ahead (← peek) (← peekAt 1) then return true
    rewind
    return false
  else return false

/-- Offset and line of the next token. -/
def startPos : Parse (Nat × Nat) := do
  let t ← peek
  return (t.span.start, t.line)

/-- The span from `start` to the end of the last token read. -/
def spanFrom (start : Nat) : Parse Span := do
  if (← get).position = 0 then return .empty start
  else return ⟨start, max (← previous).span.stop start⟩

/-! ## Errors -/

/-- Reports something wrong with a token. -/
def reportAt (token : Token) (description : String) : Parse Unit := do
  let input ← read
  modify (·.report input token description none)

/-- Reports something wrong with the next token. -/
def reportHere (description : String) : Parse Unit := do
  reportAt (← peek) description

/-- Reports something wrong with the next token and blames the innermost open body. -/
def reportUnclosed (description : String) : Parse Unit := do
  let input ← read
  let token ← peek
  modify fun s => s.report input token description s.blocks.head?

def giveUp {α : Type} : Parse α := throw ()

/-- Reports something wrong with the next token and gives up. -/
def fail {α : Type} (description : String) : Parse α := do
  reportHere description
  giveUp

/-- Reads a token of the given kind. -/
def consume (kind : Token.Kind) (description : String) : Parse Token := do
  if ← check kind then advance else fail description

/-- Reads the end of something in braces. -/
def consumeClose (kind : Token.Kind) (description : String) : Parse Unit := do
  if ← check kind then
    let _ ← advance
  else
    reportUnclosed description
    giveUp

/-- Reads a name. -/
def consumeName (description : String) : Parse String := do
  return (← consume .identifier description).lexeme

/-- Runs a parser and tells whether it gave up. -/
def attempt {α : Type} (p : Parse α) : Parse (Option α) :=
  tryCatch (some <$> p) fun _ => return none

/-! ## The tree -/

/-- Changes the tree, if one is built. -/
def onTree (f : Tree.Builder → Tree.Builder) : Parse Unit := modify (·.mapTree f)

/-- The current place in the tree. -/
def checkpoint : Parse (Option Tree.Checkpoint) := do
  return (← get).tree.map (·.checkpoint)

def openNode (kind : Tree.Kind) : Parse Unit := onTree (·.start kind)

/-- Opens a node around what was read since the checkpoint. Only without a tree there is none. -/
def openAt (c : Option Tree.Checkpoint) (kind : Tree.Kind) : Parse Unit :=
  match c with
  | some c => onTree (·.startAt c kind)
  | none => openNode kind

def closeNode : Parse Unit := onTree (·.finish)

/-- Describes the current node. -/
def describe (text : String) : Parse Unit := onTree (·.describe text)

/-- Runs a parser inside a new node. A parser that gives up leaves the node open. -/
def inNode {α : Type} (kind : Tree.Kind) (p : Parse α) : Parse α := do
  openNode kind
  let a ← p
  closeNode
  return a

/-- Runs a parser inside a node around what was read since the checkpoint. -/
def inNodeAt {α : Type} (c : Option Tree.Checkpoint) (kind : Tree.Kind) (p : Parse α) :
    Parse α := do
  openAt c kind
  let a ← p
  closeNode
  return a

/-! ## Open bodies -/

/-- Enters a body. -/
def enterBlock (kind : String) (brace : Token) : Parse Unit :=
  modify fun s => { s with blocks := ⟨kind, brace⟩ :: s.blocks }

/-- Leaves a body. -/
def leaveBlock : Parse Unit := modify fun s => { s with blocks := s.blocks.tail }

/-- Runs a parser inside a body. A parser that gives up leaves the body open. -/
def inBody {α : Type} (kind : String) (brace : Token) (p : Parse α) : Parse α := do
  enterBlock kind brace
  let a ← p
  leaveBlock
  return a

/-- Runs a parser inside a list of declarations. -/
def deeper {α : Type} (p : Parse α) : Parse α := do
  modify fun s => { s with depth := s.depth + 1 }
  let a ← p
  modify fun s => { s with depth := s.depth - 1 }
  return a

/-- Runs a parser where tasks and workers are known. -/
def concurrently {α : Type} (p : Parse α) : Parse α := do
  let outside := (← get).concurrent
  modify ({ · with concurrent := true })
  let a ← attempt p
  modify ({ · with concurrent := outside })
  match a with
  | some a => return a
  | none => giveUp

/-- Reads the brace that closes the innermost body. If it is missing that is reported, once for all
bodies that end there. -/
def closeBlock (description : String) : Parse Bool := do
  if ← eat .rightBrace then return true
  let at' := (← peek).span.start
  if (← get).unclosedAt = some at' then
    modify ({ · with lastError := some description })
  else
    modify ({ · with unclosedAt := some at' })
    reportUnclosed description
  return false

/-- Whether the body ends here: at its brace, at the end, or because the parse has halted. -/
def bodyEnds : Parse Bool := do
  return (← check .rightBrace) || (← atEnd) || (← get).halted

/-! ## Rules -/

/-- The rules that occur inside themselves. -/
inductive Rule : Type → Type where
  | expression : Rule Ast.Expr
  | power : Rule Ast.Expr
  | unary : Rule Ast.Expr
  | type : Rule Ast.TypeExpr
  | basicType : Rule Ast.TypeExpr
  | pattern : Rule Ast.Pattern
  | ifStatement : Rule Ast.StmtKind
  | statement : Rule Ast.Stmt
  | declaration : Rule Ast.Stmt
  /-- A declaration that is skipped if it does not meet the grammar. -/
  | recovered : Rule (Option Ast.Stmt)

/-- How to call the rules from inside a rule. -/
structure Rules where
  /-- A bound for the turns of a loop. -/
  bound : Nat
  call : {α : Type} → Rule α → Parse α

/-! ## Repetition -/

/-- Notes that a bound was met. -/
def spend : Parse Unit := modify ({ · with spent := true })

/-- Repeats `turn` until it says to stop, at most `bound` times. -/
def repeatUpTo {σ : Type} (turn : σ → Parse (σ × Bool)) : Nat → σ → Parse σ
  | 0, s => do
    spend
    return s
  | bound + 1, s => do
    let (s, more) ← turn s
    if more then repeatUpTo turn bound s else return s

/-- Items with commas between them, at least one. -/
def commaSeparated {α : Type} (rules : Rules) (item : Parse α) : Parse (List α) := do
  let first ← item
  let items ← repeatUpTo (fun items => do
    if ← eat .comma then return ((← item) :: items, true)
    else return (items, false)) rules.bound [first]
  return items.reverse

/-- Items with commas between them, up to a closing token, which is not read. Tells whether a comma
stands last. -/
def commaList {α : Type} (rules : Rules) (close : Token.Kind) (item : Parse α) :
    Parse (List α × Bool) := do
  let (items, comma) ← repeatUpTo (fun (items, comma) => do
    if (← check close) || (← atEnd) then return ((items, comma), false)
    let next ← item
    let comma ← eat .comma
    return ((next :: items, comma), comma)) rules.bound ([], false)
  return (items.reverse, comma)

def after {α : Type} (kind : Token.Kind) (item : Parse α) : Parse (Option α) := do
  if ← eat kind then return some (← item) else return none

end LimitSyntax.Grammar
