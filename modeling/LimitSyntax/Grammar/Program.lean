import LimitSyntax.Grammar.Decl

/-!
# Programs

The rules are tied together here. A rule calls another one through `Rules` only after it has read a
token, so that calls are never nested deeper than there are tokens.
-/

namespace LimitSyntax.Grammar

open Ast

/-- The text of each rule, given how to call the others. -/
def Rule.parse (rules : Rules) {α : Type} : Rule α → Parse α
  | .expression => exprRule rules
  | .power => powerRule rules
  | .unary => unaryRule rules
  | .type => typeRule rules
  | .basicType => basicTypeRule rules
  | .pattern => patternRule rules
  | .ifStatement => ifRule rules
  | .statement => statementRule rules
  | .declaration => declarationRule rules
  | .recovered => recoveredRule rules

/-- Calls a rule, with at most `fuel` calls nested in each other. -/
def Rule.call (fuel : Nat) {α : Type} (rule : Rule α) : Parse α :=
  match fuel with
  | 0 => do
    spend
    giveUp
  | fuel + 1 => rule.parse ⟨fuel + 1, Rule.call fuel⟩

/-- The rules for a text of `n` tokens. -/
def Rules.upTo (n : Nat) : Rules := ⟨n + 1, Rule.call n⟩

section
variable (rules : Rules)

/-- A closing brace that closes nothing. -/
def strayBrace : Parse Unit := inNode .errorNode do
  let description := "Unexpected closing brace."
  reportHere description
  onTree (·.markError description)
  let _ ← advance

/-- One declaration of a program. If it reads nothing, a token is skipped. -/
def topDeclaration : Parse (Option Stmt) := do
  let before := (← get).position
  let stmt ← if ← check .rightBrace then do
      strayBrace
      pure none
    else recoveredRule rules
  if (← get).position = before && !(← atEnd) then
    let _ ← advance
  return stmt

/-- One turn of the reading of a program, and whether it goes on. The declarations read so far stand
last ones first. -/
def topTurn (stmts : List Stmt) : Parse (List Stmt × Bool) := do
  if (← atEnd) || (← get).halted then return (stmts, false)
  return ((← topDeclaration rules).toList ++ stmts, true)

/-- The declarations of a program. -/
def topDeclarations : Parse (List Stmt) := do
  let stmts ← repeatUpTo (topTurn rules) rules.bound []
  return stmts.reverse

end

/-- How to parse. -/
structure Config where
  /-- Whether to build a tree, which needs tokens with their trivia. -/
  buildTree : Bool := false
  /-- The number of reports after which the parse halts; at least one is made. -/
  maxErrors : Nat := 20

/-- What a parse yields. -/
structure Result where
  program : Program
  tree : Option Tree.Node
  /-- What was reported during the parse. -/
  errors : List Diagnostic.Message

/-- The end of a row of tokens: the last token, or a token behind it. -/
def endOf (tokens : List Token) : Token :=
  match tokens.getLast? with
  | none => .eof 0 1
  | some last => if last.kind == .eof then last else .eof last.span.stop last.line

/-- The constant part of a parse. -/
def Input.of (stream : Scan.Stream) (config : Config) : Input where
  source := stream.source
  eof := endOf stream.tokens
  limit := max config.maxErrors 1

/-- The state before a parse. -/
def State.start (stream : Scan.Stream) (config : Config) (errors : Diagnostic.Collector) :
    State where
  rest := stream.tokens
  tree := if config.buildTree && stream.mode == .lossless then some {} else none
  errors

/-- The declarations of a stream, and the state after them. -/
def runProgram (stream : Scan.Stream) (config : Config) (errors : Diagnostic.Collector) :
    List Stmt × State :=
  let (outcome, s) := topDeclarations (Rules.upTo stream.tokens.length) (.of stream config)
    |>.run (.start stream config errors)
  (outcome.toOption.getD [], s)

/-- Parses a stream. All tokens that are left, the end with its trivia among them, go to the root of
the tree. -/
def parse (stream : Scan.Stream) (config : Config) (errors : Diagnostic.Collector) :
    Result × Diagnostic.Collector :=
  let (statements, s) := runProgram stream config errors
  let length := stream.source.text.utf8ByteSize
  let tree := s.tree.map fun b => (s.rest.foldl Tree.Builder.token b).tree length
  (⟨⟨statements, ⟨0, length⟩⟩, tree, s.errors.since errors.size⟩, s.errors)

/-- Scans and parses a source. Trivia is kept if a tree is built. -/
def parseSource (source : Source) (config : Config) (errors : Diagnostic.Collector) :
    Result × Diagnostic.Collector :=
  let mode := if config.buildTree then Scan.Mode.lossless else .lossy
  let (stream, scanned) := Scan.scan source mode errors
  let (result, parsed) := parse stream config scanned
  ({ result with errors := parsed.since errors.size }, parsed)

/-- A source that is not a program. -/
structure Rejection where
  file : String
  errors : List Diagnostic.Message

/-- How many errors there are, and what the first of them is. -/
def Rejection.message (r : Rejection) : String :=
  let first := (r.errors.head?.map (·.description)).getD ""
  r.file ++ ": " ++ toString r.errors.length ++ " error(s), first: " ++ first

def parseProgram (source : Source) : Except Rejection Program :=
  let (result, _) := parseSource source {} {}
  if result.errors.isEmpty then .ok result.program else .error ⟨source.file, result.errors⟩

end LimitSyntax.Grammar
