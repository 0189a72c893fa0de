import LimitSyntax.Grammar.Expr

/-!
# The grammar of statements
-/

namespace LimitSyntax.Grammar

open Ast

section
variable (rules : Rules)

/-- The body of a branch or loop: a block of the given kind or a single statement. -/
def bodyStatement (kind : String) : Parse Stmt := do
  if ← check .leftBrace then
    let (start, line) ← startPos
    let body ← inNode .blockStatement do
      let brace ← advance
      blockBody rules brace kind
    return ⟨.block body, ← spanFrom start, line⟩
  else rules.call .statement

/-- Expressions to print, with or without parentheses. -/
def printStatement : Parse StmtKind := do
  let _ ← advance
  let args ← if ← eat .leftParen then do
      let args ← if ← check .rightParen then pure []
        else commaSeparated rules (rules.call .expression)
      let _ ← consume .rightParen "Expected ')' after print arguments."
      pure args
    else commaSeparated rules (rules.call .expression)
  let _ ← eat .semicolon
  return .print args

/-- The other branch of a conditional, which may be a conditional itself. -/
def elseBranch : Parse (Option Stmt) := do
  if ← check .kwElif then
    let (start, line) ← startPos
    let kind ← inNode .ifStatement (rules.call .ifStatement)
    return some ⟨kind, ← spanFrom start, line⟩
  else after .kwElse (bodyStatement rules "else")

/-- A conditional. -/
def ifRule : Parse StmtKind := do
  let keyword := (← advance).lexeme
  let _ ← consume .leftParen ("Expected '(' after '" ++ keyword ++ "'.")
  let condition ← rules.call .expression
  let _ ← consume .rightParen "Expected ')' after if condition."
  let thenBranch ← bodyStatement rules "if"
  return .ifElse condition thenBranch (← elseBranch rules)

/-! ## Loops -/

/-- The variables of a loop and what they run over. -/
def loopHeader : Parse (List String × Expr) := do
  let _ ← eat .kwVar
  let vars ← commaSeparated rules (consumeName "Expected loop variable name.")
  let _ ← consume .kwIn "Expected 'in' after loop variables."
  return (vars, ← rules.call .expression)

/-- Whether the header of a loop lists variables. -/
def startsLoopHeader : Parse Bool := do
  let listed (k : Nat) : Parse Bool := return (← checkAt k .kwIn) || (← checkAt k .comma)
  return ((← check .kwVar) && (← listed 2)) || ((← check .identifier) && (← listed 1))

/-- What a counting loop starts with. -/
def loopInitializer : Parse (Option Stmt) := do
  if ← eat .semicolon then return none
  let (start, line) ← startPos
  let kind ← if ← check .kwVar then
      inNode .varDeclaration (StmtKind.varDecl <$> varDeclaration rules {})
    else inNode .expressionStatement (StmtKind.expression <$> rules.call .expression)
  let init : Stmt := ⟨kind, ← spanFrom start, line⟩
  if (← previous).kind != .semicolon then
    let _ ← consume .semicolon "Expected ';' after loop initializer."
  return some init

/-- An expression unless the token that ends it comes first. -/
def exprUnless (close : Token.Kind) : Parse (Option Expr) := do
  if ← check close then return none else return some (← rules.call .expression)

/-- A counting loop, or a loop over the elements of something. -/
def forStatement : Parse StmtKind := do
  let _ ← advance
  let _ ← consume .leftParen "Expected '(' after 'for'."
  if ← startsLoopHeader then
    let (vars, iterable) ← loopHeader rules
    let _ ← consume .rightParen "Expected ')' after for clauses."
    return .forEach vars iterable (← bodyStatement rules "for")
  else
    let init ← loopInitializer rules
    let condition ← exprUnless rules .semicolon
    let _ ← consume .semicolon "Expected ';' after loop condition."
    let increment ← exprUnless rules .rightParen
    let _ ← consume .rightParen "Expected ')' after for clauses."
    return .forLoop init condition increment (← bodyStatement rules "for")

/-- A loop with a condition. -/
def whileStatement : Parse StmtKind := do
  let _ ← advance
  let _ ← consume .leftParen "Expected '(' after 'while'."
  let condition ← rules.call .expression
  let _ ← consume .rightParen "Expected ')' after while condition."
  return .whileLoop condition (← bodyStatement rules "while")

/-- A loop over the elements of something, under its own keyword. -/
def iterStatement : Parse StmtKind := do
  let _ ← advance
  let _ ← consume .leftParen "Expected '(' after 'iter'."
  let (vars, iterable) ← loopHeader rules
  let _ ← consume .rightParen "Expected ')' after iter clauses."
  return .iterLoop vars iterable (← bodyStatement rules "iter")

/-- A return, perhaps with a value. -/
def returnStatement : Parse StmtKind := do
  let _ ← advance
  let value ← match (← peek).kind with
    | .semicolon | .rightBrace | .eof => pure none
    | _ => some <$> rules.call .expression
  let _ ← eat .semicolon
  return .returns value

/-! ## Concurrency -/

/-- Changes the setting with the given name; none if there is no such setting. -/
def setting? (settings : ConcurrencySettings) (name value : String) : Option ConcurrencySettings :=
  match name with
  | "ch" => some { settings with channel := some value }
  | "mode" => some { settings with mode := value }
  | "cores" => some { settings with cores := value }
  | "on_error" => some { settings with onError := value }
  | "timeout" => some { settings with timeout := value }
  | "grace" => some { settings with grace := value }
  | "on_timeout" => some { settings with onTimeout := value }
  | _ => none

/-- The value of a setting: a string, a number or a name. -/
def settingValue : Parse String := do
  match (← peek).kind with
  | .string => return (← advance).text
  | .identifier | .intLiteral | .floatLiteral | .scientificLiteral => return (← advance).lexeme
  | _ => fail "Expected string, number, or identifier as parameter value"

/-- One setting. A name with a type is read and left out of account. -/
def concurrencySetting (settings : ConcurrencySettings) : Parse ConcurrencySettings := do
  let key ← consume .identifier "Expected parameter name"
  let settings ← if ← eat .colon then do
      let _ ← rules.call .type
      pure settings
    else do
      let _ ← consume .equal "Expected '=' or ':' after parameter name"
      let value ← settingValue
      match setting? settings key.lexeme value with
      | some settings => pure settings
      | none => do
        reportAt key ("Unknown parameter: " ++ key.lexeme)
        pure settings
  if !(← eat .comma) && !(← check .rightParen) then
    fail "Expected ',' or ')' after parameter"
  return settings

/-- The settings of a concurrency block, which may be left out with their parentheses. -/
def concurrencySettings (defaults : ConcurrencySettings) : Parse ConcurrencySettings := do
  if ← eat .leftParen then
    let settings ← repeatUpTo (fun settings => do
      if (← check .rightParen) || (← atEnd) then return (settings, false)
      return (← concurrencySetting rules settings, true)) rules.bound defaults
    let _ ← consume .rightParen "Expected ')' after parameters"
    return settings
  else return defaults

/-- The settings and the body of a concurrency block. Tasks and workers are known only in there. -/
def concurrencyBlock (keyword : String) (defaults : ConcurrencySettings) :
    Parse (ConcurrencySettings × Block) := do
  let _ ← advance
  let settings ← concurrencySettings rules defaults
  let body ← concurrently (block rules keyword ("Expected '\x7b' after '" ++ keyword ++ "'."))
  return (settings, body)

/-- A task for every element of something. -/
def taskStatement : Parse StmtKind := do
  let _ ← advance
  let _ ← advance
  let var ← if (← check .identifier) && (← checkAt 1 .kwIn) then do
      let name := (← advance).lexeme
      let _ ← advance
      pure (some name)
    else pure none
  let iterable ← rules.call .expression
  let _ ← consume .rightParen "Expected ')' after task header."
  return .task var iterable (← block rules "task" "Expected '\x7b' after task header.")

/-- A worker, perhaps with a parameter. -/
def workerStatement : Parse StmtKind := do
  let _ ← advance
  let _ ← advance
  let param ← if ← check .identifier then pure (some (← advance).lexeme) else pure none
  let _ ← consume .rightParen "Expected ')' after worker parameter."
  return .worker param (← block rules "worker" "Expected '\x7b' after worker header.")

/-! ## Matches and contracts -/

def matchCase : Parse MatchCase := inNode .matchCase do
  let pattern ← rules.call .pattern
  let guard ← after .kwWhere (rules.call .expression)
  let _ ← consume .arrow "Expected '=>' after match pattern."
  let body ← rules.call .statement
  let _ ← eat .comma
  return ⟨pattern, guard, body⟩

/-- A match. -/
def matchStatement : Parse StmtKind := do
  let _ ← advance
  let _ ← consume .leftParen "Expected '(' after 'match'."
  let scrutinee ← rules.call .expression
  let _ ← consume .rightParen "Expected ')' after match expression."
  let brace ← consume .leftBrace "Expected '\x7b' before match cases."
  let cases ← inBody "match" brace do
    let cases ← repeatUpTo (fun cases => do
      if ← bodyEnds then return (cases, false)
      return ((← matchCase rules) :: cases, true)) rules.bound []
    let _ ← closeBlock "Expected '\x7d' after match cases."
    return cases
  return .matchCases scrutinee cases.reverse

/-- A condition that must hold, and perhaps what to say if it does not. -/
def contractStatement : Parse StmtKind := do
  let _ ← advance
  let _ ← consume .leftParen "Expected '(' after 'contract'."
  let condition ← rules.call .expression
  let message ← after .comma (rules.call .expression)
  let _ ← consume .rightParen "Expected ')' after contract condition."
  let _ ← consume .semicolon "Expected ';' after contract statement."
  return .contract condition message

/-! ## Statements -/

/-- The kind of tree node for a statement that starts with the given tokens. -/
def statementNode (concurrent : Bool) (first second : Token) : Tree.Kind :=
  match first.kind with
  | .kwPrint => .printStatement
  | .kwIf => .ifStatement
  | .kwFor => .forStatement
  | .kwWhile => .whileStatement
  | .kwIter => .iterStatement
  | .leftBrace => .blockStatement
  | .kwReturn => .returnStatement
  | .kwBreak => .breakStatement
  | .kwContinue => .continueStatement
  | .kwParallel => .parallelStatement
  | .kwConcurrent => .concurrentStatement
  | .kwMatch => .matchStatement
  | .kwUnsafe => .unsafeStatement
  | .kwContract => .contractStatement
  | .kwComptime => .comptimeStatement
  | .identifier =>
    if concurrent && second.kind == .leftParen then
      match first.lexeme with
      | "task" => .taskStatement
      | "worker" => .workerStatement
      | _ => .expressionStatement
    else .expressionStatement
  | _ => .expressionStatement

/-- A statement that makes a node of the given kind. -/
def statementOf : Tree.Kind → Parse StmtKind
  | .printStatement => printStatement rules
  | .ifStatement => ifRule rules
  | .forStatement => forStatement rules
  | .whileStatement => whileStatement rules
  | .iterStatement => iterStatement rules
  | .blockStatement => do
    let brace ← advance
    return .block (← blockBody rules brace "block")
  | .returnStatement => returnStatement rules
  | .breakStatement => do
    let _ ← advance
    let _ ← consume .semicolon "Expected ';' after 'break'."
    return .breaks
  | .continueStatement => do
    let _ ← advance
    let _ ← consume .semicolon "Expected ';' after 'continue'."
    return .continues
  | .parallelStatement => do
    let (settings, body) ← concurrencyBlock rules "parallel" { mode := "fork-join" }
    return .parallel settings body
  | .concurrentStatement => do
    let (settings, body) ← concurrencyBlock rules "concurrent" { mode := "batch" }
    return .concurrent settings body
  | .taskStatement => taskStatement rules
  | .workerStatement => workerStatement rules
  | .matchStatement => matchStatement rules
  | .unsafeStatement => do
    let _ ← advance
    return .unsafeBlock (← block rules "unsafe" "Expected '\x7b' after 'unsafe'.")
  | .contractStatement => contractStatement rules
  | .comptimeStatement => do
    let _ ← advance
    return .comptime (← rules.call .declaration)
  | _ => do
    let e ← exprRule rules
    let _ ← eat .semicolon
    return .expression e

def statementRule : Parse Stmt := do
  let (start, line) ← startPos
  let node := statementNode (← get).concurrent (← peek) (← peekAt 1)
  let kind ← inNode node (statementOf rules node)
  return ⟨kind, ← spanFrom start, line⟩

end

end LimitSyntax.Grammar
