import LimitSyntax.Grammar.Block
import LimitSyntax.Grammar.Pattern

/-!
# The grammar of expressions

From the loosest to the tightest: assignment, `or`, `and`, equality, comparison or range, sums,
products, powers, signs, and what follows a primary expression.
-/

namespace LimitSyntax.Grammar

open Ast

/-! ## Operators

Which operator of its level a token stands for. -/

def orOp? : Token.Kind → Option BinaryOp
  | .kwOr => some .or
  | _ => none

def andOp? : Token.Kind → Option BinaryOp
  | .kwAnd => some .and
  | _ => none

def equalityOp? : Token.Kind → Option BinaryOp
  | .equalEqual => some .eq
  | .bangEqual => some .ne
  | _ => none

def comparisonOp? : Token.Kind → Option BinaryOp
  | .less => some .lt
  | .lessEqual => some .le
  | .greater => some .gt
  | .greaterEqual => some .ge
  | _ => none

def sumOp? : Token.Kind → Option BinaryOp
  | .plus => some .add
  | .minus => some .sub
  | _ => none

def productOp? : Token.Kind → Option BinaryOp
  | .star => some .mul
  | .slash => some .div
  | .modulus => some .mod
  | _ => none

def unaryOp? : Token.Kind → Option UnaryOp
  | .bang => some .not
  | .minus => some .neg
  | .plus => some .plus
  | _ => none

def assignOp? : Token.Kind → Option AssignOp
  | .equal => some .assign
  | .plusEqual => some .addAssign
  | .minusEqual => some .subAssign
  | .starEqual => some .mulAssign
  | .slashEqual => some .divAssign
  | .modulusEqual => some .modAssign
  | _ => none

/-- A binary expression over its operands. -/
def binary (left : Expr) (op : BinaryOp) (right : Expr) : Expr :=
  ⟨.binary left op right, left.span.cover right.span, left.line⟩

/-- An expression from `start` to the last token read. -/
def exprFrom (kind : ExprKind) (start line : Nat) : Parse Expr := do
  return ⟨kind, ← spanFrom start, line⟩

section
variable (rules : Rules)

/-! ## Arguments -/

/-- An argument of a call. -/
inductive Argument where
  | positional (e : Expr)
  | named (name : String) (e : Expr)

def Argument.positional? : Argument → Option Expr
  | .positional e => some e
  | .named .. => none

def Argument.named? : Argument → Option (String × Expr)
  | .positional _ => none
  | .named name e => some (name, e)

/-- A name before an equals sign makes an argument a named one. -/
def argument : Parse Argument := do
  if (← check .identifier) && (← checkAt 1 .equal) then
    let name := (← advance).lexeme
    let _ ← advance
    return .named name (← rules.call .expression)
  else return .positional (← rules.call .expression)

/-- The arguments of a call in their parentheses. -/
def callArguments : Parse (List Expr × List (String × Expr)) := inNode .argumentList do
  let _ ← advance
  let args ← if ← check .rightParen then pure [] else commaSeparated rules (argument rules)
  let _ ← consume .rightParen "Expected ')' after arguments."
  return (args.filterMap Argument.positional?, args.filterMap Argument.named?)

/-- Positional arguments in their parentheses. -/
def arguments : Parse (List Expr) := inNode .argumentList do
  let _ ← advance
  let args ← if ← check .rightParen then pure []
    else commaSeparated rules (rules.call .expression)
  let _ ← consume .rightParen "Expected ')' after arguments."
  return args

/-! ## Primary expressions -/

/-- A string with interpolations: text and expressions in turn. -/
def interpolatedString : Parse ExprKind := do
  let parts ← repeatUpTo (fun parts => do
    if ← check .interpolationStart then
      let text := (← advance).text
      let e ← rules.call .expression
      consumeClose .interpolationEnd "Expected '\x7d' after interpolation expression."
      return (.expr e :: .str text :: parts, true)
    else return (parts, false)) rules.bound []
  let parts ← if ← check .string then pure (.str (← advance).text :: parts) else pure parts
  return .interpolated parts.reverse

def objectField : Parse (String × Expr) := do
  let name ← consumeName "Expected field name in object literal."
  let _ ← consume .colon "Expected ':' after field name."
  return (name, ← rules.call .expression)

/-- The name of a type and the fields of an object in braces. -/
def objectLiteral : Parse ExprKind := do
  let name := (← advance).lexeme
  let _ ← advance
  let (fields, _) ← commaList rules .rightBrace (objectField rules)
  consumeClose .rightBrace "Expected '\x7d' after object literal fields."
  return .object name fields

def errorValue : Parse ExprKind := do
  let _ ← advance
  let _ ← consume .leftParen "Expected '(' after 'err'."
  let type ← consumeName "Expected error type name."
  let args ← if ← check .leftParen then arguments rules else pure []
  let _ ← consume .rightParen "Expected ')' after error construction."
  return .errorValue type args

/-- A value that is not an error. -/
def okValue : Parse ExprKind := do
  let _ ← advance
  let _ ← consume .leftParen "Expected '(' after 'ok'."
  let value ← rules.call .expression
  let _ ← consume .rightParen "Expected ')' after ok value."
  return .okValue value

/-- A function without a name. -/
def lambda : Parse ExprKind := do
  let _ ← advance
  if !(← check .leftParen) then fail "Expected '(' after 'fn' in lambda."
  let (required, optional) ← parameters rules
  let result ← after .colon (rules.call .type)
  let body ← block rules "function" "Expected '\x7b' before lambda body."
  return .lambda (required ++ optional) result body

/-- A tuple or an expression in parentheses. -/
def parenthesized : Parse Expr := do
  let c ← checkpoint
  let (start, line) ← startPos
  let _ ← advance
  if ← eat .rightParen then
    inNodeAt c .tupleExpr (return ())
    exprFrom (.tuple []) start line
  else
    let first ← rules.call .expression
    if ← check .comma then
      let elements ← inNodeAt c .tupleExpr do
        let elements ← repeatUpTo (fun elements => do
          if ← eat .comma then
            if ← check .rightParen then return (elements, false)
            else return ((← rules.call .expression) :: elements, true)
          else return (elements, false)) rules.bound [first]
        let _ ← consume .rightParen "Expected ')' after tuple elements."
        return elements.reverse
      exprFrom (.tuple elements) start line
    else
      inNodeAt c .groupingExpr do
        let _ ← consume .rightParen "Expected ')' after expression."
      exprFrom (.grouping first) start line

def listLiteral : Parse ExprKind := do
  let _ ← advance
  let (elements, _) ← commaList rules .rightBracket (rules.call .expression)
  let _ ← consume .rightBracket "Expected ']' after list elements."
  return .list elements

def dictEntry : Parse (Expr × Expr) := do
  let key ← rules.call .expression
  let _ ← consume .colon "Expected ':' after dictionary key."
  return (key, ← rules.call .expression)

def dictLiteral : Parse ExprKind := do
  let _ ← advance
  let (entries, _) ← commaList rules .rightBrace (dictEntry rules)
  consumeClose .rightBrace "Expected '\x7d' after dictionary entries."
  return .dict entries

/-- The place of an expression that is not there, because what ends it comes first. -/
def missingExpr (start line : Nat) : Parse Expr := do
  reportHere "Expected expression."
  inNode .missing (return ())
  return ⟨.missing, .empty start, line⟩

/-- An expression that no operator takes apart. -/
def primary : Parse Expr := do
  let (start, line) ← startPos
  let token ← peek
  let one (node : Tree.Kind) (p : Parse ExprKind) : Parse Expr := do
    let kind ← inNode node p
    exprFrom kind start line
  let word (kind : ExprKind) : Parse ExprKind := do
    let _ ← advance
    return kind
  match literal? token with
  | some value => one .literalExpr (word (.literal value))
  | none =>
    match token.kind with
    | .interpolationStart => one .interpolatedStringExpr (interpolatedString rules)
    | .kwThis | .kwSelf => one .thisExpr (word .self)
    | .kwSuper => one .superExpr (word .super)
    | .identifier =>
      if ← checkAt 1 .leftBrace then one .objectLiteralExpr (objectLiteral rules)
      else one .variableExpr (word (.variable token.lexeme))
    | .kwErr => one .errorConstructExpr (errorValue rules)
    | .kwOk => one .okConstructExpr (okValue rules)
    | .kwFn => one .lambdaExpr (lambda rules)
    | .leftParen => parenthesized rules
    | .leftBracket => one .listExpr (listLiteral rules)
    | .leftBrace => one .dictExpr (dictLiteral rules)
    | .error =>
      modify ({ · with lastError := some ("Unexpected token '" ++ token.lexeme ++ "'") })
      giveUp
    | .semicolon | .rightParen | .rightBrace | .rightBracket | .eof => missingExpr start line
    | _ => fail "Expected expression."

/-! ## What follows a primary expression -/

/-- The number of an element of a tuple. -/
def tupleIndex : Parse Expr := do
  let token ← advance
  if !(token.kind == .intLiteral && (Text.word? token.lexeme).isSome) then
    reportAt token ("Invalid tuple index: " ++ token.lexeme)
  return ⟨.literal (.int token.lexeme), token.span, token.line⟩

/-- What to do if an expression fails: a statement, and perhaps a name for the error. -/
def failureHandler : Parse (Option String × Option Stmt) := do
  if ← eat .kwElse then
    let name ← if (← check .identifier) && (← checkAt 1 .leftBrace) then
        pure (some (← advance).lexeme)
      else pure none
    return (name, some (← rules.call .statement))
  else return (none, none)

/-- The next thing applied to `e`, which is the node opened at the checkpoint. -/
def applied? (c : Option Tree.Checkpoint) (e : Expr) : Parse (Option ExprKind) := do
  match (← peek).kind with
  | .leftParen => some <$> inNodeAt c .callExpr do
    let (args, named) ← callArguments rules
    return .call e args named
  | .dot =>
    if (← peekAt 1).kind.isNumber then some <$> inNodeAt c .indexExpr do
      let _ ← advance
      return .index e (← tupleIndex)
    else some <$> inNodeAt c .memberExpr do
      let _ ← advance
      return .member e (← consumeName "Expected property name after '.'.")
  | .leftBracket => some <$> inNodeAt c .indexExpr do
    let _ ← advance
    let index ← rules.call .expression
    let _ ← consume .rightBracket "Expected ']' after index."
    return .index e index
  | .question => some <$> inNodeAt c .fallibleExpr do
    let _ ← advance
    let (name, handler) ← failureHandler rules
    return .fallible e name handler
  | _ => return none

/-- A primary expression with all that is applied to it. -/
def callRule : Parse Expr := do
  let c ← checkpoint
  let (start, line) ← startPos
  let first ← primary rules
  repeatUpTo (fun e => do
    match ← applied? rules c e with
    | some kind => return (← exprFrom kind start line, true)
    | none => return (e, false)) rules.bound first

/-! ## Operators and their operands -/

/-- A sign and its operand. -/
def unaryRule : Parse Expr := do
  match unaryOp? (← peek).kind with
  | none => callRule rules
  | some op =>
    let (start, line) ← startPos
    let operand ← inNode .unaryExpr do
      let _ ← advance
      rules.call .unary
    exprFrom (.unary op operand) start line

/-- A power. The operator associates to the right, and its base may have a sign. -/
def powerRule : Parse Expr := do
  let c ← checkpoint
  let base ← unaryRule rules
  if ← check .power then
    let exponent ← inNodeAt c .binaryExpr do
      let _ ← advance
      rules.call .power
    return binary base .pow exponent
  else return base

/-- Operands with operators between them, grouped from the left after `left`. -/
def operators (op? : Token.Kind → Option BinaryOp) (operand : Parse Expr)
    (c : Option Tree.Checkpoint) (left : Expr) : Parse Expr :=
  repeatUpTo (fun left => do
    match op? (← peek).kind with
    | some op =>
      let right ← inNodeAt c .binaryExpr do
        let _ ← advance
        operand
      return (binary left op right, true)
    | none => return (left, false)) rules.bound left

/-- Operands with operators between them, grouped from the left. -/
def leftAssociative (op? : Token.Kind → Option BinaryOp) (operand : Parse Expr) : Parse Expr := do
  let c ← checkpoint
  operators rules op? operand c (← operand)

def product : Parse Expr := leftAssociative rules productOp? (powerRule rules)

def sum : Parse Expr := leftAssociative rules sumOp? (product rules)

/-- Comparisons, or one range. -/
def comparison : Parse Expr := do
  let c ← checkpoint
  let (start, line) ← startPos
  let left ← sum rules
  if ← check .range then
    let last ← inNodeAt c .rangeExpr do
      let _ ← advance
      sum rules
    exprFrom (.range left last) start line
  else operators rules comparisonOp? (sum rules) c left

def equality : Parse Expr := leftAssociative rules equalityOp? (comparison rules)

def conjunction : Parse Expr := leftAssociative rules andOp? (equality rules)

def disjunction : Parse Expr := leftAssociative rules orOp? (conjunction rules)

/-- The expression as the target of an assignment; none if it cannot be assigned to. -/
def assignTarget? (e : Expr) : Option AssignTarget :=
  match e.kind with
  | .variable name => some (.variable name)
  | .member object name => some (.member object name)
  | .index object index => some (.index object index)
  | _ => none

/-- An expression. Assignments associate to the right. -/
def exprRule : Parse Expr := do
  let c ← checkpoint
  let left ← disjunction rules
  match assignOp? (← peek).kind with
  | none => return left
  | some op =>
    let (opToken, value) ← inNodeAt c .assignExpr do
      let opToken ← advance
      return (opToken, ← rules.call .expression)
    let target ← match assignTarget? left with
      | some target => pure target
      | none => do
        reportAt opToken "Invalid assignment target."
        pure (.invalid left)
    return ⟨.assign target op value, left.span.cover value.span, left.line⟩

end

end LimitSyntax.Grammar
