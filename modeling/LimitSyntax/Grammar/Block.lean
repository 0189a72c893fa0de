import LimitSyntax.Grammar.Type

/-!
# Bodies, parameters and variables

The parts that expressions, statements and declarations share.
-/

namespace LimitSyntax.Grammar

open Ast

section
variable (rules : Rules)

/-! ## Bodies -/

/-- Reads one declaration of a list. If it reads nothing, a token is skipped, the closing brace
apart. -/
def nextDeclaration : Parse (Option Stmt) := do
  let before := (← get).position
  let stmt ← rules.call .recovered
  if (← get).position = before && !(← check .rightBrace) then
    let _ ← advance
  return stmt

/-- One turn of the reading of a body, and whether it goes on. -/
def bodyTurn (stmts : List Stmt) : Parse (List Stmt × Bool) := do
  if ← bodyEnds then return (stmts, false)
  return ((← nextDeclaration rules).toList ++ stmts, true)

/-- Declarations up to the end of a body. -/
def declarations : Parse (List Stmt) := do
  let stmts ← repeatUpTo (bodyTurn rules) rules.bound []
  return stmts.reverse

/-- A body after its opening brace. -/
def blockBody (brace : Token) (kind : String) : Parse Block := do
  let statements ← inBody kind brace <| deeper do
    let statements ← declarations rules
    let _ ← closeBlock "Expected '\x7d' after block."
    return statements
  return ⟨statements, ← spanFrom brace.span.start, brace.line⟩

/-- A body with its braces. -/
def block (kind description : String) : Parse Block := inNode .blockStatement do
  let brace ← consume .leftBrace description
  blockBody rules brace kind

/-! ## Parameters -/

/-- A parameter: a name, and perhaps a type and a default value. -/
def parameter : Parse Param := do
  let (start, _) ← startPos
  let (name, type, default?) ← inNode .parameter do
    let name ← consumeName "Expected parameter name."
    let type ← after .colon (rules.call .type)
    let default? ← after .equal (rules.call .expression)
    return (name, type, default?)
  return ⟨name, type, default?, ← spanFrom start⟩

/-- Parameters in parentheses: first those a call must give, then those it may leave out. -/
def parameters : Parse (List Param × List Param) := inNode .parameterList do
  let _ ← consume .leftParen "Expected '(' before parameters."
  let params ← if ← check .rightParen then pure [] else commaSeparated rules (parameter rules)
  let _ ← consume .rightParen "Expected ')' after parameters."
  return (params.filter (!·.isOptional), params.filter (·.isOptional))

/-! ## Variables -/

/-- The words in front of a declaration. -/
structure Modifiers where
  visibility : Visibility := .owner
  isStatic : Bool := false
  isAbstract : Bool := false
  isFinal : Bool := false
  isConst : Bool := false
  isData : Bool := false
  isOpen : Bool := false

/-- A variable. A constant needs no keyword. -/
def varDeclaration (mods : Modifiers) : Parse VarDecl := do
  let _ ← eat .kwVar
  let name ← consumeName "Expected variable name."
  describe name
  let type ← after .colon (rules.call .type)
  let initializer ← after .equal (rules.call .expression)
  let _ ← eat .semicolon
  return ⟨name, type, initializer, mods.visibility, mods.isStatic, mods.isConst⟩

end

end LimitSyntax.Grammar
