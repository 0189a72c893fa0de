import LimitSyntax.Grammar.Type

/-!
# The grammar of patterns
-/

namespace LimitSyntax.Grammar

open Ast

/-- Errors every program knows. Their names make an error pattern, not a variable. -/
def builtinErrors : List String :=
  ["DivisionByZero", "IndexOutOfBounds", "NullReference", "TypeConversion", "IOError",
   "ParseError", "NetworkError", "Error"]

/-- The value of a literal token. -/
def literal? (t : Token) : Option Literal :=
  match t.kind with
  | .kwTrue => some (.bool true)
  | .kwFalse => some (.bool false)
  | .kwNil => some .nil
  | .intLiteral => some (.int t.lexeme)
  | .floatLiteral => some (.float t.lexeme)
  | .scientificLiteral => some (.scientific t.lexeme)
  | .string => some (.str t.text)
  | _ => none

/-- The kind of tree node for a pattern that starts with the given tokens. -/
def patternNode? (first second : Token) : Option Tree.Kind :=
  match first.kind with
  | .kwVal => some .valPattern
  | .kwErr => some .errPattern
  | .underscore => some .wildcardPattern
  | .leftBracket => some .listPattern
  | .leftBrace => some .dictPattern
  | .leftParen => some .tuplePattern
  | .listType | .dictType => some .typePattern
  | .identifier =>
    if builtinErrors.contains first.lexeme then some .errorTypePattern
    else if second.kind == .leftParen then some .bindingPattern
    else some .identifierPattern
  | kind =>
    if kind.isPrimitiveType && kind != .kwNil then some .typePattern
    else if (literal? first).isSome then some .literalPattern
    else none

section
variable (rules : Rules)

/-- The parts of a list pattern read so far. -/
structure ListPatternParts where
  elements : List Pattern := []
  rest : Option String := none

/-- A list pattern. The rest of the list may be bound anywhere in it. -/
def listPattern : Parse PatternKind := do
  let _ ← advance
  let parts ← repeatUpTo (fun (parts : ListPatternParts) => do
    if (← check .rightBracket) || (← atEnd) then return (parts, false)
    let parts ← if ← eat .ellipsis then
        let name ← consumeName "Expected name after '...' in list pattern."
        pure { parts with rest := some name }
      else pure { parts with elements := parts.elements ++ [← rules.call .pattern] }
    return (parts, ← eat .comma)) rules.bound {}
  let _ ← consume .rightBracket "Expected ']' after list pattern."
  return .list parts.elements parts.rest

/-- The parts of a dictionary pattern read so far. -/
structure DictPatternParts where
  fields : List FieldBinding := []
  hasRest : Bool := false
  rest : Option String := none

/-- A field of a dictionary pattern. Without a name of its own the value goes by the key. -/
def fieldBinding : Parse FieldBinding := do
  let key ← consumeName "Expected field name in dict pattern."
  let binding ← after .colon (consumeName "Expected binding name after ':'.")
  return ⟨key, binding.getD key⟩

def dictPattern : Parse PatternKind := do
  let _ ← advance
  let parts ← repeatUpTo (fun (parts : DictPatternParts) => do
    if (← check .rightBrace) || (← atEnd) then return (parts, false)
    let parts ← if ← eat .ellipsis then
        if ← check .identifier then
          pure { parts with hasRest := true, rest := some (← advance).lexeme }
        else pure { parts with hasRest := true }
      else pure { parts with fields := parts.fields ++ [← fieldBinding] }
    return (parts, ← eat .comma)) rules.bound {}
  consumeClose .rightBrace "Expected '\x7d' after dict pattern."
  return .dict parts.fields parts.hasRest parts.rest

/-- A built-in error and the names of its fields. -/
def errorTypePattern : Parse PatternKind := do
  let type := (← advance).lexeme
  if ← eat .leftParen then
    let (params, _) ← commaList rules .rightParen
      (consumeName "Expected parameter name in error pattern.")
    let _ ← consume .rightParen "Expected ')' after error type parameters."
    return .errorType type params
  else return .errorType type []

def tuplePattern : Parse PatternKind := do
  let _ ← advance
  let (elements, _) ← commaList rules .rightParen (rules.call .pattern)
  let _ ← consume .rightParen "Expected ')' after tuple pattern."
  return .tuple elements

/-- The name of a variant and the variable its content is bound to. -/
def bindingPattern : Parse PatternKind := do
  let type := (← advance).lexeme
  let _ ← advance
  let name ← consumeName "Expected variable name in binding pattern."
  let _ ← consume .rightParen "Expected ')' after binding pattern."
  return .binding type name

/-- A pattern that makes a node of the given kind. -/
def patternOf (node : Tree.Kind) (first : Token) : Parse PatternKind := do
  match node with
  | .valPattern =>
    let _ ← advance
    return .value (← consumeName "Expected variable name after 'val'.")
  | .errPattern =>
    let _ ← advance
    let name ← consumeName "Expected identifier after 'err'."
    return .error name (if builtinErrors.contains name then some name else none)
  | .errorTypePattern => errorTypePattern rules
  | .wildcardPattern =>
    let _ ← advance
    return .wildcard
  | .listPattern => listPattern rules
  | .dictPattern => dictPattern rules
  | .tuplePattern => tuplePattern rules
  | .bindingPattern => bindingPattern
  | .identifierPattern => return .identifier (← advance).lexeme
  | _ =>
    let _ ← advance
    return .literal ((literal? first).getD .nil)

def patternRule : Parse Pattern := do
  let (start, line) ← startPos
  let first ← peek
  match patternNode? first (← peekAt 1) with
  | none => fail "Expected pattern in match case."
  | some .typePattern =>
    let c ← checkpoint
    let type ← patternType rules
    inNodeAt c .typePattern (return ())
    return ⟨.type type, ← spanFrom start, line⟩
  | some node =>
    let kind ← inNode node (patternOf rules node first)
    return ⟨kind, ← spanFrom start, line⟩

end

end LimitSyntax.Grammar
