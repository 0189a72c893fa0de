import LimitSyntax.Grammar.Parse

/-!
# The grammar of types
-/

namespace LimitSyntax.Grammar

open Ast

/-- Names that, first in braces, make a dictionary type and not a record. -/
def builtinTypeNames : List String :=
  ["any", "str", "int", "float", "bool", "list", "dict", "option", "result", "i8", "i16", "i32",
   "i64", "u8", "u16", "u32", "u64", "f32", "f64", "uint", "nil", "tuple", "function"]

/-- Names that no parameter of a function type may have. -/
def reservedParamNames : List String :=
  ["int", "uint", "float", "str", "string", "bool", "any", "nil", "list", "dict", "array",
   "function", "option", "result", "channel", "atomic"]

/-- Whether a token names a built-in type. -/
def namesBuiltinType (t : Token) : Bool :=
  t.kind.isPrimitiveType || builtinTypeNames.contains t.lexeme

/-- Whether a token may name a field of a record: a name or a keyword. -/
def namesField (t : Token) : Bool :=
  t.kind == .identifier || t.kind.spelling?.any fun text => text.toList.all Token.isWordChar

section
variable (rules : Rules)

/-- A list type; the type of the elements may be left out. -/
def listType : Parse TypeKind := do
  let _ ← advance
  let element ← if ← check .rightBracket then pure none else some <$> rules.call .type
  let _ ← consume .rightBracket "Expected ']' after list element type."
  return .list element

/-- A tuple type, or a type in parentheses. -/
def tupleType : Parse TypeExpr := do
  let (start, line) ← startPos
  let _ ← advance
  let (members, comma) ← commaList rules .rightParen (rules.call .type)
  let _ ← consume .rightParen "Expected ')' after tuple types."
  match members, comma with
  | [inner], false => return inner
  | _, _ => return .plain (.tuple members) (← spanFrom start) line

def dictType : Parse TypeKind := do
  let _ ← advance
  let key ← rules.call .basicType
  let _ ← consume .colon "Expected ':' in dictionary type."
  let value ← rules.call .type
  consumeClose .rightBrace "Expected '\x7d' after dictionary type."
  return .dict key value

/-- The name of a field of a record type. -/
def typeFieldName : Parse String := do
  let t ← peek
  if t.kind == .string then return (← advance).text
  else if namesField t then return (← advance).lexeme
  else fail "Expected field name in structural type."

/-- The fields of a record type read so far. -/
structure RecordParts where
  fields : List TypeField := []
  hasRest : Bool := false
  bases : List String := []

/-- A field or a base of a record type, and the comma that may follow it. -/
def recordPart (parts : RecordParts) : Parse RecordParts := do
  let parts ← if ← eat .ellipsis then
      if ← check .identifier then
        pure { parts with hasRest := true, bases := parts.bases ++ [(← advance).lexeme] }
      else pure { parts with hasRest := true }
    else do
      let name ← typeFieldName
      let _ ← consume .colon "Expected ':' after field name."
      let type ← rules.call .type
      pure { parts with fields := parts.fields ++ [⟨name, type⟩] }
  let _ ← eat .comma
  return parts

/-- A record type. Commas between its fields may be left out. -/
def recordType (start line : Nat) : Parse TypeExpr := do
  let _ ← advance
  let parts ← repeatUpTo (fun parts => do
    if (← check .rightBrace) || (← atEnd) then return (parts, false)
    return (← recordPart rules parts, true)) rules.bound {}
  consumeClose .rightBrace "Expected '\x7d' after structural type."
  return .plain (.record parts.fields parts.hasRest parts.bases) (← spanFrom start) line

/-- Whether a parameter of a function type starts with its name. -/
def startsWithParamName : Parse Bool := do
  return (← check .identifier) &&
    ((← checkAt 1 .colon) || ((← checkAt 1 .question) && (← checkAt 2 .colon)))

/-- A parameter of a function type, with or without a name. -/
def typeParam : Parse TypeParam := inNode .parameter do
  if ← startsWithParamName then
    let token ← advance
    let optional ← eat .question
    let _ ← consume .colon "Expected ':' after parameter name."
    let reserved := reservedParamNames.contains token.lexeme
    if reserved then reportAt token ("Invalid parameter name: " ++ token.lexeme)
    let type ← rules.call .type
    return ⟨if reserved then none else some token.lexeme, type, optional⟩
  else
    return ⟨none, ← rules.call .type, false⟩

/-- The parameters of a function type and the parenthesis after them. -/
def typeParams : Parse (List TypeParam) := do
  let (params, _) ← commaList rules .rightParen (typeParam rules)
  let _ ← consume .rightParen "Expected ')' after function parameters."
  return params

/-- A function type. A function without a result type returns nothing. -/
def functionType : Parse TypeKind := do
  let _ ← advance
  let _ ← consume .leftParen "Expected '(' after 'fn' in function type."
  let params ← typeParams rules
  let result ← if ← eat .colon then rules.call .type else do
    let last ← previous
    pure (TypeExpr.plain (.primitive "nil") (.empty last.span.stop) last.line)
  return .function params (some result)

/-- A function type under the keyword `function`, where parameters and result may be left out. -/
def keywordFunctionType : Parse TypeKind := do
  let _ ← advance
  let params ← if ← eat .leftParen then typeParams rules else pure []
  let result ← after .colon (rules.call .basicType)
  return .function params result

/-- The kind of tree node for a type that starts with the given tokens. -/
def typeNode? (first second : Token) : Option Tree.Kind :=
  match first.kind with
  | .leftBracket | .listType | .arrayType => some .listType
  | .leftParen => some .tupleType
  | .leftBrace => some (if namesBuiltinType second then .dictType else .structuralType)
  | .dictType => some .dictType
  | .kwFn | .functionType => some .functionType
  | .string => some .literalType
  | .identifier | .optionType => some .namedType
  | kind => if kind.isPrimitiveType then some .primitiveType else none

/-- A type without parentheses or record fields around it. -/
def simpleType (kind : Token.Kind) : Parse TypeKind := do
  match kind with
  | .leftBracket => listType rules
  | .listType =>
    let _ ← advance
    return .list none
  | .arrayType =>
    let _ ← advance
    return .array
  | .leftBrace => dictType rules
  | .dictType =>
    let _ ← advance
    return .anyDict
  | .kwFn => functionType rules
  | .functionType => keywordFunctionType rules
  | .string => return .literal ("\x22" ++ (← advance).text ++ "\x22")
  | .identifier | .optionType => return .named (← advance).lexeme
  | _ => return .primitive (← advance).lexeme

/-- The error types after a question mark, the first of them next. A comma before the name of a
parameter is not theirs. -/
def errorTypes : Parse (List String) := do
  let first ← advance
  repeatUpTo (fun names => do
    if ← eatBefore .comma (fun t u => t.kind == .identifier && u.kind != .colon) then
      return (names ++ [(← advance).lexeme], true)
    else return (names, false)) rules.bound [first.lexeme]

/-- The suffix of a type: optional, or fallible with the given errors. -/
def typeSuffix (t : TypeExpr) : Parse TypeExpr := do
  if ← eat .question then
    if ← check .identifier then
      return { t with errors := t.errors ++ (← errorTypes rules) }
    else return { t with optional := true }
  else return t

/-- One type with its suffix. -/
def basicTypeRule : Parse TypeExpr := do
  let (start, line) ← startPos
  let first ← peek
  match typeNode? first (← peekAt 1) with
  | none => fail "Expected type name."
  | some node =>
    let t ← inNode node do
      let t ← match node with
        | .tupleType => tupleType rules
        | .structuralType => recordType rules start line
        | _ => do
          let kind ← simpleType rules first.kind
          pure (TypeExpr.plain kind (← spanFrom start) line)
      typeSuffix rules t
    return { t with span := ← spanFrom start }

/-- The members of a union or intersection after the first. -/
def typeMembers (separator : Token.Kind) (first : TypeExpr) : Parse (List TypeExpr) := do
  let members ← repeatUpTo (fun members => do
    if ← eat separator then return ((← basicTypeRule rules) :: members, true)
    else return (members, false)) rules.bound [first]
  return members.reverse

/-- A union, an intersection, or one type, which a condition may refine where that is allowed. -/
def typeWith (refinable : Bool) : Parse TypeExpr := do
  let c ← checkpoint
  let (start, line) ← startPos
  let first ← basicTypeRule rules
  match (← peek).kind with
  | .pipe =>
    let members ← inNodeAt c .unionType (typeMembers rules .pipe first)
    return .plain (.union members) (← spanFrom start) line
  | .kwAnd =>
    let members ← inNodeAt c .intersectionType (typeMembers rules .kwAnd first)
    return .plain (.intersection members) (← spanFrom start) line
  | .kwWhere =>
    if refinable then
      let condition ← inNodeAt c .refinedType do
        let _ ← advance
        rules.call .expression
      return { first with refinement := some condition, span := ← spanFrom start }
    else return first
  | _ => return first

def typeRule : Parse TypeExpr := typeWith rules true

/-- A type in a pattern, where a condition belongs to the case. -/
def patternType : Parse TypeExpr := typeWith rules false

end

end LimitSyntax.Grammar
