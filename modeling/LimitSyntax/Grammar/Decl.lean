import LimitSyntax.Grammar.Stmt

/-!
# The grammar of declarations
-/

namespace LimitSyntax.Grammar

open Ast

/-! ## Modifiers -/

/-- Whether a token of this kind is an annotation. -/
def isAnnotating : Token.Kind → Bool
  | .atPublic | .atPrivate | .atProtected | .atOpen | .atProperty | .atCache => true
  | _ => false

/-- The modifiers after one more word; none if the word is no modifier. -/
def Modifiers.add? (mods : Modifiers) : Token.Kind → Option Modifiers
  | .kwPub | .atPublic => some { mods with visibility := .everyone }
  | .atPrivate => some { mods with visibility := .owner }
  | .kwProt | .atProtected => some { mods with visibility := .heirs }
  | .kwConst => some { mods with isConst := true }
  | .kwStatic => some { mods with isStatic := true }
  | .kwAbstract => some { mods with isAbstract := true }
  | .kwFinal => some { mods with isFinal := true }
  | .kwData => some { mods with isData := true, isFinal := true }
  | .atOpen => some { mods with isOpen := true }
  | .atProperty | .atCache => some mods
  | _ => none

section
variable (rules : Rules)

/-- The modifiers in front of a declaration. Each annotation is a node of its own. -/
def modifiers : Parse Modifiers :=
  repeatUpTo (fun (mods : Modifiers) => do
    let kind := (← peek).kind
    match mods.add? kind with
    | none => return (mods, false)
    | some mods =>
      if isAnnotating kind then
        let _ ← inNode .annotated advance
      else
        let _ ← advance
      return (mods, true)) rules.bound {}

/-! ## Variables and functions -/

/-- Several variables set from one value. -/
def destructuring : Parse StmtKind := do
  let _ ← advance
  let _ ← advance
  let names ← commaSeparated rules (consumeName "Expected variable name in destructuring.")
  let _ ← consume .rightParen "Expected ')' after destructuring names."
  let _ ← consume .equal "Expected '=' after destructuring pattern."
  let initializer ← rules.call .expression
  let _ ← eat .semicolon
  return .destructuring names initializer

/-- The names of type parameters in brackets. -/
def genericNames : Parse (List String) := do
  if ← eat .leftBracket then
    let names ← commaSeparated rules (consumeName "Expected generic parameter name.")
    let _ ← consume .rightBracket "Expected ']' after generic parameters."
    return names
  else return []

/-- A function with a body, or its signature and a semicolon. -/
def functionDeclaration (mods : Modifiers) : Parse FunctionDecl := do
  let (start, line) ← startPos
  let _ ← advance
  let name ← consumeName "Expected function name."
  describe name
  let generics ← genericNames rules
  if !(← check .leftParen) then fail "Expected '(' after function name."
  let (params, optionalParams) ← parameters rules
  let result ← after .colon (rules.call .type)
  let body ← if ← eat .semicolon then pure none
    else some <$> block rules "function" "Expected '\x7b' before function body."
  return {
    name, generics, params, optionalParams, result, body
    visibility := mods.visibility
    isStatic := mods.isStatic
    isAbstract := mods.isAbstract
    isFinal := mods.isFinal
    span := ← spanFrom start
    line }

/-! ## Classes -/

/-- The constructor of a class with the given parameters and body. -/
def constructorOf (params : List Param × List Param) (body : Block) (span : Span) (line : Nat) :
    FunctionDecl :=
  { name := "init"
    generics := []
    params := params.1
    optionalParams := params.2
    result := none
    body := some body
    visibility := .everyone
    isStatic := false
    isAbstract := false
    isFinal := false
    span
    line }

/-- A constructor, written as a function with the name of its class. -/
def constructorParts : Parse ((List Param × List Param) × Block) := do
  let _ ← advance
  let params ← parameters rules
  return (params, ← block rules "function" "Expected '\x7b' before constructor body.")

/-- Whether a field of a class comes next. -/
def startsField (mods : Modifiers) : Parse Bool := do
  return (← check .kwVar) ||
    ((← check .identifier) && ((← checkAt 1 .colon) || (mods.isConst && (← checkAt 1 .equal))))

def classMember (c : ClassDecl) : Parse ClassDecl := do
  let mark ← checkpoint
  let mods ← modifiers rules
  if ← startsField mods then
    return c.addField (← inNodeAt mark .varDeclaration (varDeclaration rules mods))
  else if ← check .kwFn then
    return c.addMethod (← inNodeAt mark .functionDeclaration (functionDeclaration rules mods))
  else if (← check .identifier) && (← peek).lexeme == c.name && (← checkAt 1 .leftParen) then
    let (start, line) ← startPos
    let (params, body) ← inNodeAt mark .functionDeclaration (constructorParts rules)
    return c.addMethod (constructorOf params body (← spanFrom start) line)
  else fail "Expected class member declaration."

/-- The superclass and the arguments for its constructor. -/
def superclass : Parse (Option String × List Expr) := do
  if ← eat .colon then
    let name ← consumeName "Expected superclass name."
    let args ← if ← check .leftParen then arguments rules else pure []
    return (some name, args)
  else return (none, [])

/-- A class. Parameters in its header make a constructor, which is its last method. -/
def classDeclaration (mods : Modifiers) : Parse ClassDecl := do
  let (start, line) ← startPos
  let _ ← advance
  let name ← consumeName "Expected class name."
  describe name
  let inHeader ← check .leftParen
  let (required, optional) ← if inHeader then parameters rules else pure ([], [])
  let (base, superArgs) ← superclass rules
  let brace ← consume .leftBrace "Expected '\x7b' before class body."
  let c ← inBody "class" brace do
    let c ← repeatUpTo (fun c => do
      if ← bodyEnds then return (c, false)
      return (← classMember rules c, true)) rules.bound
      { name
        superclass := base
        superArgs
        ctorParams := required ++ optional
        fields := []
        methods := []
        isAbstract := mods.isAbstract
        isFinal := mods.isFinal
        isData := mods.isData
        tables := {} }
    let _ ← closeBlock "Expected '\x7d' after class body."
    return c
  if inHeader then return c.addMethod (c.headerConstructor (← spanFrom start) line)
  else return c

/-! ## Enumerations, aliases, traits and modules -/

/-- A variant of an enumeration, perhaps with a type in parentheses. -/
def enumVariant : Parse EnumVariant := inNode .enumVariant do
  let name ← consumeName "Expected enum variant name."
  let payload ← after .leftParen do
    let type ← rules.call .type
    let _ ← consume .rightParen "Expected ')' after variant type."
    return type
  return ⟨name, payload⟩

/-- An enumeration. -/
def enumDeclaration : Parse StmtKind := do
  let _ ← advance
  let name ← consumeName "Expected enum name."
  describe name
  let brace ← consume .leftBrace "Expected '\x7b' before enum body."
  let variants ← inBody "enum" brace do
    let (variants, _) ← commaList rules .rightBrace (enumVariant rules)
    let closed ← closeBlock "Expected '\x7d' after enum body."
    if !closed && !(← atEnd) then giveUp
    return variants
  return .enumDecl name variants

/-- A name for a type. -/
def typeDeclaration : Parse StmtKind := do
  let _ ← advance
  let name ← consumeName "Expected type name."
  let _ ← consume .equal "Expected '=' after type name."
  let type ← rules.call .type
  let _ ← eat .semicolon
  return .typeAlias name type

/-- The name, openness and methods of a trait or an interface. -/
def traitDeclaration (mods : Modifiers) (keyword : String) :
    Parse (String × Bool × List FunctionDecl) := do
  let _ ← advance
  let annotatedOpen ← check .atOpen
  if annotatedOpen then
    let _ ← inNode .annotated advance
  let name ← consumeName ("Expected " ++ keyword ++ " name.")
  describe name
  let brace ← consume .leftBrace ("Expected '\x7b' before " ++ keyword ++ " body.")
  let methods ← inBody keyword brace do
    let methods ← repeatUpTo (fun methods => do
      if ← bodyEnds then return (methods, false)
      if !(← check .kwFn) then fail ("Expected method declaration in " ++ keyword ++ ".")
      let method ← inNode .functionDeclaration (functionDeclaration rules {})
      return (method :: methods, true)) rules.bound []
    let _ ← closeBlock ("Expected '\x7d' after " ++ keyword ++ " body.")
    return methods
  return (name, mods.isOpen || annotatedOpen, methods.reverse)

/-- The members of a module read so far, last ones first. -/
structure ModuleParts where
  forEveryone : List Stmt := []
  forHeirs : List Stmt := []
  forOwner : List Stmt := []

/-- Adds a member that starts with a token of the given kind. -/
def ModuleParts.add (parts : ModuleParts) (kind : Token.Kind) (member : Option Stmt) :
    ModuleParts :=
  match kind with
  | .atPublic => { parts with forEveryone := member.toList ++ parts.forEveryone }
  | .atProtected => { parts with forHeirs := member.toList ++ parts.forHeirs }
  | _ => { parts with forOwner := member.toList ++ parts.forOwner }

/-- One turn of the reading of a module, and whether it goes on. -/
def moduleTurn (parts : ModuleParts) : Parse (ModuleParts × Bool) := do
  if ← bodyEnds then return (parts, false)
  let kind := (← peek).kind
  return (parts.add kind (← nextDeclaration rules), true)

/-- A module. The annotation a member starts with says who may use it. -/
def moduleDeclaration : Parse StmtKind := do
  let _ ← advance
  let name ← consumeName "Expected module name."
  describe name
  let brace ← consume .leftBrace "Expected '\x7b' before module body."
  let parts ← inBody "module" brace do
    let parts ← deeper <| repeatUpTo (moduleTurn rules) rules.bound {}
    let _ ← closeBlock "Expected '\x7d' after module body."
    return parts
  return .moduleDecl name parts.forEveryone.reverse parts.forHeirs.reverse parts.forOwner.reverse

/-! ## Imports -/

def importPath : Parse ImportPath := do
  let description := "Expected module path or string literal after 'import'."
  if ← eat .leftParen then
    let file ← consume .string description
    let _ ← consume .rightParen "Expected ')' after import path."
    return .file file.text
  else if ← check .string then return .file (← advance).text
  else if ← check .identifier then
    let first := (← advance).lexeme
    let parts ← repeatUpTo (fun parts => do
      if ← eat .dot then
        return ((← consumeName "Expected module path component.") :: parts, true)
      else return (parts, false)) rules.bound [first]
    return .dotted parts.reverse
  else fail description

/-- The names that are taken or left out. -/
def importFilter : Parse (Option ImportFilter) := do
  let kind? := match (← peek).kind with
    | .kwShow => some FilterKind.only
    | .kwHide => some .allBut
    | _ => none
  match kind? with
  | none => return none
  | some kind =>
    let keyword := (← advance).lexeme
    let names ← commaSeparated rules
      (consumeName ("Expected identifier after '" ++ keyword ++ "'."))
    return some ⟨kind, names⟩

def importDeclaration : Parse Import := do
  let _ ← advance
  let path ← importPath rules
  let alias? ← after .kwAs (consumeName "Expected alias name after 'as'.")
  let filter? ← importFilter rules
  let _ ← eat .semicolon
  return ⟨path, alias?, filter?⟩

/-! ## Declarations -/

/-- The kind of tree node for a declaration that starts with the given tokens; none if they start a
statement. -/
def declarationNode? (mods : Modifiers) (first second : Token) : Option Tree.Kind :=
  match first.kind with
  | .kwClass => some .classDeclaration
  | .kwFn => some .functionDeclaration
  | .kwVar =>
    some (if second.kind == .leftParen then .destructuringDeclaration else .varDeclaration)
  | .identifier => if mods.isConst then some .varDeclaration else none
  | .kwEnum => some .enumDeclaration
  | .kwImport => some .importStatement
  | .kwType => some .typeDeclaration
  | .kwTrait => some .traitDeclaration
  | .kwInterface => some .interfaceDeclaration
  | .kwModule => some .moduleDeclaration
  | _ => none

/-- A declaration that makes a node of the given kind. -/
def declarationOf (mods : Modifiers) : Tree.Kind → Parse StmtKind
  | .classDeclaration => return .classDecl (← classDeclaration rules mods)
  | .functionDeclaration => return .function (← functionDeclaration rules mods)
  | .destructuringDeclaration => destructuring rules
  | .varDeclaration => return .varDecl (← varDeclaration rules mods)
  | .enumDeclaration => enumDeclaration rules
  | .importStatement => return .imports (← importDeclaration rules)
  | .typeDeclaration => typeDeclaration rules
  | .traitDeclaration => do
    let (name, isOpen, methods) ← traitDeclaration rules mods "trait"
    return .traitDecl name isOpen methods
  | .interfaceDeclaration => do
    let (name, isOpen, methods) ← traitDeclaration rules mods "interface"
    return .interfaceDecl name isOpen methods
  | _ => moduleDeclaration rules

def declarationRule : Parse Stmt := do
  let (start, line) ← startPos
  let c ← checkpoint
  let mods ← modifiers rules
  match declarationNode? mods (← peek) (← peekAt 1) with
  | none => statementRule rules
  | some node =>
    let kind ← inNodeAt c node (declarationOf rules mods node)
    return ⟨kind, ← spanFrom start, line⟩

/-! ## Recovery -/

/-- Whether a statement may start with a token of this kind. -/
def startsStatement : Token.Kind → Bool
  | .kwClass | .kwFn | .kwVar | .kwFor | .kwIf | .kwWhile | .kwPrint | .kwReturn => true
  | _ => false

/-- Whether the skipped text ends here. -/
def synchronized : Parse Bool := do
  let s ← get
  let kind := (← peek).kind
  return (s.position > 0 && (← previous).kind == .semicolon) || startsStatement kind ||
    (kind == .rightBrace && s.depth > 0)

/-- Skips to where a statement is likely to start. At least one token is skipped, unless something
was read before and the enclosing body ends here. -/
def synchronize (progress : Bool) : Parse Unit := do
  let closes := (← get).depth > 0 && (← check .rightBrace)
  if !(progress && closes) then
    let _ ← advance
  repeatUpTo (fun _ => do
    if (← atEnd) || (← synchronized) then return ((), false)
    let _ ← advance
    return ((), true)) rules.bound ()

/-- What a declaration leaves as it found it. -/
structure Place where
  position : Nat
  checkpoint : Option Tree.Checkpoint
  treeDepth : Nat
  /-- Number of open bodies. -/
  openBlocks : Nat
  depth : Nat
  concurrent : Bool

/-- The current place. -/
def State.place (s : State) : Place where
  position := s.position
  checkpoint := s.tree.map (·.checkpoint)
  treeDepth := (s.tree.map (·.depth)).getD 0
  openBlocks := s.blocks.length
  depth := s.depth
  concurrent := s.concurrent

/-- Goes back to the bodies and the tree node that were open at a place, leaving those entered since
then. -/
def State.returnTo (s : State) (p : Place) : State :=
  { s with
    tree := s.tree.map (·.unwind p.treeDepth)
    blocks := s.blocks.drop (s.blocks.length - p.openBlocks)
    depth := p.depth
    concurrent := p.concurrent }

end

/-- Makes an error node of all that was read since `p`, and of what is skipped now. To skip, one is
told whether anything was read. -/
def recover (skip : Bool → Parse Unit) (p : Place) : Parse Unit := do
  modify (·.returnTo p)
  inNodeAt p.checkpoint .errorNode do
    if let some error := (← get).lastError then onTree (·.markError error)
    if !(← get).halted then skip ((← get).position > p.position)

/-- Runs a parser. If it gives up, an error node takes the place in the tree of what it has read. -/
def recovering {α : Type} (skip : Bool → Parse Unit) (p : Parse α) : Parse (Option α) := do
  let place := (← get).place
  let a ← attempt p
  if a.isNone then recover skip place
  return a

/-- A declaration. If it does not meet the grammar it is left out. -/
def recoveredRule (rules : Rules) : Parse (Option Stmt) :=
  recovering (synchronize rules) (declarationRule rules)

end LimitSyntax.Grammar
