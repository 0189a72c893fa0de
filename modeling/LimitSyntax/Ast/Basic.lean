import LimitSyntax.Span
import LimitSyntax.Table

/-!
# Abstract syntax

Programs, statements, expressions, patterns and types. All but the smallest parts carry the span and
the line they were read from. Numbers keep their spelling.
-/

namespace LimitSyntax.Ast

/-! ## Leaves -/

/-- Who may use a member. -/
inductive Visibility where
  | everyone | owner | heirs
  deriving DecidableEq, Inhabited

/-- A literal value. -/
inductive Literal where
  | int (digits : String)
  | float (digits : String)
  | scientific (digits : String)
  | str (text : String)
  | bool (value : Bool)
  | nil
  deriving DecidableEq, Inhabited

inductive BinaryOp where
  | or | and | eq | ne | lt | le | gt | ge | add | sub | mul | div | mod | pow
  deriving DecidableEq, Inhabited

inductive UnaryOp where
  | not | neg | plus
  deriving DecidableEq, Inhabited

inductive AssignOp where
  | assign | addAssign | subAssign | mulAssign | divAssign | modAssign
  deriving DecidableEq, Inhabited

/-- What is imported: a module by its dotted name, or a file. -/
inductive ImportPath where
  | dotted (parts : List String)
  | file (path : String)
  deriving DecidableEq, Inhabited

/-- Whether the names of an import are those taken or those left out. -/
inductive FilterKind where
  | only | allBut
  deriving DecidableEq, Inhabited

structure ImportFilter where
  kind : FilterKind
  names : List String
  deriving DecidableEq, Inhabited

structure Import where
  path : ImportPath
  alias? : Option String
  filter? : Option ImportFilter
  deriving DecidableEq, Inhabited

/-- The settings in the header of a concurrency block. -/
structure ConcurrencySettings where
  channel : Option String := none
  mode : String
  cores : String := "auto"
  onError : String := "stop"
  timeout : String := "0"
  grace : String := "0"
  onTimeout : String := "partial"
  deriving DecidableEq, Inhabited

/-- A field of a dictionary pattern and the name its value is bound to. -/
structure FieldBinding where
  key : String
  binding : String
  deriving DecidableEq, Inhabited

/-- What a class says about its members by name. -/
structure ClassTables where
  fieldVisibility : Table Visibility := {}
  methodVisibility : Table Visibility := {}
  /-- The static fields and methods. -/
  staticMembers : Table Unit := {}
  /-- The constant fields. -/
  readOnlyFields : Table Unit := {}
  abstractMethods : Table Unit := {}
  finalMethods : Table Unit := {}

/-! ## Expressions, types, patterns and statements -/

mutual

structure Expr where
  kind : ExprKind
  span : Span
  line : Nat

inductive ExprKind where
  | literal (value : Literal)
  | tuple (elements : List Expr)
  | list (elements : List Expr)
  | dict (entries : List (Expr × Expr))
  | object (name : String) (fields : List (String × Expr))
  | variable (name : String)
  | self
  | super
  | binary (left : Expr) (op : BinaryOp) (right : Expr)
  | unary (op : UnaryOp) (operand : Expr)
  | grouping (inner : Expr)
  | call (callee : Expr) (args : List Expr) (named : List (String × Expr))
  | member (object : Expr) (name : String)
  | index (object : Expr) (index : Expr)
  | assign (target : AssignTarget) (op : AssignOp) (value : Expr)
  /-- A range with both its ends. -/
  | range (first : Expr) (last : Expr)
  | interpolated (parts : List StringPart)
  | lambda (params : List Param) (result : Option TypeExpr) (body : Block)
  /-- An expression that may fail, and what to do if it does. -/
  | fallible (inner : Expr) (name : Option String) (handler : Option Stmt)
  | errorValue (type : String) (args : List Expr)
  | okValue (value : Expr)
  /-- The place of an expression that was not found. -/
  | missing

inductive StringPart where
  | str (text : String)
  | expr (e : Expr)

inductive AssignTarget where
  | variable (name : String)
  | member (object : Expr) (name : String)
  | index (object : Expr) (index : Expr)
  /-- An expression that cannot be assigned to. -/
  | invalid (e : Expr)

structure Param where
  name : String
  type : Option TypeExpr
  default? : Option Expr
  span : Span

structure TypeExpr where
  kind : TypeKind
  /-- Whether the value may be absent. -/
  optional : Bool
  /-- The errors that may come in place of a value. -/
  errors : List String
  refinement : Option Expr
  span : Span
  line : Nat

inductive TypeKind where
  | primitive (name : String)
  | named (name : String)
  /-- The type of one string, given between quotation marks. -/
  | literal (text : String)
  | list (element : Option TypeExpr)
  | array
  | dict (key : TypeExpr) (value : TypeExpr)
  | anyDict
  | tuple (members : List TypeExpr)
  | function (params : List TypeParam) (result : Option TypeExpr)
  | union (members : List TypeExpr)
  | intersection (members : List TypeExpr)
  | record (fields : List TypeField) (hasRest : Bool) (bases : List String)

/-- A parameter of a function type. -/
structure TypeParam where
  name : Option String
  type : TypeExpr
  optional : Bool

/-- A field of a record type. -/
structure TypeField where
  name : String
  type : TypeExpr

structure Pattern where
  kind : PatternKind
  span : Span
  line : Nat

inductive PatternKind where
  | value (name : String)
  | error (name : String) (type : Option String)
  | errorType (type : String) (params : List String)
  | wildcard
  | list (elements : List Pattern) (rest : Option String)
  | dict (fields : List FieldBinding) (hasRest : Bool) (rest : Option String)
  | tuple (elements : List Pattern)
  | binding (type : String) (name : String)
  | type (t : TypeExpr)
  | literal (value : Literal)
  | identifier (name : String)

structure Stmt where
  kind : StmtKind
  span : Span
  line : Nat

inductive StmtKind where
  | varDecl (decl : VarDecl)
  | destructuring (names : List String) (initializer : Expr)
  | function (decl : FunctionDecl)
  | classDecl (decl : ClassDecl)
  | enumDecl (name : String) (variants : List EnumVariant)
  | typeAlias (name : String) (type : TypeExpr)
  | traitDecl (name : String) (isOpen : Bool) (methods : List FunctionDecl)
  | interfaceDecl (name : String) (isOpen : Bool) (methods : List FunctionDecl)
  /-- A module, its members sorted by who may use them. -/
  | moduleDecl (name : String) (forEveryone forHeirs forOwner : List Stmt)
  | ifElse (condition : Expr) (thenBranch : Stmt) (elseBranch : Option Stmt)
  | forLoop (init : Option Stmt) (condition increment : Option Expr) (body : Stmt)
  | forEach (vars : List String) (iterable : Expr) (body : Stmt)
  | whileLoop (condition : Expr) (body : Stmt)
  | iterLoop (vars : List String) (iterable : Expr) (body : Stmt)
  | matchCases (scrutinee : Expr) (cases : List MatchCase)
  | block (body : Block)
  | expression (e : Expr)
  | returns (value : Option Expr)
  | breaks
  | continues
  | print (args : List Expr)
  | imports (decl : Import)
  | parallel (settings : ConcurrencySettings) (body : Block)
  | concurrent (settings : ConcurrencySettings) (body : Block)
  | task (var : Option String) (iterable : Expr) (body : Block)
  | worker (param : Option String) (body : Block)
  | unsafeBlock (body : Block)
  | contract (condition : Expr) (message : Option Expr)
  | comptime (stmt : Stmt)

structure Block where
  statements : List Stmt
  span : Span
  line : Nat

structure VarDecl where
  name : String
  type : Option TypeExpr
  initializer : Option Expr
  visibility : Visibility
  isStatic : Bool
  isConst : Bool

structure FunctionDecl where
  name : String
  generics : List String
  params : List Param
  /-- The parameters that may be left out of a call, in source order. -/
  optionalParams : List Param
  result : Option TypeExpr
  /-- None for a signature. -/
  body : Option Block
  visibility : Visibility
  isStatic : Bool
  isAbstract : Bool
  isFinal : Bool
  span : Span
  line : Nat

structure ClassDecl where
  name : String
  superclass : Option String
  superArgs : List Expr
  ctorParams : List Param
  fields : List VarDecl
  methods : List FunctionDecl
  isAbstract : Bool
  isFinal : Bool
  isData : Bool
  tables : ClassTables

structure EnumVariant where
  name : String
  payload : Option TypeExpr

structure MatchCase where
  pattern : Pattern
  guard : Option Expr
  body : Stmt

end

structure Program where
  statements : List Stmt
  span : Span

end LimitSyntax.Ast
