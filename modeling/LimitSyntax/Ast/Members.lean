import LimitSyntax.Ast.Basic

/-!
# What declarations say about their members

Facts that follow from the parts of a declaration: which parameters may be left out and which errors
a function declares; and how a class takes in its members, which it also enters in its tables.
-/

namespace LimitSyntax.Ast

/-! ## Types -/

namespace TypeExpr

/-- A type without suffix or refinement. -/
def plain (kind : TypeKind) (span : Span) (line : Nat) : TypeExpr :=
  { kind, optional := false, errors := [], refinement := none, span, line }

/-- Whether an error may come in place of a value. -/
def isFallible (t : TypeExpr) : Bool := !t.errors.isEmpty

/-- Whether the values are restricted by a condition. -/
def isRefined (t : TypeExpr) : Bool := t.refinement.isSome

/-- The name a type goes by. -/
def name (t : TypeExpr) : String :=
  match t.kind with
  | .primitive name | .named name | .literal name => name
  | .list _ => "list"
  | .array => "array"
  | .dict .. | .anyDict => "dict"
  | .tuple _ => "tuple"
  | .function .. => "function"
  | .union _ => "union"
  | .intersection _ => "intersection"
  | .record .. => "struct"

/-- The type of the elements of a list. -/
def element? (t : TypeExpr) : Option TypeExpr :=
  match t.kind with
  | .list element => element
  | _ => none

/-- The type of the keys of a dictionary. -/
def key? (t : TypeExpr) : Option TypeExpr :=
  match t.kind with
  | .dict key _ => some key
  | _ => none

/-- The type of the values of a dictionary. -/
def value? (t : TypeExpr) : Option TypeExpr :=
  match t.kind with
  | .dict _ value => some value
  | _ => none

/-- The fields of a record. -/
def fields (t : TypeExpr) : List TypeField :=
  match t.kind with
  | .record fields _ _ => fields
  | _ => []

end TypeExpr

namespace TypeKind

/-- Primitive types and types of one string. -/
def isPrimitive : TypeKind → Bool
  | .primitive _ | .literal _ => true
  | _ => false

/-- Types that go by a name given in a program. -/
def isNamed : TypeKind → Bool
  | .named _ => true
  | _ => false

/-- Lists and arrays. -/
def isList : TypeKind → Bool
  | .list _ | .array => true
  | _ => false

def isDict : TypeKind → Bool
  | .dict .. | .anyDict => true
  | _ => false

def isTuple : TypeKind → Bool
  | .tuple _ => true
  | _ => false

def isFunction : TypeKind → Bool
  | .function .. => true
  | _ => false

def isUnion : TypeKind → Bool
  | .union _ => true
  | _ => false

def isIntersection : TypeKind → Bool
  | .intersection _ => true
  | _ => false

def isRecord : TypeKind → Bool
  | .record .. => true
  | _ => false

end TypeKind

/-! ## Functions -/

/-- A parameter with a default value or an optional type may be left out of a call. -/
def Param.isOptional (p : Param) : Bool := p.default?.isSome || p.type.any (·.optional)

namespace FunctionDecl

def declaredErrors (f : FunctionDecl) : List String := (f.result.map (·.errors)).getD []

/-- Whether a function declares errors. -/
def canFail (f : FunctionDecl) : Bool := f.result.any (·.isFallible)

end FunctionDecl

/-! ## Classes -/

/-- The class that a statement declares, if it declares one. -/
def StmtKind.class? : StmtKind → Option ClassDecl
  | .classDecl decl => some decl
  | _ => none

theorem StmtKind.class?_eq_some {kind : StmtKind} {decl : ClassDecl} :
    kind.class? = some decl ↔ kind = .classDecl decl := by
  cases kind <;> simp [class?]

namespace ClassTables

/-- Enters a field. -/
def addField (t : ClassTables) (f : VarDecl) : ClassTables :=
  { t with
    fieldVisibility := t.fieldVisibility.insert f.name f.visibility
    staticMembers := t.staticMembers.addIf f.isStatic f.name
    readOnlyFields := t.readOnlyFields.addIf f.isConst f.name }

/-- Enters a method. -/
def addMethod (t : ClassTables) (m : FunctionDecl) : ClassTables :=
  { t with
    methodVisibility := t.methodVisibility.insert m.name m.visibility
    staticMembers := t.staticMembers.addIf m.isStatic m.name
    abstractMethods := t.abstractMethods.addIf m.isAbstract m.name
    finalMethods := t.finalMethods.addIf m.isFinal m.name }

end ClassTables

namespace ClassDecl

def addField (c : ClassDecl) (f : VarDecl) : ClassDecl :=
  { c with fields := c.fields ++ [f], tables := c.tables.addField f }

def addMethod (c : ClassDecl) (m : FunctionDecl) : ClassDecl :=
  { c with methods := c.methods ++ [m], tables := c.tables.addMethod m }

/-- The constructor of a class with parameters in its header. It hands the arguments for the
superclass on, if there are any, and then assigns each parameter to the field of its name. -/
def headerConstructor (c : ClassDecl) (span : Span) (line : Nat) : FunctionDecl :=
  let expr (kind : ExprKind) : Expr := ⟨kind, span, line⟩
  let stmt (kind : ExprKind) : Stmt := ⟨.expression (expr kind), span, line⟩
  let superCall : List Stmt :=
    if c.superclass.isSome && !c.superArgs.isEmpty then
      [stmt (.call (expr (.member (expr .super) "init")) c.superArgs [])]
    else []
  let assignments := c.ctorParams.map fun p =>
    stmt (.assign (.member (expr .self) p.name) .assign (expr (.variable p.name)))
  { name := "init"
    generics := []
    params := c.ctorParams.filter (!·.isOptional)
    optionalParams := c.ctorParams.filter (·.isOptional)
    result := none
    body := some ⟨superCall ++ assignments, span, line⟩
    visibility := .everyone
    isStatic := false
    isAbstract := false
    isFinal := false
    span
    line }

end ClassDecl

end LimitSyntax.Ast
