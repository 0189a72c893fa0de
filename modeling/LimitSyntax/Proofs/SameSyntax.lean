import LimitSyntax.Grammar.Program
import Mathlib.Data.List.Forall2
import Mathlib.Data.Option.Basic

/-!
# The same syntax

Syntax is the same up to its places in a text if it differs in spans and lines only (`Ast.Same`).
The relation has a case for every form of syntax except the two placeholders, the expression that
was not found and the target that cannot be assigned to: these are not the same as anything. So
syntax that is the same as itself has no placeholder in it, at any depth (`Ast.IsWhole`).
-/

namespace LimitSyntax.Ast

/-- The forms of syntax. -/
inductive Form where
  | expr | exprKind | entry | named | stringPart | target | param | type | typeKind | typeParam
  | typeField | pattern | patternKind | stmt | stmtKind | block | varDecl | function | classDecl
  | variant | matchCase
  | list (f : Form)
  | option (f : Form)

/-- The syntax of a form. -/
abbrev Form.Syntax : Form → Type
  | .expr => Expr
  | .exprKind => ExprKind
  | .entry => Expr × Expr
  | .named => String × Expr
  | .stringPart => StringPart
  | .target => AssignTarget
  | .param => Param
  | .type => TypeExpr
  | .typeKind => TypeKind
  | .typeParam => TypeParam
  | .typeField => TypeField
  | .pattern => Pattern
  | .patternKind => PatternKind
  | .stmt => Stmt
  | .stmtKind => StmtKind
  | .block => Block
  | .varDecl => VarDecl
  | .function => FunctionDecl
  | .classDecl => ClassDecl
  | .variant => EnumVariant
  | .matchCase => MatchCase
  | .list f => List f.Syntax
  | .option f => Option f.Syntax

/-- The same up to spans and lines, without placeholders. -/
inductive Same : (f : Form) → f.Syntax → f.Syntax → Prop
  -- lists and optional parts
  | nil : Same (.list f) [] []
  | cons : Same f x y → Same (.list f) xs ys → Same (.list f) (x :: xs) (y :: ys)
  | none : Same (.option f) none none
  | some : Same f x y → Same (.option f) (some x) (some y)
  -- expressions, the one that was not found apart
  | expr : Same .exprKind k k' → Same .expr ⟨k, span, line⟩ ⟨k', span', line'⟩
  | literalExpr : Same .exprKind (.literal value) (.literal value)
  | tupleExpr : Same (.list .expr) es es' → Same .exprKind (.tuple es) (.tuple es')
  | listExpr : Same (.list .expr) es es' → Same .exprKind (.list es) (.list es')
  | dictExpr : Same (.list .entry) es es' → Same .exprKind (.dict es) (.dict es')
  | objectExpr : Same (.list .named) es es' → Same .exprKind (.object name es) (.object name es')
  | variableExpr : Same .exprKind (.variable name) (.variable name)
  | selfExpr : Same .exprKind .self .self
  | superExpr : Same .exprKind .super .super
  | binaryExpr : Same .expr l l' → Same .expr r r' →
      Same .exprKind (.binary l op r) (.binary l' op r')
  | unaryExpr : Same .expr e e' → Same .exprKind (.unary op e) (.unary op e')
  | groupingExpr : Same .expr e e' → Same .exprKind (.grouping e) (.grouping e')
  | callExpr : Same .expr e e' → Same (.list .expr) es es' → Same (.list .named) ns ns' →
      Same .exprKind (.call e es ns) (.call e' es' ns')
  | memberExpr : Same .expr e e' → Same .exprKind (.member e name) (.member e' name)
  | indexExpr : Same .expr e e' → Same .expr i i' → Same .exprKind (.index e i) (.index e' i')
  | assignExpr : Same .target t t' → Same .expr e e' →
      Same .exprKind (.assign t op e) (.assign t' op e')
  | rangeExpr : Same .expr e e' → Same .expr f f' → Same .exprKind (.range e f) (.range e' f')
  | interpolatedExpr : Same (.list .stringPart) ps ps' →
      Same .exprKind (.interpolated ps) (.interpolated ps')
  | lambdaExpr : Same (.list .param) ps ps' → Same (.option .type) t t' → Same .block b b' →
      Same .exprKind (.lambda ps t b) (.lambda ps' t' b')
  | fallibleExpr : Same .expr e e' → Same (.option .stmt) s s' →
      Same .exprKind (.fallible e name s) (.fallible e' name s')
  | errorValueExpr : Same (.list .expr) es es' →
      Same .exprKind (.errorValue type es) (.errorValue type es')
  | okValueExpr : Same .expr e e' → Same .exprKind (.okValue e) (.okValue e')
  | entry : Same .expr k k' → Same .expr v v' → Same .entry (k, v) (k', v')
  | named : Same .expr e e' → Same .named (name, e) (name, e')
  | strPart : Same .stringPart (.str text) (.str text)
  | exprPart : Same .expr e e' → Same .stringPart (.expr e) (.expr e')
  -- targets that can be assigned to
  | variableTarget : Same .target (.variable name) (.variable name)
  | memberTarget : Same .expr e e' → Same .target (.member e name) (.member e' name)
  | indexTarget : Same .expr e e' → Same .expr i i' → Same .target (.index e i) (.index e' i')
  -- parameters and types
  | param : Same (.option .type) t t' → Same (.option .expr) e e' →
      Same .param ⟨name, t, e, span⟩ ⟨name, t', e', span'⟩
  | type : Same .typeKind k k' → Same (.option .expr) e e' →
      Same .type ⟨k, isOptional, errors, e, span, line⟩ ⟨k', isOptional, errors, e', span', line'⟩
  | primitiveType : Same .typeKind (.primitive name) (.primitive name)
  | namedType : Same .typeKind (.named name) (.named name)
  | literalType : Same .typeKind (.literal text) (.literal text)
  | listType : Same (.option .type) t t' → Same .typeKind (.list t) (.list t')
  | arrayType : Same .typeKind .array .array
  | dictType : Same .type k k' → Same .type v v' → Same .typeKind (.dict k v) (.dict k' v')
  | anyDictType : Same .typeKind .anyDict .anyDict
  | tupleType : Same (.list .type) ts ts' → Same .typeKind (.tuple ts) (.tuple ts')
  | functionType : Same (.list .typeParam) ps ps' → Same (.option .type) t t' →
      Same .typeKind (.function ps t) (.function ps' t')
  | unionType : Same (.list .type) ts ts' → Same .typeKind (.union ts) (.union ts')
  | intersectionType : Same (.list .type) ts ts' →
      Same .typeKind (.intersection ts) (.intersection ts')
  | recordType : Same (.list .typeField) fs fs' →
      Same .typeKind (.record fs hasRest bases) (.record fs' hasRest bases)
  | typeParam : Same .type t t' → Same .typeParam ⟨name, t, isOptional⟩ ⟨name, t', isOptional⟩
  | typeField : Same .type t t' → Same .typeField ⟨name, t⟩ ⟨name, t'⟩
  -- patterns
  | pattern : Same .patternKind k k' → Same .pattern ⟨k, span, line⟩ ⟨k', span', line'⟩
  | valuePattern : Same .patternKind (.value name) (.value name)
  | errorPattern : Same .patternKind (.error name type) (.error name type)
  | errorTypePattern : Same .patternKind (.errorType type params) (.errorType type params)
  | wildcardPattern : Same .patternKind .wildcard .wildcard
  | listPattern : Same (.list .pattern) ps ps' → Same .patternKind (.list ps rest) (.list ps' rest)
  | dictPattern : Same .patternKind (.dict fields hasRest rest) (.dict fields hasRest rest)
  | tuplePattern : Same (.list .pattern) ps ps' → Same .patternKind (.tuple ps) (.tuple ps')
  | bindingPattern : Same .patternKind (.binding type name) (.binding type name)
  | typePattern : Same .type t t' → Same .patternKind (.type t) (.type t')
  | literalPattern : Same .patternKind (.literal value) (.literal value)
  | identifierPattern : Same .patternKind (.identifier name) (.identifier name)
  -- statements
  | stmt : Same .stmtKind k k' → Same .stmt ⟨k, span, line⟩ ⟨k', span', line'⟩
  | varDeclStmt : Same .varDecl d d' → Same .stmtKind (.varDecl d) (.varDecl d')
  | destructuringStmt : Same .expr e e' →
      Same .stmtKind (.destructuring names e) (.destructuring names e')
  | functionStmt : Same .function d d' → Same .stmtKind (.function d) (.function d')
  | classDeclStmt : Same .classDecl d d' → Same .stmtKind (.classDecl d) (.classDecl d')
  | enumDeclStmt : Same (.list .variant) vs vs' →
      Same .stmtKind (.enumDecl name vs) (.enumDecl name vs')
  | typeAliasStmt : Same .type t t' → Same .stmtKind (.typeAlias name t) (.typeAlias name t')
  | traitDeclStmt : Same (.list .function) fs fs' →
      Same .stmtKind (.traitDecl name isOpen fs) (.traitDecl name isOpen fs')
  | interfaceDeclStmt : Same (.list .function) fs fs' →
      Same .stmtKind (.interfaceDecl name isOpen fs) (.interfaceDecl name isOpen fs')
  | moduleDeclStmt : Same (.list .stmt) ss ss' → Same (.list .stmt) hs hs' →
      Same (.list .stmt) os os' →
      Same .stmtKind (.moduleDecl name ss hs os) (.moduleDecl name ss' hs' os')
  | ifElseStmt : Same .expr e e' → Same .stmt s s' → Same (.option .stmt) o o' →
      Same .stmtKind (.ifElse e s o) (.ifElse e' s' o')
  | forLoopStmt : Same (.option .stmt) i i' → Same (.option .expr) e e' →
      Same (.option .expr) f f' →
      Same .stmt s s' → Same .stmtKind (.forLoop i e f s) (.forLoop i' e' f' s')
  | forEachStmt : Same .expr e e' → Same .stmt s s' →
      Same .stmtKind (.forEach vars e s) (.forEach vars e' s')
  | whileLoopStmt : Same .expr e e' → Same .stmt s s' →
      Same .stmtKind (.whileLoop e s) (.whileLoop e' s')
  | iterLoopStmt : Same .expr e e' → Same .stmt s s' →
      Same .stmtKind (.iterLoop vars e s) (.iterLoop vars e' s')
  | matchCasesStmt : Same .expr e e' → Same (.list .matchCase) cs cs' →
      Same .stmtKind (.matchCases e cs) (.matchCases e' cs')
  | blockStmt : Same .block b b' → Same .stmtKind (.block b) (.block b')
  | expressionStmt : Same .expr e e' → Same .stmtKind (.expression e) (.expression e')
  | returnsStmt : Same (.option .expr) e e' → Same .stmtKind (.returns e) (.returns e')
  | breaksStmt : Same .stmtKind .breaks .breaks
  | continuesStmt : Same .stmtKind .continues .continues
  | printStmt : Same (.list .expr) es es' → Same .stmtKind (.print es) (.print es')
  | importsStmt : Same .stmtKind (.imports decl) (.imports decl)
  | parallelStmt : Same .block b b' → Same .stmtKind (.parallel settings b) (.parallel settings b')
  | concurrentStmt : Same .block b b' →
      Same .stmtKind (.concurrent settings b) (.concurrent settings b')
  | taskStmt : Same .expr e e' → Same .block b b' → Same .stmtKind (.task var e b) (.task var e' b')
  | workerStmt : Same .block b b' → Same .stmtKind (.worker param b) (.worker param b')
  | unsafeBlockStmt : Same .block b b' → Same .stmtKind (.unsafeBlock b) (.unsafeBlock b')
  | contractStmt : Same .expr e e' → Same (.option .expr) m m' →
      Same .stmtKind (.contract e m) (.contract e' m')
  | comptimeStmt : Same .stmt s s' → Same .stmtKind (.comptime s) (.comptime s')
  -- blocks and the parts of declarations
  | block : Same (.list .stmt) ss ss' → Same .block ⟨ss, span, line⟩ ⟨ss', span', line'⟩
  | varDecl : Same (.option .type) t t' → Same (.option .expr) e e' →
      Same .varDecl ⟨name, t, e, visibility, isStatic, isConst⟩
        ⟨name, t', e', visibility, isStatic, isConst⟩
  | function : Same (.list .param) ps ps' → Same (.list .param) os os' →
      Same (.option .type) t t' → Same (.option .block) b b' →
      Same .function
        ⟨name, generics, ps, os, t, b, visibility, isStatic, isAbstract, isFinal, span, line⟩
        ⟨name, generics, ps', os', t', b', visibility, isStatic, isAbstract, isFinal, span', line'⟩
  | classDecl : Same (.list .expr) es es' → Same (.list .param) ps ps' →
      Same (.list .varDecl) vs vs' → Same (.list .function) fs fs' →
      Same .classDecl ⟨name, superclass, es, ps, vs, fs, isAbstract, isFinal, isData, tables⟩
        ⟨name, superclass, es', ps', vs', fs', isAbstract, isFinal, isData, tables⟩
  | variant : Same (.option .type) t t' → Same .variant ⟨name, t⟩ ⟨name, t'⟩
  | matchCase : Same .pattern p p' → Same (.option .expr) e e' → Same .stmt s s' →
      Same .matchCase ⟨p, e, s⟩ ⟨p', e', s'⟩

/-- Syntax without placeholders. -/
def IsWhole {f : Form} (x : f.Syntax) : Prop := Same f x x

theorem not_isWhole_missing : ¬ IsWhole (f := .exprKind) .missing := nofun

theorem not_isWhole_invalid (e : Expr) : ¬ IsWhole (f := .target) (.invalid e) := nofun

namespace Same

variable {f : Form}

theorem trans {x y z : f.Syntax} (h : Same f x y) (h' : Same f y z) : Same f x z := by
  induction h with
  | nil | none => exact h'
  | cons _ _ ih ih' => cases h' with | cons h h' => exact .cons (ih h) (ih' h')
  | some _ ih => cases h' with | some h => exact .some (ih h)
  | _ =>
    cases h'
    constructor <;> first | assumption | (apply_assumption; assumption)

theorem ofList {xs ys : List f.Syntax} (h : List.Forall₂ (Same f) xs ys) :
    Same (.list f) xs ys := by
  induction h with
  | nil => exact .nil
  | cons h _ ih => exact .cons h ih

theorem toList {xs ys : List f.Syntax} (h : Same (.list f) xs ys) :
    List.Forall₂ (Same f) xs ys := by
  induction xs generalizing ys with
  | nil => cases h; exact .nil
  | cons x xs ih =>
    cases h with
    | cons h hs => exact .cons h (ih hs)

theorem ofOption {x y : Option f.Syntax} (h : Option.Rel (Same f) x y) :
    Same (.option f) x y := by
  cases h with
  | none => exact .none
  | some h => exact .some h

/-- The same syntax can be assigned to. -/
theorem assignTarget? {e e' : Expr} (h : Same .expr e e') :
    Option.Rel (Same .target) (Grammar.assignTarget? e) (Grammar.assignTarget? e') := by
  cases h with
  | expr h =>
    cases h with
    | variableExpr => exact .some .variableTarget
    | memberExpr h => exact .some (.memberTarget h)
    | indexExpr h hi => exact .some (.indexTarget h hi)
    | _ => exact .none

end Same

end LimitSyntax.Ast
