/-!
# Kinds of tree nodes
-/

namespace LimitSyntax.Tree

/-- The kind of a node of the concrete tree. -/
inductive Kind where
  -- the root
  | program
  -- declarations
  | varDeclaration | destructuringDeclaration | functionDeclaration | classDeclaration
  | enumDeclaration | typeDeclaration | traitDeclaration | interfaceDeclaration
  | moduleDeclaration | importStatement
  -- statements
  | blockStatement | ifStatement | forStatement | whileStatement | iterStatement | matchStatement
  | matchCase | expressionStatement | returnStatement | breakStatement | continueStatement
  | printStatement | parallelStatement | concurrentStatement | taskStatement | workerStatement
  | unsafeStatement | contractStatement | comptimeStatement
  -- declaration parts
  | parameter | parameterList | argumentList | enumVariant | annotated
  -- expressions
  | literalExpr | tupleExpr | listExpr | dictExpr | objectLiteralExpr | variableExpr | thisExpr
  | superExpr | binaryExpr | unaryExpr | groupingExpr | callExpr | memberExpr | indexExpr
  | assignExpr | rangeExpr | interpolatedStringExpr | lambdaExpr | fallibleExpr
  | errorConstructExpr | okConstructExpr
  -- types
  | primitiveType | namedType | literalType | listType | dictType | tupleType | functionType
  | unionType | intersectionType | structuralType | refinedType
  -- patterns
  | valPattern | errPattern | errorTypePattern | wildcardPattern | listPattern | dictPattern
  | tuplePattern | bindingPattern | typePattern | literalPattern | identifierPattern
  -- recovery
  | errorNode | missing
  deriving DecidableEq, Inhabited

namespace Kind

/-- Every kind, in order of declaration. -/
def all : List Kind :=
  [.program, .varDeclaration, .destructuringDeclaration, .functionDeclaration, .classDeclaration,
   .enumDeclaration, .typeDeclaration, .traitDeclaration, .interfaceDeclaration,
   .moduleDeclaration, .importStatement, .blockStatement, .ifStatement, .forStatement,
   .whileStatement, .iterStatement, .matchStatement, .matchCase, .expressionStatement,
   .returnStatement, .breakStatement, .continueStatement, .printStatement, .parallelStatement,
   .concurrentStatement, .taskStatement, .workerStatement, .unsafeStatement, .contractStatement,
   .comptimeStatement, .parameter, .parameterList, .argumentList, .enumVariant, .annotated,
   .literalExpr, .tupleExpr, .listExpr, .dictExpr, .objectLiteralExpr, .variableExpr, .thisExpr,
   .superExpr, .binaryExpr, .unaryExpr, .groupingExpr, .callExpr, .memberExpr, .indexExpr,
   .assignExpr, .rangeExpr, .interpolatedStringExpr, .lambdaExpr, .fallibleExpr,
   .errorConstructExpr, .okConstructExpr, .primitiveType, .namedType, .literalType, .listType,
   .dictType, .tupleType, .functionType, .unionType, .intersectionType, .structuralType,
   .refinedType, .valPattern, .errPattern, .errorTypePattern, .wildcardPattern, .listPattern,
   .dictPattern, .tuplePattern, .bindingPattern, .typePattern, .literalPattern,
   .identifierPattern, .errorNode, .missing]

def name : Kind → String
  | .program => "Program"
  | .varDeclaration => "VarDeclaration"
  | .destructuringDeclaration => "DestructuringDeclaration"
  | .functionDeclaration => "FunctionDeclaration"
  | .classDeclaration => "ClassDeclaration"
  | .enumDeclaration => "EnumDeclaration"
  | .typeDeclaration => "TypeDeclaration"
  | .traitDeclaration => "TraitDeclaration"
  | .interfaceDeclaration => "InterfaceDeclaration"
  | .moduleDeclaration => "ModuleDeclaration"
  | .importStatement => "ImportStatement"
  | .blockStatement => "BlockStatement"
  | .ifStatement => "IfStatement"
  | .forStatement => "ForStatement"
  | .whileStatement => "WhileStatement"
  | .iterStatement => "IterStatement"
  | .matchStatement => "MatchStatement"
  | .matchCase => "MatchCase"
  | .expressionStatement => "ExpressionStatement"
  | .returnStatement => "ReturnStatement"
  | .breakStatement => "BreakStatement"
  | .continueStatement => "ContinueStatement"
  | .printStatement => "PrintStatement"
  | .parallelStatement => "ParallelStatement"
  | .concurrentStatement => "ConcurrentStatement"
  | .taskStatement => "TaskStatement"
  | .workerStatement => "WorkerStatement"
  | .unsafeStatement => "UnsafeStatement"
  | .contractStatement => "ContractStatement"
  | .comptimeStatement => "ComptimeStatement"
  | .parameter => "Parameter"
  | .parameterList => "ParameterList"
  | .argumentList => "ArgumentList"
  | .enumVariant => "EnumVariant"
  | .annotated => "Annotation"
  | .literalExpr => "LiteralExpr"
  | .tupleExpr => "TupleExpr"
  | .listExpr => "ListExpr"
  | .dictExpr => "DictExpr"
  | .objectLiteralExpr => "ObjectLiteralExpr"
  | .variableExpr => "VariableExpr"
  | .thisExpr => "ThisExpr"
  | .superExpr => "SuperExpr"
  | .binaryExpr => "BinaryExpr"
  | .unaryExpr => "UnaryExpr"
  | .groupingExpr => "GroupingExpr"
  | .callExpr => "CallExpr"
  | .memberExpr => "MemberExpr"
  | .indexExpr => "IndexExpr"
  | .assignExpr => "AssignExpr"
  | .rangeExpr => "RangeExpr"
  | .interpolatedStringExpr => "InterpolatedStringExpr"
  | .lambdaExpr => "LambdaExpr"
  | .fallibleExpr => "FallibleExpr"
  | .errorConstructExpr => "ErrorConstructExpr"
  | .okConstructExpr => "OkConstructExpr"
  | .primitiveType => "PrimitiveType"
  | .namedType => "NamedType"
  | .literalType => "LiteralType"
  | .listType => "ListType"
  | .dictType => "DictType"
  | .tupleType => "TupleType"
  | .functionType => "FunctionType"
  | .unionType => "UnionType"
  | .intersectionType => "IntersectionType"
  | .structuralType => "StructuralType"
  | .refinedType => "RefinedType"
  | .valPattern => "ValPattern"
  | .errPattern => "ErrPattern"
  | .errorTypePattern => "ErrorTypePattern"
  | .wildcardPattern => "WildcardPattern"
  | .listPattern => "ListPattern"
  | .dictPattern => "DictPattern"
  | .tuplePattern => "TuplePattern"
  | .bindingPattern => "BindingPattern"
  | .typePattern => "TypePattern"
  | .literalPattern => "LiteralPattern"
  | .identifierPattern => "IdentifierPattern"
  | .errorNode => "ErrorNode"
  | .missing => "Missing"

def ofName? (name : String) : Option Kind := all.find? (·.name == name)

/-- Statements. -/
def isStatement : Kind → Bool
  | .blockStatement | .ifStatement | .forStatement | .whileStatement | .iterStatement
  | .matchStatement | .expressionStatement | .returnStatement | .breakStatement
  | .continueStatement | .printStatement | .parallelStatement | .concurrentStatement
  | .taskStatement | .workerStatement | .unsafeStatement | .contractStatement
  | .comptimeStatement => true
  | _ => false

/-- Expressions. -/
def isExpression : Kind → Bool
  | .literalExpr | .tupleExpr | .listExpr | .dictExpr | .objectLiteralExpr | .variableExpr
  | .thisExpr | .superExpr | .binaryExpr | .unaryExpr | .groupingExpr | .callExpr | .memberExpr
  | .indexExpr | .assignExpr | .rangeExpr | .interpolatedStringExpr | .lambdaExpr | .fallibleExpr
  | .errorConstructExpr | .okConstructExpr => true
  | _ => false

/-- Declarations. -/
def isDeclaration : Kind → Bool
  | .varDeclaration | .destructuringDeclaration | .functionDeclaration | .classDeclaration
  | .enumDeclaration | .typeDeclaration | .traitDeclaration | .interfaceDeclaration
  | .moduleDeclaration | .importStatement => true
  | _ => false

def isType : Kind → Bool
  | .primitiveType | .namedType | .literalType | .listType | .dictType | .tupleType
  | .functionType | .unionType | .intersectionType | .structuralType | .refinedType => true
  | _ => false

/-- Nodes made when the grammar was not met. -/
def isRecovery : Kind → Bool
  | .errorNode | .missing => true
  | _ => false

end Kind

end LimitSyntax.Tree
