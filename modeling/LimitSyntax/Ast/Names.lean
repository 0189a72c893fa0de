import LimitSyntax.Ast.Basic

/-!
# Names of the parts of a program
-/

namespace LimitSyntax.Ast

def Visibility.name : Visibility → String
  | .everyone => "Public"
  | .owner => "Private"
  | .heirs => "Protected"

namespace BinaryOp

/-- The name of an operator. -/
def name : BinaryOp → String
  | .or => "Or"
  | .and => "And"
  | .eq => "Eq"
  | .ne => "Ne"
  | .lt => "Lt"
  | .le => "Le"
  | .gt => "Gt"
  | .ge => "Ge"
  | .add => "Add"
  | .sub => "Sub"
  | .mul => "Mul"
  | .div => "Div"
  | .mod => "Mod"
  | .pow => "Pow"

/-- How an operator is written. -/
def symbol : BinaryOp → String
  | .or => "or"
  | .and => "and"
  | .eq => "=="
  | .ne => "!="
  | .lt => "<"
  | .le => "<="
  | .gt => ">"
  | .ge => ">="
  | .add => "+"
  | .sub => "-"
  | .mul => "*"
  | .div => "/"
  | .mod => "%"
  | .pow => "**"

end BinaryOp

/-- The name of an operator. -/
def UnaryOp.name : UnaryOp → String
  | .not => "Not"
  | .neg => "Neg"
  | .plus => "Plus"

/-- The name of an operator. -/
def AssignOp.name : AssignOp → String
  | .assign => "Assign"
  | .addAssign => "AddAssign"
  | .subAssign => "SubAssign"
  | .mulAssign => "MulAssign"
  | .divAssign => "DivAssign"
  | .modAssign => "ModAssign"

def ExprKind.name : ExprKind → String
  | .literal .. => "LiteralExpr"
  | .tuple .. => "TupleExpr"
  | .list .. => "ListExpr"
  | .dict .. => "DictExpr"
  | .object .. => "ObjectLiteralExpr"
  | .variable .. => "VariableExpr"
  | .self => "ThisExpr"
  | .super => "SuperExpr"
  | .binary .. => "BinaryExpr"
  | .unary .. => "UnaryExpr"
  | .grouping .. => "GroupingExpr"
  | .call .. => "CallExpr"
  | .member .. => "MemberExpr"
  | .index .. => "IndexExpr"
  | .assign .. => "AssignExpr"
  | .range .. => "RangeExpr"
  | .interpolated .. => "InterpolatedStringExpr"
  | .lambda .. => "LambdaExpr"
  | .fallible .. => "FallibleExpr"
  | .errorValue .. => "ErrorConstructExpr"
  | .okValue .. => "OkConstructExpr"
  | .missing => "Missing"

def StmtKind.name : StmtKind → String
  | .varDecl .. => "VarDeclaration"
  | .destructuring .. => "DestructuringDeclaration"
  | .function .. => "FunctionDeclaration"
  | .classDecl .. => "ClassDeclaration"
  | .enumDecl .. => "EnumDeclaration"
  | .typeAlias .. => "TypeDeclaration"
  | .traitDecl .. => "TraitDeclaration"
  | .interfaceDecl .. => "InterfaceDeclaration"
  | .moduleDecl .. => "ModuleDeclaration"
  | .ifElse .. => "IfStatement"
  | .forLoop .. | .forEach .. => "ForStatement"
  | .whileLoop .. => "WhileStatement"
  | .iterLoop .. => "IterStatement"
  | .matchCases .. => "MatchStatement"
  | .block .. => "BlockStatement"
  | .expression .. => "ExpressionStatement"
  | .returns .. => "ReturnStatement"
  | .breaks => "BreakStatement"
  | .continues => "ContinueStatement"
  | .print .. => "PrintStatement"
  | .imports .. => "ImportStatement"
  | .parallel .. => "ParallelStatement"
  | .concurrent .. => "ConcurrentStatement"
  | .task .. => "TaskStatement"
  | .worker .. => "WorkerStatement"
  | .unsafeBlock .. => "UnsafeStatement"
  | .contract .. => "ContractStatement"
  | .comptime .. => "ComptimeStatement"

/-- The names of the top-level statements. -/
def Program.names (p : Program) : List String := p.statements.map (·.kind.name)

end LimitSyntax.Ast
