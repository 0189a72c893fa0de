import LimitSyntax.Ast.Members
import LimitSyntax.Ast.Names
import LimitSyntax.Datum
import LimitSyntax.Token.Datum

/-!
# Programs as data

Every part of a program as a datum, with what follows from its members. Lists are turned into data
from the front; `done` holds the data of the elements before, last one first.
-/

namespace LimitSyntax.Ast

/-! ## Leaves -/

def Literal.datum : Literal → Datum
  | .int digits => .variant "Int" (.text digits)
  | .float digits => .variant "Float" (.text digits)
  | .scientific digits => .variant "Scientific" (.text digits)
  | .str text => .variant "Str" (.text text)
  | .bool value => .variant "Bool" (.flag value)
  | .nil => .symbol "Nil"

def ImportPath.datum : ImportPath → Datum
  | .dotted parts => .variant "Dotted" (.texts parts)
  | .file path => .variant "File" (.text path)

def ImportFilter.datum (f : ImportFilter) : Datum :=
  let kind := match f.kind with
    | .only => "Show"
    | .allBut => "Hide"
  .record "ImportFilter" [("kind", .symbol kind), ("names", .texts f.names)]

def Import.datum (i : Import) : Datum :=
  .record "Import"
    [("path", i.path.datum), ("alias", .optionalText i.alias?),
     ("filter", .ofOption (i.filter?.map ImportFilter.datum))]

def ConcurrencySettings.datum (c : ConcurrencySettings) : Datum :=
  .record "ConcurrencyConfig"
    [("channel", .optionalText c.channel), ("mode", .text c.mode), ("cores", .text c.cores),
     ("on_error", .text c.onError), ("timeout", .text c.timeout), ("grace", .text c.grace),
     ("on_timeout", .text c.onTimeout)]

def FieldBinding.datum (f : FieldBinding) : Datum :=
  .record "DictPatternField" [("key", .text f.key), ("binding", .text f.binding)]

def visibilityTable (t : Table Visibility) : Datum :=
  .table (t.entries.map fun (name, v) => (name, .symbol v.name))

/-! ## Expressions, types, patterns and statements -/

mutual

def Expr.datum : Expr → Datum
  | ⟨kind, span, line⟩ =>
    .record "Expr" [("kind", kind.datum), ("span", span.datum), ("line", .number line)]

def ExprKind.datum : ExprKind → Datum
  | .literal value => .variant "Literal" value.datum
  | .tuple elements => .variant "Tuple" (.list (exprData elements []))
  | .list elements => .variant "List" (.list (exprData elements []))
  | .dict entries => .variant "Dict" (.list (entryData entries []))
  | .object name fields =>
    .form "Object" [("constructor", .text name), ("fields", .list (namedData fields []))]
  | .variable name => .variant "Variable" (.text name)
  | .self => .symbol "This"
  | .super => .symbol "Super"
  | .binary left op right =>
    .form "Binary" [("left", left.datum), ("op", .symbol op.name), ("right", right.datum)]
  | .unary op operand =>
    .form "Unary" [("op", .symbol op.name), ("operand", operand.datum)]
  | .grouping inner => .variant "Grouping" inner.datum
  | .call callee args named =>
    .form "Call"
      [("callee", callee.datum), ("args", .list (exprData args [])),
       ("named_args", .list (namedData named []))]
  | .member object name => .form "Member" [("object", object.datum), ("name", .text name)]
  | .index object index => .form "Index" [("object", object.datum), ("index", index.datum)]
  | .assign target op value =>
    .form "Assign"
      [("target", target.datum), ("op", .symbol op.name), ("value", value.datum)]
  | .range first last =>
    .form "Range"
      [("start", first.datum), ("end", last.datum), ("step", .absent), ("inclusive", .flag true)]
  | .interpolated parts => .variant "InterpolatedString" (.list (partData parts []))
  | .lambda params result body =>
    .form "Lambda"
      [("params", .list (paramData params [])), ("return_type", typeDatum? result),
       ("body", body.datum)]
  | .fallible inner name handler =>
    .form "Fallible"
      [("expr", inner.datum), ("else_var", .optionalText name),
       ("else_handler", stmtDatum? handler)]
  | .errorValue type args =>
    .form "ErrorConstruct" [("error_type", .text type), ("args", .list (exprData args []))]
  | .okValue value => .variant "OkConstruct" value.datum
  | .missing => .symbol "Missing"

def exprDatum? : Option Expr → Datum
  | none => .absent
  | some e => .present e.datum

def exprData : List Expr → List Datum → List Datum
  | [], done => done.reverse
  | e :: es, done => exprData es (e.datum :: done)

def entryData : List (Expr × Expr) → List Datum → List Datum
  | [], done => done.reverse
  | (key, value) :: es, done => entryData es (.pair key.datum value.datum :: done)

def namedData : List (String × Expr) → List Datum → List Datum
  | [], done => done.reverse
  | (name, e) :: es, done => namedData es (.pair (.text name) e.datum :: done)

def StringPart.datum : StringPart → Datum
  | .str text => .variant "Str" (.text text)
  | .expr e => .variant "Expr" e.datum

def partData : List StringPart → List Datum → List Datum
  | [], done => done.reverse
  | p :: ps, done => partData ps (p.datum :: done)

def AssignTarget.datum : AssignTarget → Datum
  | .variable name => .variant "Variable" (.text name)
  | .member object name => .form "Member" [("object", object.datum), ("name", .text name)]
  | .index object index => .form "Index" [("object", object.datum), ("index", index.datum)]
  | .invalid e => .variant "Invalid" e.datum

def Param.datum : Param → Datum
  | ⟨name, type, default?, span⟩ =>
    .record "Param"
      [("name", .text name), ("ty", typeDatum? type), ("default", exprDatum? default?),
       ("span", span.datum)]

def paramData : List Param → List Datum → List Datum
  | [], done => done.reverse
  | p :: ps, done => paramData ps (p.datum :: done)

def TypeExpr.datum : TypeExpr → Datum
  | ⟨kind, optional, errors, refinement, span, line⟩ =>
    .record "TypeAnnotation"
      [("kind", kind.datum), ("optional", .flag optional), ("fallible", .flag !errors.isEmpty),
       ("error_types", .texts errors), ("refinement", exprDatum? refinement),
       ("span", span.datum), ("line", .number line)]

def TypeKind.datum : TypeKind → Datum
  | .primitive name => .variant "Primitive" (.text name)
  | .named name => .variant "Named" (.text name)
  | .literal text => .variant "Literal" (.text text)
  | .list element => .form "List" [("keyword", .text "list"), ("element", typeDatum? element)]
  | .array => .form "List" [("keyword", .text "array"), ("element", .absent)]
  | .dict key value =>
    .form "Dict" [("key", .present key.datum), ("value", .present value.datum)]
  | .anyDict => .form "Dict" [("key", .absent), ("value", .absent)]
  | .tuple members => .variant "Tuple" (.list (typeData members []))
  | .function params result =>
    .form "Function"
      [("params", .list (typeParamData params [])), ("return_type", typeDatum? result)]
  | .union members => .variant "Union" (.list (typeData members []))
  | .intersection members => .variant "Intersection" (.list (typeData members []))
  | .record fields hasRest bases =>
    .form "Structural"
      [("fields", .list (typeFieldData fields [])), ("has_rest", .flag hasRest),
       ("base_records", .texts bases)]

def typeDatum? : Option TypeExpr → Datum
  | none => .absent
  | some t => .present t.datum

def typeData : List TypeExpr → List Datum → List Datum
  | [], done => done.reverse
  | t :: ts, done => typeData ts (t.datum :: done)

def TypeParam.datum : TypeParam → Datum
  | ⟨name, type, optional⟩ =>
    .record "FunctionTypeParam"
      [("name", .optionalText name), ("ty", type.datum), ("optional", .flag optional)]

def typeParamData : List TypeParam → List Datum → List Datum
  | [], done => done.reverse
  | p :: ps, done => typeParamData ps (p.datum :: done)

def TypeField.datum : TypeField → Datum
  | ⟨name, type⟩ => .record "StructField" [("name", .text name), ("ty", type.datum)]

def typeFieldData : List TypeField → List Datum → List Datum
  | [], done => done.reverse
  | f :: fs, done => typeFieldData fs (f.datum :: done)

def Pattern.datum : Pattern → Datum
  | ⟨kind, span, line⟩ =>
    .record "Pattern" [("kind", kind.datum), ("span", span.datum), ("line", .number line)]

def PatternKind.datum : PatternKind → Datum
  | .value name => .variant "Val" (.text name)
  | .error name type =>
    .form "Err" [("name", .text name), ("error_type", .optionalText type)]
  | .errorType type params =>
    .form "ErrorType" [("error_type", .text type), ("params", .texts params)]
  | .wildcard => .symbol "Wildcard"
  | .list elements rest =>
    .form "List" [("elements", .list (patternData elements [])), ("rest", .optionalText rest)]
  | .dict fields hasRest rest =>
    .form "Dict"
      [("fields", .list (fields.map FieldBinding.datum)), ("has_rest", .flag hasRest),
       ("rest_binding", .optionalText rest)]
  | .tuple elements => .variant "Tuple" (.list (patternData elements []))
  | .binding type name =>
    .form "Binding" [("type_name", .text type), ("variable", .text name)]
  | .type t => .variant "Type" t.datum
  | .literal value => .variant "Literal" value.datum
  | .identifier name => .variant "Identifier" (.text name)

def patternData : List Pattern → List Datum → List Datum
  | [], done => done.reverse
  | p :: ps, done => patternData ps (p.datum :: done)

def Stmt.datum : Stmt → Datum
  | ⟨kind, span, line⟩ =>
    .record "Stmt" [("kind", kind.datum), ("span", span.datum), ("line", .number line)]

def StmtKind.datum : StmtKind → Datum
  | .varDecl decl => .variant "Var" decl.datum
  | .destructuring names initializer =>
    .form "Destructuring" [("names", .texts names), ("initializer", initializer.datum)]
  | .function decl => .variant "Function" decl.datum
  | .classDecl decl => .variant "Class" decl.datum
  | .enumDecl name variants =>
    .variant "Enum"
      (.record "EnumDecl" [("name", .text name), ("variants", .list (variantData variants []))])
  | .typeAlias name type => .form "TypeAlias" [("name", .text name), ("ty", type.datum)]
  | .traitDecl name isOpen methods =>
    .variant "Trait"
      (.record "TraitDecl"
        [("name", .text name), ("is_open", .flag isOpen),
         ("methods", .list (functionData methods []))])
  | .interfaceDecl name isOpen methods =>
    .variant "Interface"
      (.record "TraitDecl"
        [("name", .text name), ("is_open", .flag isOpen),
         ("methods", .list (functionData methods []))])
  | .moduleDecl name forEveryone forHeirs forOwner =>
    .variant "Module"
      (.record "ModuleDecl"
        [("name", .text name), ("public_members", .list (stmtData forEveryone [])),
         ("protected_members", .list (stmtData forHeirs [])),
         ("private_members", .list (stmtData forOwner []))])
  | .ifElse condition thenBranch elseBranch =>
    .form "If"
      [("condition", condition.datum), ("then_branch", thenBranch.datum),
       ("else_branch", stmtDatum? elseBranch)]
  | .forLoop init condition increment body =>
    .variant "For"
      (.form "Traditional"
        [("init", stmtDatum? init), ("condition", exprDatum? condition),
         ("increment", exprDatum? increment), ("body", body.datum)])
  | .forEach vars iterable body =>
    .variant "For"
      (.form "Iterable"
        [("vars", .texts vars), ("iterable", iterable.datum), ("body", body.datum)])
  | .whileLoop condition body =>
    .form "While" [("condition", condition.datum), ("body", body.datum)]
  | .iterLoop vars iterable body =>
    .form "Iter" [("vars", .texts vars), ("iterable", iterable.datum), ("body", body.datum)]
  | .matchCases scrutinee cases =>
    .form "Match" [("scrutinee", scrutinee.datum), ("cases", .list (caseData cases []))]
  | .block body => .variant "Block" body.datum
  | .expression e => .variant "Expression" e.datum
  | .returns value => .variant "Return" (exprDatum? value)
  | .breaks => .symbol "Break"
  | .continues => .symbol "Continue"
  | .print args => .variant "Print" (.list (exprData args []))
  | .imports decl => .variant "Import" decl.datum
  | .parallel settings body =>
    .variant "Parallel"
      (.record "ConcurrencyBlock" [("config", settings.datum), ("body", body.datum)])
  | .concurrent settings body =>
    .variant "Concurrent"
      (.record "ConcurrencyBlock" [("config", settings.datum), ("body", body.datum)])
  | .task var iterable body =>
    .form "Task"
      [("var", .optionalText var), ("iterable", iterable.datum), ("body", body.datum)]
  | .worker param body =>
    .form "Worker" [("param", .optionalText param), ("body", body.datum)]
  | .unsafeBlock body => .variant "Unsafe" body.datum
  | .contract condition message =>
    .form "Contract" [("condition", condition.datum), ("message", exprDatum? message)]
  | .comptime stmt => .variant "Comptime" stmt.datum

def stmtDatum? : Option Stmt → Datum
  | none => .absent
  | some s => .present s.datum

def stmtData : List Stmt → List Datum → List Datum
  | [], done => done.reverse
  | s :: ss, done => stmtData ss (s.datum :: done)

def Block.datum : Block → Datum
  | ⟨statements, span, line⟩ =>
    .record "Block"
      [("statements", .list (stmtData statements [])), ("span", span.datum),
       ("line", .number line)]

def blockDatum? : Option Block → Datum
  | none => .absent
  | some b => .present b.datum

def VarDecl.datum : VarDecl → Datum
  | ⟨name, type, initializer, visibility, isStatic, isConst⟩ =>
    .record "VarDecl"
      [("name", .text name), ("ty", typeDatum? type), ("initializer", exprDatum? initializer),
       ("visibility", .symbol visibility.name), ("is_static", .flag isStatic),
       ("is_const", .flag isConst)]

def varData : List VarDecl → List Datum → List Datum
  | [], done => done.reverse
  | v :: vs, done => varData vs (v.datum :: done)

def FunctionDecl.datum : FunctionDecl → Datum
  | f@⟨name, generics, params, optionalParams, result, body, visibility, isStatic, isAbstract,
      isFinal, span, line⟩ =>
    .record "FunctionDecl"
      [("name", .text name), ("generics", .texts generics),
       ("params", .list (paramData params [])),
       ("optional_params", .list (paramData optionalParams [])),
       ("return_type", typeDatum? result), ("body", blockDatum? body),
       ("visibility", .symbol visibility.name), ("is_static", .flag isStatic),
       ("is_abstract", .flag isAbstract), ("is_final", .flag isFinal),
       ("can_fail", .flag f.canFail), ("declared_error_types", .texts f.declaredErrors),
       ("span", span.datum), ("line", .number line)]

def functionData : List FunctionDecl → List Datum → List Datum
  | [], done => done.reverse
  | f :: fs, done => functionData fs (f.datum :: done)

def ClassDecl.datum : ClassDecl → Datum
  | ⟨name, superclass, superArgs, ctorParams, fields, methods, isAbstract, isFinal, isData,
      tables⟩ =>
    .record "ClassDecl"
      [("name", .text name), ("superclass", .optionalText superclass),
       ("super_args", .list (exprData superArgs [])),
       ("ctor_params", .list (paramData ctorParams [])),
       ("fields", .list (varData fields [])), ("methods", .list (functionData methods [])),
       ("field_visibility", visibilityTable tables.fieldVisibility),
       ("method_visibility", visibilityTable tables.methodVisibility),
       ("is_abstract", .flag isAbstract), ("is_final", .flag isFinal), ("is_data", .flag isData),
       ("static_members", .names tables.staticMembers.names),
       ("read_only_fields", .names tables.readOnlyFields.names),
       ("abstract_methods", .names tables.abstractMethods.names),
       ("final_methods", .names tables.finalMethods.names)]

def EnumVariant.datum : EnumVariant → Datum
  | ⟨name, payload⟩ => .record "EnumVariant" [("name", .text name), ("payload", typeDatum? payload)]

def variantData : List EnumVariant → List Datum → List Datum
  | [], done => done.reverse
  | v :: vs, done => variantData vs (v.datum :: done)

def MatchCase.datum : MatchCase → Datum
  | ⟨pattern, guard, body⟩ =>
    .record "MatchCase"
      [("pattern", pattern.datum), ("guard", exprDatum? guard), ("body", body.datum)]

def caseData : List MatchCase → List Datum → List Datum
  | [], done => done.reverse
  | c :: cs, done => caseData cs (c.datum :: done)

end

def Program.datum (p : Program) : Datum :=
  .record "Program" [("statements", .list (stmtData p.statements [])), ("span", p.span.datum)]

end LimitSyntax.Ast
