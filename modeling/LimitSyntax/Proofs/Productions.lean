import LimitSyntax.Proofs.DeclRules

/-!
# The rules of the grammar

`Grammar.Production rules p` says that `p` is one of the rules of the grammar, given how to call the
rules that occur inside themselves. What is proved of all parsers that are made of the operations of
`Alike` holds of every rule, however deep its calls may be nested.
-/

namespace LimitSyntax.Grammar

open Ast

/-- The parsers that are rules of the grammar. -/
inductive Production (rules : Rules) : {α : Type} → Parse α → Prop where
  -- types
  | listType : Production rules (listType rules)
  | tupleType : Production rules (tupleType rules)
  | dictType : Production rules (dictType rules)
  | typeFieldName : Production rules typeFieldName
  | recordPart (parts : RecordParts) : Production rules (recordPart rules parts)
  | recordType (start line : Nat) : Production rules (recordType rules start line)
  | typeParam : Production rules (typeParam rules)
  | typeParams : Production rules (typeParams rules)
  | functionType : Production rules (functionType rules)
  | keywordFunctionType : Production rules (keywordFunctionType rules)
  | simpleType (kind : Token.Kind) : Production rules (simpleType rules kind)
  | errorTypes : Production rules (errorTypes rules)
  | typeSuffix (t : TypeExpr) : Production rules (typeSuffix rules t)
  | typeMembers (separator : Token.Kind) (first : TypeExpr) :
      Production rules (typeMembers rules separator first)
  | typeWith (refinable : Bool) : Production rules (typeWith rules refinable)
  -- patterns
  | listPattern : Production rules (listPattern rules)
  | fieldBinding : Production rules fieldBinding
  | dictPattern : Production rules (dictPattern rules)
  | errorTypePattern : Production rules (errorTypePattern rules)
  | tuplePattern : Production rules (tuplePattern rules)
  | bindingPattern : Production rules bindingPattern
  | patternOf (node : Tree.Kind) (first : Token) : Production rules (patternOf rules node first)
  -- bodies, parameters and variables
  | nextDeclaration : Production rules (nextDeclaration rules)
  | declarations : Production rules (declarations rules)
  | blockBody (brace : Token) (kind : String) : Production rules (blockBody rules brace kind)
  | block (kind : String) {description : String} (h : description ≠ tooManyErrors) :
      Production rules (block rules kind description)
  | parameter : Production rules (parameter rules)
  | parameters : Production rules (parameters rules)
  | varDeclaration (mods : Modifiers) : Production rules (varDeclaration rules mods)
  -- expressions
  | argument : Production rules (argument rules)
  | callArguments : Production rules (callArguments rules)
  | arguments : Production rules (arguments rules)
  | interpolatedString : Production rules (interpolatedString rules)
  | objectField : Production rules (objectField rules)
  | objectLiteral : Production rules (objectLiteral rules)
  | errorValue : Production rules (errorValue rules)
  | okValue : Production rules (okValue rules)
  | lambda : Production rules (lambda rules)
  | parenthesized : Production rules (parenthesized rules)
  | listLiteral : Production rules (listLiteral rules)
  | dictEntry : Production rules (dictEntry rules)
  | dictLiteral : Production rules (dictLiteral rules)
  | missingExpr (start line : Nat) : Production rules (missingExpr start line)
  | primary : Production rules (primary rules)
  | tupleIndex : Production rules tupleIndex
  | failureHandler : Production rules (failureHandler rules)
  | applied? (c : Option Tree.Checkpoint) (e : Expr) : Production rules (applied? rules c e)
  | callRule : Production rules (callRule rules)
  | product : Production rules (product rules)
  | sum : Production rules (sum rules)
  | comparison : Production rules (comparison rules)
  | equality : Production rules (equality rules)
  | conjunction : Production rules (conjunction rules)
  | disjunction : Production rules (disjunction rules)
  -- statements
  | bodyStatement (kind : String) : Production rules (bodyStatement rules kind)
  | printStatement : Production rules (printStatement rules)
  | elseBranch : Production rules (elseBranch rules)
  | loopHeader : Production rules (loopHeader rules)
  | loopInitializer : Production rules (loopInitializer rules)
  | exprUnless (close : Token.Kind) : Production rules (exprUnless rules close)
  | forStatement : Production rules (forStatement rules)
  | whileStatement : Production rules (whileStatement rules)
  | iterStatement : Production rules (iterStatement rules)
  | returnStatement : Production rules (returnStatement rules)
  | settingValue : Production rules settingValue
  | concurrencySetting (settings : ConcurrencySettings) :
      Production rules (concurrencySetting rules settings)
  | concurrencySettings (defaults : ConcurrencySettings) :
      Production rules (concurrencySettings rules defaults)
  | concurrencyBlock (keyword : String) (defaults : ConcurrencySettings) :
      Production rules (concurrencyBlock rules keyword defaults)
  | taskStatement : Production rules (taskStatement rules)
  | workerStatement : Production rules (workerStatement rules)
  | matchCase : Production rules (matchCase rules)
  | matchStatement : Production rules (matchStatement rules)
  | contractStatement : Production rules (contractStatement rules)
  | statementOf (node : Tree.Kind) : Production rules (statementOf rules node)
  -- declarations
  | modifiers : Production rules (modifiers rules)
  | destructuring : Production rules (destructuring rules)
  | genericNames : Production rules (genericNames rules)
  | functionDeclaration (mods : Modifiers) : Production rules (functionDeclaration rules mods)
  | constructorParts : Production rules (constructorParts rules)
  | classMember (c : ClassDecl) : Production rules (classMember rules c)
  | superclass : Production rules (superclass rules)
  | classDeclaration (mods : Modifiers) : Production rules (classDeclaration rules mods)
  | enumVariant : Production rules (enumVariant rules)
  | enumDeclaration : Production rules (enumDeclaration rules)
  | typeDeclaration : Production rules (typeDeclaration rules)
  | traitDeclaration (mods : Modifiers) (keyword : String) :
      Production rules (traitDeclaration rules mods keyword)
  | moduleDeclaration : Production rules (moduleDeclaration rules)
  | importPath : Production rules (importPath rules)
  | importFilter : Production rules (importFilter rules)
  | importDeclaration : Production rules (importDeclaration rules)
  | declarationOf (mods : Modifiers) (node : Tree.Kind) :
      Production rules (declarationOf rules mods node)
  -- recovery and programs
  | synchronize (progress : Bool) : Production rules (synchronize rules progress)
  | strayBrace : Production rules strayBrace
  | topDeclaration : Production rules (topDeclaration rules)
  -- the rules that occur inside themselves
  | rule {α : Type} (r : Rule α) : Production rules (r.parse rules)

/-- Every rule has a twin. -/
theorem Production.alike {rules : Rules} (hr : rules.Lawful) {α : Type} {p : Parse α}
    (h : Production rules p) : ∃ q, Alike id p q := by
  cases h with
  | listType => exact ⟨_, (Twin.listType hr).alike⟩
  | tupleType => exact ⟨_, (Twin.tupleType hr).alike⟩
  | dictType => exact ⟨_, (Twin.dictType hr).alike⟩
  | typeFieldName => exact ⟨_, (Twin.typeFieldName).alike⟩
  | recordPart parts => exact ⟨_, (Twin.recordPart hr parts).alike⟩
  | recordType start line => exact ⟨_, (Twin.recordType hr start line).alike⟩
  | typeParam => exact ⟨_, (Twin.typeParam hr).alike⟩
  | typeParams => exact ⟨_, (Twin.typeParams hr).alike⟩
  | functionType => exact ⟨_, (Twin.functionType hr).alike⟩
  | keywordFunctionType => exact ⟨_, (Twin.keywordFunctionType hr).alike⟩
  | simpleType kind => exact ⟨_, (Twin.simpleType hr kind).alike⟩
  | errorTypes => exact ⟨_, .errorTypes rules⟩
  | typeSuffix t => exact ⟨_, (Twin.typeSuffix rules t).alike⟩
  | typeMembers separator first => exact ⟨_, .typeMembers hr separator first⟩
  | typeWith refinable => exact ⟨_, (Twin.typeWith hr refinable).alike⟩
  | listPattern => exact ⟨_, (Twin.listPattern hr).alike⟩
  | fieldBinding => exact ⟨_, (Twin.fieldBinding).alike⟩
  | dictPattern => exact ⟨_, (Twin.dictPattern rules).alike⟩
  | errorTypePattern => exact ⟨_, (Twin.errorTypePattern rules).alike⟩
  | tuplePattern => exact ⟨_, (Twin.tuplePattern hr).alike⟩
  | bindingPattern => exact ⟨_, (Twin.bindingPattern).alike⟩
  | patternOf node first => exact ⟨_, (Twin.patternOf hr node first).alike⟩
  | nextDeclaration => exact ⟨_, (Twin.nextDeclaration hr).alike⟩
  | declarations => exact ⟨_, (Twin.declarations hr).alike⟩
  | blockBody brace kind => exact ⟨_, (Twin.blockBody hr brace kind).alike⟩
  | block kind h => exact ⟨_, .block hr kind h⟩
  | parameter => exact ⟨_, (Twin.parameter hr).alike⟩
  | parameters => exact ⟨_, (Twin.parameters hr).alike⟩
  | varDeclaration mods => exact ⟨_, (Twin.varDeclaration hr mods).alike⟩
  | argument => exact ⟨_, (Twin.argument hr).alike⟩
  | callArguments => exact ⟨_, (Twin.callArguments hr).alike⟩
  | arguments => exact ⟨_, (Twin.arguments hr).alike⟩
  | interpolatedString => exact ⟨_, (Twin.interpolatedString hr).alike⟩
  | objectField => exact ⟨_, (Twin.objectField hr).alike⟩
  | objectLiteral => exact ⟨_, (Twin.objectLiteral hr).alike⟩
  | errorValue => exact ⟨_, (Twin.errorValue hr).alike⟩
  | okValue => exact ⟨_, (Twin.okValue hr).alike⟩
  | lambda => exact ⟨_, (Twin.lambda hr).alike⟩
  | parenthesized => exact ⟨_, (Twin.parenthesized hr).alike⟩
  | listLiteral => exact ⟨_, (Twin.listLiteral hr).alike⟩
  | dictEntry => exact ⟨_, (Twin.dictEntry hr).alike⟩
  | dictLiteral => exact ⟨_, (Twin.dictLiteral hr).alike⟩
  | missingExpr start line => exact ⟨_, (Twin.missingExpr start line).alike⟩
  | primary => exact ⟨_, (Twin.primary hr).alike⟩
  | tupleIndex => exact ⟨_, (Twin.tupleIndex).alike⟩
  | failureHandler => exact ⟨_, (Twin.failureHandler hr).alike⟩
  | applied? c e => exact ⟨_, (Twin.applied? hr c e).alike⟩
  | callRule => exact ⟨_, (Twin.callRule hr).alike⟩
  | product => exact ⟨_, (Twin.leftAssociative rfl rfl (.powerRule hr)).alike⟩
  | sum => exact ⟨_, (Twin.sum hr).alike⟩
  | comparison => exact ⟨_, (Twin.comparison hr).alike⟩
  | equality => exact ⟨_, (Twin.leftAssociative rfl rfl (.comparison hr)).alike⟩
  | conjunction =>
    exact ⟨_, (Twin.leftAssociative rfl rfl (.leftAssociative rfl rfl (.comparison hr))).alike⟩
  | disjunction => exact ⟨_, (Twin.disjunction hr).alike⟩
  | bodyStatement kind => exact ⟨_, (Twin.bodyStatement hr kind).alike⟩
  | printStatement => exact ⟨_, .printStatement hr⟩
  | elseBranch => exact ⟨_, (Twin.elseBranch hr).alike⟩
  | loopHeader => exact ⟨_, (Twin.loopHeader hr).alike⟩
  | loopInitializer => exact ⟨_, (Twin.loopInitializer hr).alike⟩
  | exprUnless close => exact ⟨_, (Twin.exprUnless hr close).alike⟩
  | forStatement => exact ⟨_, (Twin.forStatement hr).alike⟩
  | whileStatement => exact ⟨_, (Twin.whileStatement hr).alike⟩
  | iterStatement => exact ⟨_, (Twin.iterStatement hr).alike⟩
  | returnStatement => exact ⟨_, (Twin.returnStatement hr).alike⟩
  | settingValue => exact ⟨_, (Twin.settingValue).alike⟩
  | concurrencySetting settings => exact ⟨_, (Twin.concurrencySetting hr settings).alike⟩
  | concurrencySettings defaults => exact ⟨_, (Twin.concurrencySettings hr defaults).alike⟩
  | concurrencyBlock keyword defaults => exact ⟨_, .concurrencyBlock hr keyword defaults⟩
  | taskStatement => exact ⟨_, (Twin.taskStatement hr).alike⟩
  | workerStatement => exact ⟨_, (Twin.workerStatement hr).alike⟩
  | matchCase => exact ⟨_, (Twin.matchCase hr).alike⟩
  | matchStatement => exact ⟨_, (Twin.matchStatement hr).alike⟩
  | contractStatement => exact ⟨_, (Twin.contractStatement hr).alike⟩
  | statementOf node => exact ⟨_, .statementOf hr node⟩
  | modifiers => exact ⟨_, (Twin.modifiers rules).alike⟩
  | destructuring => exact ⟨_, (Twin.destructuring hr).alike⟩
  | genericNames => exact ⟨_, (Twin.genericNames rules).alike⟩
  | functionDeclaration mods => exact ⟨_, (Twin.functionDeclaration hr mods).alike⟩
  | constructorParts => exact ⟨_, (Twin.constructorParts hr).alike⟩
  | classMember c => exact ⟨_, (Twin.classMember hr c).alike⟩
  | superclass => exact ⟨_, (Twin.superclass hr).alike⟩
  | classDeclaration mods => exact ⟨_, (Twin.classDeclaration hr mods).alike⟩
  | enumVariant => exact ⟨_, (Twin.enumVariant hr).alike⟩
  | enumDeclaration => exact ⟨_, (Twin.enumDeclaration hr).alike⟩
  | typeDeclaration => exact ⟨_, (Twin.typeDeclaration hr).alike⟩
  | traitDeclaration mods keyword => exact ⟨_, .traitDeclaration hr mods keyword⟩
  | moduleDeclaration => exact ⟨_, (Twin.moduleDeclaration hr).alike⟩
  | importPath => exact ⟨_, (Twin.importPath rules).alike⟩
  | importFilter => exact ⟨_, (Twin.importFilter rules).alike⟩
  | importDeclaration => exact ⟨_, (Twin.importDeclaration rules).alike⟩
  | declarationOf mods node => exact ⟨_, (Twin.declarationOf hr mods node).alike⟩
  | synchronize progress => exact ⟨_, (Twin.synchronize rules progress).alike⟩
  | strayBrace => exact ⟨_, Twin.strayBrace.alike⟩
  | topDeclaration => exact ⟨_, (Twin.topDeclaration hr).alike⟩
  | rule r => exact ⟨_, (Twin.rule hr r).alike⟩

end LimitSyntax.Grammar
