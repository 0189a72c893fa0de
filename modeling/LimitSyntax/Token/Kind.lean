/-!
# Kinds of tokens

Every kind has a name. Punctuation, keywords and annotations also have one spelling; the text of
the other kinds varies and is found in the token.
-/

namespace LimitSyntax.Token

inductive Kind where
  -- delimiters
  | leftParen | rightParen | leftBrace | rightBrace | leftBracket | rightBracket | comma | dot
  | colon | semicolon | question | range | ellipsis | arrow
  -- operators
  | plus | minus | star | slash | modulus | power | bang | bangEqual | equal | equalEqual
  | greater | greaterEqual | less | lessEqual | plusEqual | minusEqual | starEqual | slashEqual
  | modulusEqual | pipe | ampersand | caret | tilde | atSign
  -- literals
  | identifier | intLiteral | floatLiteral | scientificLiteral | string | interpolationStart
  | interpolationEnd | kwTrue | kwFalse | kwNil
  -- type keywords
  | intType | int8Type | int16Type | int32Type | int64Type | int128Type | uintType | uint8Type
  | uint16Type | uint32Type | uint64Type | uint128Type | floatType | float32Type | float64Type
  | strType | boolType | anyType | listType | arrayType | dictType | optionType | functionType
  -- structural keywords
  | kwAnd | kwOr | kwFn | kwVar | kwIf | kwElif | kwElse | kwWhile | kwFor | kwIter | kwIn
  | kwMatch | kwClass | kwTrait | kwInterface | kwModule | kwEnum | kwType | kwImport | kwAs
  | kwShow | kwHide | kwWhere | kwParallel | kwConcurrent | kwUnsafe | kwContract | kwComptime
  | kwOk | kwErr | kwVal | kwPrint | kwReturn | kwBreak | kwContinue | kwThis | kwSelf | kwSuper
  | underscore
  -- modifiers
  | kwPub | kwProt | kwConst | kwStatic | kwAbstract | kwFinal | kwData
  -- annotations
  | atPublic | atPrivate | atProtected | atOpen | atProperty | atCache
  -- made by the scanner and by recovery
  | error | missing | eof
  deriving DecidableEq, Inhabited

namespace Kind

/-- Every kind, in order of declaration. -/
def all : List Kind :=
  [.leftParen, .rightParen, .leftBrace, .rightBrace, .leftBracket, .rightBracket, .comma, .dot,
   .colon, .semicolon, .question, .range, .ellipsis, .arrow, .plus, .minus, .star, .slash,
   .modulus, .power, .bang, .bangEqual, .equal, .equalEqual, .greater, .greaterEqual, .less,
   .lessEqual, .plusEqual, .minusEqual, .starEqual, .slashEqual, .modulusEqual, .pipe,
   .ampersand, .caret, .tilde, .atSign, .identifier, .intLiteral, .floatLiteral,
   .scientificLiteral, .string, .interpolationStart, .interpolationEnd, .kwTrue, .kwFalse,
   .kwNil, .intType, .int8Type, .int16Type, .int32Type, .int64Type, .int128Type, .uintType,
   .uint8Type, .uint16Type, .uint32Type, .uint64Type, .uint128Type, .floatType, .float32Type,
   .float64Type, .strType, .boolType, .anyType, .listType, .arrayType, .dictType, .optionType,
   .functionType, .kwAnd, .kwOr, .kwFn, .kwVar, .kwIf, .kwElif, .kwElse, .kwWhile, .kwFor,
   .kwIter, .kwIn, .kwMatch, .kwClass, .kwTrait, .kwInterface, .kwModule, .kwEnum, .kwType,
   .kwImport, .kwAs, .kwShow, .kwHide, .kwWhere, .kwParallel, .kwConcurrent, .kwUnsafe,
   .kwContract, .kwComptime, .kwOk, .kwErr, .kwVal, .kwPrint, .kwReturn, .kwBreak, .kwContinue,
   .kwThis, .kwSelf, .kwSuper, .underscore, .kwPub, .kwProt, .kwConst, .kwStatic, .kwAbstract,
   .kwFinal, .kwData, .atPublic, .atPrivate, .atProtected, .atOpen, .atProperty, .atCache,
   .error, .missing, .eof]

def name : Kind → String
  | .leftParen => "LeftParen"
  | .rightParen => "RightParen"
  | .leftBrace => "LeftBrace"
  | .rightBrace => "RightBrace"
  | .leftBracket => "LeftBracket"
  | .rightBracket => "RightBracket"
  | .comma => "Comma"
  | .dot => "Dot"
  | .colon => "Colon"
  | .semicolon => "Semicolon"
  | .question => "Question"
  | .range => "Range"
  | .ellipsis => "Ellipsis"
  | .arrow => "Arrow"
  | .plus => "Plus"
  | .minus => "Minus"
  | .star => "Star"
  | .slash => "Slash"
  | .modulus => "Modulus"
  | .power => "Power"
  | .bang => "Bang"
  | .bangEqual => "BangEqual"
  | .equal => "Equal"
  | .equalEqual => "EqualEqual"
  | .greater => "Greater"
  | .greaterEqual => "GreaterEqual"
  | .less => "Less"
  | .lessEqual => "LessEqual"
  | .plusEqual => "PlusEqual"
  | .minusEqual => "MinusEqual"
  | .starEqual => "StarEqual"
  | .slashEqual => "SlashEqual"
  | .modulusEqual => "ModulusEqual"
  | .pipe => "Pipe"
  | .ampersand => "Ampersand"
  | .caret => "Caret"
  | .tilde => "Tilde"
  | .atSign => "At"
  | .identifier => "Identifier"
  | .intLiteral => "IntLiteral"
  | .floatLiteral => "FloatLiteral"
  | .scientificLiteral => "ScientificLiteral"
  | .string => "String"
  | .interpolationStart => "InterpolationStart"
  | .interpolationEnd => "InterpolationEnd"
  | .kwTrue => "True"
  | .kwFalse => "False"
  | .kwNil => "Nil"
  | .intType => "IntType"
  | .int8Type => "Int8Type"
  | .int16Type => "Int16Type"
  | .int32Type => "Int32Type"
  | .int64Type => "Int64Type"
  | .int128Type => "Int128Type"
  | .uintType => "UintType"
  | .uint8Type => "Uint8Type"
  | .uint16Type => "Uint16Type"
  | .uint32Type => "Uint32Type"
  | .uint64Type => "Uint64Type"
  | .uint128Type => "Uint128Type"
  | .floatType => "FloatType"
  | .float32Type => "Float32Type"
  | .float64Type => "Float64Type"
  | .strType => "StrType"
  | .boolType => "BoolType"
  | .anyType => "AnyType"
  | .listType => "ListType"
  | .arrayType => "ArrayType"
  | .dictType => "DictType"
  | .optionType => "OptionType"
  | .functionType => "FunctionType"
  | .kwAnd => "And"
  | .kwOr => "Or"
  | .kwFn => "Fn"
  | .kwVar => "Var"
  | .kwIf => "If"
  | .kwElif => "Elif"
  | .kwElse => "Else"
  | .kwWhile => "While"
  | .kwFor => "For"
  | .kwIter => "Iter"
  | .kwIn => "In"
  | .kwMatch => "Match"
  | .kwClass => "Class"
  | .kwTrait => "Trait"
  | .kwInterface => "Interface"
  | .kwModule => "Module"
  | .kwEnum => "Enum"
  | .kwType => "Type"
  | .kwImport => "Import"
  | .kwAs => "As"
  | .kwShow => "Show"
  | .kwHide => "Hide"
  | .kwWhere => "Where"
  | .kwParallel => "Parallel"
  | .kwConcurrent => "Concurrent"
  | .kwUnsafe => "Unsafe"
  | .kwContract => "Contract"
  | .kwComptime => "Comptime"
  | .kwOk => "Ok"
  | .kwErr => "Err"
  | .kwVal => "Val"
  | .kwPrint => "Print"
  | .kwReturn => "Return"
  | .kwBreak => "Break"
  | .kwContinue => "Continue"
  | .kwThis => "This"
  | .kwSelf => "SelfKw"
  | .kwSuper => "Super"
  | .underscore => "Default"
  | .kwPub => "Pub"
  | .kwProt => "Prot"
  | .kwConst => "Const"
  | .kwStatic => "Static"
  | .kwAbstract => "Abstract"
  | .kwFinal => "Final"
  | .kwData => "Data"
  | .atPublic => "AtPublic"
  | .atPrivate => "AtPrivate"
  | .atProtected => "AtProtected"
  | .atOpen => "AtOpen"
  | .atProperty => "AtProperty"
  | .atCache => "AtCache"
  | .error => "Error"
  | .missing => "Missing"
  | .eof => "Eof"

/-- The one spelling of a kind, if it has one. An arrow may also be spelled `=>`. -/
def spelling? : Kind → Option String
  | .leftParen => some "("
  | .rightParen => some ")"
  | .leftBrace => some "\x7b"
  | .rightBrace => some "\x7d"
  | .leftBracket => some "["
  | .rightBracket => some "]"
  | .comma => some ","
  | .dot => some "."
  | .colon => some ":"
  | .semicolon => some ";"
  | .question => some "?"
  | .range => some ".."
  | .ellipsis => some "..."
  | .arrow => some "->"
  | .plus => some "+"
  | .minus => some "-"
  | .star => some "*"
  | .slash => some "/"
  | .modulus => some "%"
  | .power => some "**"
  | .bang => some "!"
  | .bangEqual => some "!="
  | .equal => some "="
  | .equalEqual => some "=="
  | .greater => some ">"
  | .greaterEqual => some ">="
  | .less => some "<"
  | .lessEqual => some "<="
  | .plusEqual => some "+="
  | .minusEqual => some "-="
  | .starEqual => some "*="
  | .slashEqual => some "/="
  | .modulusEqual => some "%="
  | .pipe => some "|"
  | .ampersand => some "&"
  | .caret => some "^"
  | .tilde => some "~"
  | .atSign => some "@"
  | .kwTrue => some "true"
  | .kwFalse => some "false"
  | .kwNil => some "nil"
  | .intType => some "int"
  | .int8Type => some "i8"
  | .int16Type => some "i16"
  | .int32Type => some "i32"
  | .int64Type => some "i64"
  | .int128Type => some "i128"
  | .uintType => some "uint"
  | .uint8Type => some "u8"
  | .uint16Type => some "u16"
  | .uint32Type => some "u32"
  | .uint64Type => some "u64"
  | .uint128Type => some "u128"
  | .floatType => some "float"
  | .float32Type => some "f32"
  | .float64Type => some "f64"
  | .strType => some "str"
  | .boolType => some "bool"
  | .anyType => some "any"
  | .listType => some "list"
  | .arrayType => some "array"
  | .dictType => some "dict"
  | .optionType => some "option"
  | .functionType => some "function"
  | .kwAnd => some "and"
  | .kwOr => some "or"
  | .kwFn => some "fn"
  | .kwVar => some "var"
  | .kwIf => some "if"
  | .kwElif => some "elif"
  | .kwElse => some "else"
  | .kwWhile => some "while"
  | .kwFor => some "for"
  | .kwIter => some "iter"
  | .kwIn => some "in"
  | .kwMatch => some "match"
  | .kwClass => some "class"
  | .kwTrait => some "trait"
  | .kwInterface => some "interface"
  | .kwModule => some "module"
  | .kwEnum => some "enum"
  | .kwType => some "type"
  | .kwImport => some "import"
  | .kwAs => some "as"
  | .kwShow => some "show"
  | .kwHide => some "hide"
  | .kwWhere => some "where"
  | .kwParallel => some "parallel"
  | .kwConcurrent => some "concurrent"
  | .kwUnsafe => some "unsafe"
  | .kwContract => some "contract"
  | .kwComptime => some "comptime"
  | .kwOk => some "ok"
  | .kwErr => some "err"
  | .kwVal => some "val"
  | .kwPrint => some "print"
  | .kwReturn => some "return"
  | .kwBreak => some "break"
  | .kwContinue => some "continue"
  | .kwThis => some "this"
  | .kwSelf => some "self"
  | .kwSuper => some "super"
  | .underscore => some "_"
  | .kwPub => some "pub"
  | .kwProt => some "prot"
  | .kwConst => some "const"
  | .kwStatic => some "static"
  | .kwAbstract => some "abstract"
  | .kwFinal => some "final"
  | .kwData => some "data"
  | .atPublic => some "@public"
  | .atPrivate => some "@private"
  | .atProtected => some "@protected"
  | .atOpen => some "@open"
  | .atProperty => some "@property"
  | .atCache => some "@cache"
  | .identifier | .intLiteral | .floatLiteral | .scientificLiteral | .string
  | .interpolationStart | .interpolationEnd | .error | .missing | .eof => none

/-- The words that are keywords. The lone underscore is not among them. -/
def keywords : List Kind :=
  [.kwAnd, .kwOr, .kwFn, .kwVar, .kwIf, .kwElif, .kwElse, .kwWhile, .kwFor, .kwIter, .kwIn,
   .kwMatch, .kwClass, .kwTrait, .kwInterface, .kwModule, .kwEnum, .kwType, .kwImport, .kwAs,
   .kwShow, .kwHide, .kwWhere, .kwParallel, .kwConcurrent, .kwUnsafe, .kwContract, .kwComptime,
   .kwOk, .kwErr, .kwVal, .kwPrint, .kwReturn, .kwBreak, .kwContinue, .kwThis, .kwSelf, .kwSuper,
   .kwTrue, .kwFalse, .kwNil, .kwPub, .kwProt, .kwConst, .kwStatic, .kwAbstract, .kwFinal,
   .kwData, .intType, .int8Type, .int16Type, .int32Type, .int64Type, .int128Type, .uintType,
   .uint8Type, .uint16Type, .uint32Type, .uint64Type, .uint128Type, .floatType, .float32Type,
   .float64Type, .strType, .boolType, .anyType, .listType, .arrayType, .dictType, .optionType,
   .functionType]

/-- The annotations, each spelled with its at sign. -/
def annotations : List Kind :=
  [.atPublic, .atPrivate, .atProtected, .atOpen, .atProperty, .atCache]

def ofName? (name : String) : Option Kind := all.find? (·.name == name)

def ofWord? (word : String) : Option Kind := keywords.find? (·.spelling? == some word)

/-- The annotation with the given name after its at sign. -/
def ofAnnotation? (name : String) : Option Kind :=
  annotations.find? (·.spelling? == some ("@" ++ name))

/-- How a kind is shown to the reader: its spelling between quotes, or else its name. -/
def display (k : Kind) : String :=
  match k.spelling? with
  | some text => "\x27" ++ text ++ "\x27"
  | none => k.name

/-- Keywords that name a type without structure. -/
def isPrimitiveType : Kind → Bool
  | .intType | .int8Type | .int16Type | .int32Type | .int64Type | .int128Type
  | .uintType | .uint8Type | .uint16Type | .uint32Type | .uint64Type | .uint128Type
  | .floatType | .float32Type | .float64Type | .strType | .boolType | .anyType | .kwNil => true
  | _ => false

/-- Numeric literals. -/
def isNumber : Kind → Bool
  | .intLiteral | .floatLiteral | .scientificLiteral => true
  | _ => false

/-- Keywords that modify the declaration after them. -/
def isModifier : Kind → Bool
  | .kwPub | .kwProt | .kwConst | .kwStatic | .kwAbstract | .kwFinal | .kwData => true
  | _ => false

end Kind

end LimitSyntax.Token
