/-!
# Stages of compilation

Every error belongs to the stage that found it. The stage decides the category of the error and the
range of its code.
-/

namespace LimitSyntax.Diagnostic

/-- What sort of error a stage reports. -/
inductive Category where
  | lexical | grammatical | semantic | runtime | bytecode | compilation
  deriving DecidableEq, Inhabited

def Category.name : Category → String
  | .lexical => "LexicalError"
  | .grammatical => "SyntaxError"
  | .semantic => "SemanticError"
  | .runtime => "RuntimeError"
  | .bytecode => "BytecodeError"
  | .compilation => "CompilationError"

/-- A stage of compilation. -/
inductive Stage where
  | scanning | parsing | grammar | semantic | bytecode | interpreting | compiling
  deriving DecidableEq, Inhabited

namespace Stage

/-- Every stage. -/
def all : List Stage :=
  [.scanning, .parsing, .grammar, .semantic, .bytecode, .interpreting, .compiling]

def name : Stage → String
  | .scanning => "Scanning"
  | .parsing => "Parsing"
  | .grammar => "Syntax"
  | .semantic => "Semantic"
  | .bytecode => "Bytecode"
  | .interpreting => "Interpreting"
  | .compiling => "Compiling"

def ofName? (name : String) : Option Stage := all.find? (·.name == name)

/-- The sort of error a stage reports. -/
def category : Stage → Category
  | .scanning => .lexical
  | .parsing | .grammar => .grammatical
  | .semantic => .semantic
  | .bytecode => .bytecode
  | .interpreting => .runtime
  | .compiling => .compilation

/-- The least code of a stage. -/
def firstCode : Stage → Nat
  | .scanning => 1
  | .parsing | .grammar => 100
  | .semantic => 200
  | .bytecode => 300
  | .interpreting => 400
  | .compiling => 500

/-- The greatest code of a stage. -/
def lastCode : Stage → Nat
  | .scanning => 99
  | .parsing | .grammar => 199
  | .semantic => 299
  | .bytecode => 399
  | .interpreting => 499
  | .compiling => 599

/-- Whether a code lies in the range of a stage. -/
def owns (s : Stage) (code : Nat) : Bool := s.firstCode ≤ code && code ≤ s.lastCode

end Stage

end LimitSyntax.Diagnostic
