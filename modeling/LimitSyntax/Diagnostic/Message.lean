import LimitSyntax.Diagnostic.Advice
import LimitSyntax.Diagnostic.Code
import LimitSyntax.Diagnostic.Excerpt

/-!
# Error messages

A message is built from its stage and description, which fix its code, hint and suggestion, and is
then given a position, a token and an excerpt of the source.
-/

namespace LimitSyntax.Diagnostic

/-- The opening of a body in braces. -/
structure Block where
  /-- What the body belongs to: a function, a class, a loop. -/
  kind : String
  line : Nat
  column : Nat
  lexeme : String
  deriving DecidableEq, Inhabited

/-- A note of three lines that shows where the body was opened. -/
def Block.note (b : Block) : String :=
  let number := toString b.line
  let gutter := max number.length 2
  "Unterminated " ++ b.kind ++ " starting at line " ++ number ++ ":\n" ++
    Text.padLeft gutter number ++ " | " ++ b.lexeme ++ "\n" ++
    Text.spaces gutter ++ " | " ++ "--------- unclosed block starts here"

/-- A reported error. -/
structure Message where
  code : Code
  category : Category
  description : String
  file : String
  line : Nat
  column : Nat
  /-- The text of the token at fault. -/
  token : String
  stage : Stage
  /-- Rows of source text around the error. -/
  excerpt : List String
  hint : Option String
  suggestion : Option String
  cause : Option String
  block : Option Block
  deriving DecidableEq, Inhabited

namespace Message

/-- The message of an error found in `stage`, as yet without a position. -/
def new (stage : Stage) (description : String) : Message where
  code := .assign stage description
  category := stage.category
  description
  file := ""
  line := 0
  column := 0
  token := ""
  stage
  excerpt := []
  hint := (Advice.find? description).map (·.hint)
  suggestion := (Advice.find? description).map (·.suggest "")
  cause := none
  block := none

/-- Places the error. -/
def locate (m : Message) (line column : Nat) : Message := { m with line, column }

/-- Names the file. -/
def inFile (m : Message) (file : String) : Message := { m with file }

/-- Names the token at fault and words the suggestion for it. -/
def onToken (m : Message) (token : String) : Message :=
  { m with token, suggestion := (Advice.find? m.description).map (·.suggest token) }

/-- Blames the opening of a body. -/
def inBlock (m : Message) (block : Block) : Message :=
  { m with cause := some block.note, block := some block }

/-- Shows the lines of `source` around the error. -/
def withSource (m : Message) (source : String) (before after : Nat) : Message :=
  { m with
    excerpt := Diagnostic.excerpt source m.line m.column m.token before after }

end Message

/-- What makes two reports the same. -/
structure Key where
  description : String
  line : Nat
  column : Nat
  file : String
  deriving DecidableEq, Inhabited

def Message.key (m : Message) : Key := ⟨m.description, m.line, m.column, m.file⟩

end LimitSyntax.Diagnostic
