import LimitSyntax.Diagnostic.Collector

/-!
# Rendering of error messages

A message is laid out as a row of pieces, each with the ink it is to be written in. Colour is put on
when the pieces are written, and changes nothing else.
-/

namespace LimitSyntax.Diagnostic

/-- What a piece of a rendered message is. -/
inductive Ink where
  | plain | header | gutter | lineNumber | indicator | hint | suggestion | path | cause
  deriving DecidableEq, Inhabited

/-- The control sequence that turns a colour or weight on. -/
def escapeSequence (parameter : Nat) : String := "\x1b[" ++ toString parameter ++ "m"

/-- The control sequence numbers of an ink. -/
def Ink.parameters : Ink → List Nat
  | .plain => []
  | .header => [1, 31]
  | .gutter => [90]
  | .lineNumber => [36]
  | .indicator => [91]
  | .hint => [33]
  | .suggestion => [32]
  | .path => [34]
  | .cause => [94]

/-- A piece of a rendered message. -/
structure Piece where
  ink : Ink
  text : String

namespace Piece

def plain (text : String) : Piece := ⟨.plain, text⟩

/-- The end of a row. -/
def newline : Piece := plain "\n"

/-- The text of a piece, in its colours if these are wanted. -/
def write (colors : Bool) (p : Piece) : String :=
  if colors && p.ink != .plain then
    String.join (p.ink.parameters.map escapeSequence) ++ p.text ++ escapeSequence 0
  else p.text

end Piece

/-- The text of a row of pieces. -/
def writePieces (colors : Bool) (pieces : List Piece) : String :=
  String.join (pieces.map (·.write colors))

/-- The rows after the first of a cause are indented by this much. -/
def causeIndent : String := Text.spaces 11

/-- `text` cut to `limit` characters, the last of them an ellipsis. -/
def truncate (limit : Nat) (text : List Char) : List Char :=
  if limit = 0 ∨ text.length ≤ limit then text else text.take (limit - 1) ++ ['…']

namespace Message

/-- The first row of a message. -/
def header (m : Message) : String :=
  let token := String.ofList (Text.trim m.token.toList)
  let shown :=
    if token.isEmpty || Text.contains m.description token then "" else " `" ++ token ++ "`"
  "error[" ++ m.code.text ++ "][" ++ m.category.name ++ "]: " ++ m.description ++ shown

/-- The file, line and column of a message. -/
def location (m : Message) : String :=
  m.file ++ ":" ++ toString m.line ++ ":" ++ toString m.column

/-- Whether anything is said after the excerpt. -/
def hasNotes (m : Message) : Bool := m.hint.isSome || m.suggestion.isSome || m.cause.isSome

end Message

/-- A row of an excerpt. What stands before the first bar is the line number, or blank in the row of
carets. -/
def excerptPieces (limit : Nat) (row : String) : List Piece :=
  match Text.cut " | ".toList row.toList with
  | none => [⟨.gutter, row⟩, .newline]
  | some (number, text) =>
    let shown := String.ofList (truncate limit text)
    let number' := String.ofList number
    if (Text.trim number).isEmpty then
      [⟨.gutter, number' ++ " | "⟩, ⟨.indicator, shown⟩, .newline]
    else [⟨.lineNumber, number'⟩, ⟨.gutter, " | "⟩, .plain shown, .newline]

/-- The rows of a cause, the later ones set below the first. -/
def causePieces (cause : String) : List Piece :=
  match (Text.lines cause.toList).map String.ofList with
  | [] => [⟨.cause, "Caused by:"⟩, .newline]
  | first :: rest =>
    [⟨.cause, "Caused by:"⟩, .plain (" " ++ first), .newline] ++
      rest.flatMap fun row => [.plain (causeIndent ++ row), .newline]

/-- Hint, suggestion, cause and file of a message. -/
def notePieces (filePath : Bool) (m : Message) : List Piece :=
  [.newline] ++
    (m.hint.map fun text => [⟨.hint, "Hint:"⟩, .plain (" " ++ text), .newline]).getD [] ++
    (m.suggestion.map fun text =>
      [⟨.suggestion, "Suggestion:"⟩, .plain (" " ++ text), .newline]).getD [] ++
    (m.cause.map causePieces).getD [] ++
    if filePath then [.newline, .plain "File: ", ⟨.path, m.file⟩, .newline] else []

def messagePieces (o : Options) (m : Message) : List Piece :=
  [⟨.header, m.header⟩, .newline, ⟨.gutter, "--> "⟩, ⟨.path, m.location⟩, .newline] ++
    (if m.excerpt.isEmpty then [] else
      [⟨.gutter, "   |"⟩, .newline] ++ m.excerpt.flatMap (excerptPieces o.lineWidth)) ++
    if m.hasNotes then notePieces o.filePath m else []

/-- Messages in order, a blank row between two of them. -/
def pieces (o : Options) : List Message → List Piece
  | [] => []
  | [m] => messagePieces o m
  | m :: rest => messagePieces o m ++ .newline :: pieces o rest

/-- The text of a list of messages. -/
def render (o : Options) (messages : List Message) : String :=
  writePieces o.colors (pieces o messages)

end LimitSyntax.Diagnostic
