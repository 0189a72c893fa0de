import LimitSyntax.Ast.Datum
import LimitSyntax.Command.Arguments
import LimitSyntax.Diagnostic.Datum
import LimitSyntax.Diagnostic.Render
import LimitSyntax.Settings
import LimitSyntax.Tree.Basic

/-!
# Runs

What a request writes. The settings are loaded first, then the source is read; nothing is written if
either fails. Errors are shown next to the result, or as the result if they are asked for as JSON.
-/

namespace LimitSyntax.Command

/-- The largest source, in bytes. -/
def maxSourceSize : Nat := 1000000

/-- Why nothing was done. -/
inductive Failure where
  | settings (cause : Settings.Failure)
  | unreadable (path : String) (cause : ReadFailure)
  /-- The source is too large. -/
  | oversized (size : Nat)

/-- The wording of a failure. -/
def Failure.message : Failure → String
  | settings cause => cause.message
  | unreadable path cause => "Failed to read " ++ path ++ ": " ++ cause.message
  | oversized size =>
    "source file exceeds " ++ toString (maxSourceSize / 1000000) ++ "MB limit (" ++
      toString size ++ " bytes)"

/-- What a run yields. -/
structure Outcome where
  /-- The result. -/
  out : String
  /-- The errors as they are shown. -/
  err : String
  /-- Number of errors. -/
  errors : Nat

/-- Whether there are no errors. -/
def Outcome.isClean (o : Outcome) : Bool := o.errors = 0

/-- What a run depends on apart from its arguments. -/
structure Surroundings where
  files : Files
  /-- The user's settings file. -/
  userSettings : Option String := none
  /-- Whether errors go to a terminal that has colours. -/
  hasColors : Bool := false

/-- Whether to colour errors, given the setting and the terminal. -/
def Color.resolve (color : Color) (configured terminal : Bool) : Bool :=
  match color with
  | always => true
  | never => false
  | auto => configured && terminal

/-- One line of the list of tokens. -/
def tokenLine (t : Token) : String :=
  toString t.line ++ ":" ++ toString t.span.start ++ ".." ++ toString t.span.stop ++ " " ++
    t.kind.name ++ " " ++ Text.quote t.lexeme ++ "\n"

/-- A datum in the given format, or as the text that the other format has for it. -/
def Format.write (format : Format) (d : Datum) (pretty : String) : String :=
  match format with
  | .pretty => pretty
  | .json => d.json.layered ++ "\n"

/-- The result of an action on a source, and the errors in it. -/
def perform (request : Request) (maxErrors : Nat) (source : Source)
    (errors : Diagnostic.Collector) : String × Diagnostic.Collector :=
  match request.action with
  | .tokens =>
    let (stream, errors) := Scan.scan source (if request.cst then .lossless else .lossy) errors
    (request.format.write (.list (stream.tokens.map Token.datum))
      (String.join (stream.tokens.map tokenLine)), errors)
  | .parse =>
    let (stream, errors) := Scan.scan source .lossy errors
    let (result, errors) := Grammar.parse stream { maxErrors } errors
    let d := result.program.datum
    (request.format.write d (d.outline ++ "\n"), errors)
  | .cst =>
    let (stream, errors) := Scan.scan source .lossless errors
    let (result, errors) := Grammar.parse stream { buildTree := true, maxErrors } errors
    ((result.tree.map fun tree => request.format.write tree.datum tree.dump).getD "", errors)
  | .check =>
    let limit := (request.maxErrors.map (max 1)).getD maxErrors
    let (stream, errors) := Scan.scan source .lossy errors
    let (_, errors) := Grammar.parse stream { maxErrors := limit } errors
    (match request.format with
      | .json => String.join (errors.messages.toList.map fun m => m.datum.json.line ++ "\n")
      | .pretty => if errors.isEmpty then source.file ++ ": ok\n" else "", errors)

/-- Whether errors are shown apart from the result. -/
def Request.showsErrors (request : Request) : Bool :=
  !(request.action = .check && request.format = .json)

/-- The source of a request. -/
def readSource (files : Files) (path : String) : Except Failure Source := do
  let text ← (files.text path).mapError (.unreadable path)
  if text.utf8ByteSize > maxSourceSize then throw (.oversized text.utf8ByteSize)
  return ⟨text, path⟩

/-- Does what is asked for. -/
def run (around : Surroundings) (request : Request) : Except Failure Outcome := do
  let settings ← (Settings.load around.files request.config around.userSettings).mapError .settings
  let source ← readSource around.files request.file
  let options := { settings.render with
    colors := request.color.resolve settings.render.colors around.hasColors }
  let (out, errors) := perform request settings.maxErrors source { options }
  let err := if request.showsErrors then Diagnostic.render options errors.messages.toList else ""
  return ⟨out, err, errors.size⟩

end LimitSyntax.Command
