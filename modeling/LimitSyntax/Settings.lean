import LimitSyntax.Command.Files
import LimitSyntax.Grammar.Program
import LimitSyntax.Toml.Document

/-!
# Settings

How errors are shown and how many of them end a parse. Settings are read from a TOML document with a
section `render`, in which unknown keys are skipped, and a section `parser`, which has no other key
than `max_errors`. What is not set keeps its default.
-/

namespace LimitSyntax

/-- The settings of a run. -/
structure Settings where
  render : Diagnostic.Options := {}
  maxErrors : Nat := 20
  deriving DecidableEq, Inhabited

namespace Toml.Value

/-- A truth value. -/
def flag? : Value → Option Bool
  | .boolean b => some b
  | _ => none

/-- A number without a sign that fits into 64 bits. -/
def count? : Value → Option Nat
  | .integer n => if 0 ≤ n ∧ n < Text.wordLimit then some n.toNat else none
  | _ => none

mutual
/-- Whether all numbers in a value can be held: integers in 128 bits, fractions in a double. -/
def isHeld : Value → Bool
  | .integer n => -((1 <<< 127 : Nat) : Int) ≤ n && n < (1 <<< 128 : Nat)
  | .float infinite => !infinite
  | .array _ elements => areHeld elements
  | .table _ entries => entriesHeld entries
  | _ => true

/-- `isHeld` for all values of a list. -/
def areHeld : List Value → Bool
  | [] => true
  | v :: vs => isHeld v && areHeld vs

/-- `isHeld` for all values of a table. -/
def entriesHeld : List (String × Value) → Bool
  | [] => true
  | (_, v) :: rest => isHeld v && entriesHeld rest
end

/-- The entries of a section. Without names, as an array, its values stand in the order of `names`,
and further ones are skipped. A date has no entry but itself. -/
def section? (names : List String) : Value → Option Entries
  | .table _ entries => some entries
  | .array _ elements => some (names.zip elements)
  | .moment => some [("moment", .moment)]
  | _ => none

end Toml.Value

namespace Settings

open Toml (Value Entries)

/-- The names of the settings in the section `render`, in their order. -/
def renderNames : List String :=
  ["use_colors", "show_file_path", "max_line_width", "context_before", "context_after"]

/-- The names of the settings in the section `parser`. -/
def parserNames : List String := ["max_errors"]

/-- Follows an entry of the section `render`. -/
def withRender (options : Diagnostic.Options) (entry : String × Value) :
    Option Diagnostic.Options :=
  let (key, value) := entry
  match key with
  | "use_colors" => do return { options with colors := ← value.flag? }
  | "show_file_path" => do return { options with filePath := ← value.flag? }
  | "max_line_width" => do return { options with lineWidth := ← value.count? }
  | "context_before" => do return { options with before := ← value.count? }
  | "context_after" => do return { options with after := ← value.count? }
  | _ => if value.isHeld then some options else none

/-- Follows an entry of the section `parser`. -/
def withParser (settings : Settings) (entry : String × Value) : Option Settings :=
  let (key, value) := entry
  match key with
  | "max_errors" => do return { settings with maxErrors := ← value.count? }
  | _ => none

/-- Follows a section. -/
def withSection (settings : Settings) (entry : String × Value) : Option Settings :=
  let (key, value) := entry
  match key with
  | "render" => do
    let render ← (← value.section? renderNames).foldlM withRender settings.render
    return { settings with render }
  | "parser" => do (← value.section? parserNames).foldlM withParser settings
  | _ => none

/-- The settings of a document. -/
def ofToml? (text : String) : Option Settings := do
  (← Toml.parse? text).foldlM withSection {}

/-! ## Failures -/

/-- Why settings make no sense. -/
inductive Problem where
  /-- Not a single error would be reported. -/
  | noErrors
  /-- Lines would be cut to less than eight characters. -/
  | narrowLines (width : Nat)
  deriving DecidableEq

/-- The wording of a problem. -/
def Problem.message : Problem → String
  | noErrors => "parser.max_errors must be at least 1"
  | narrowLines width => "render.max_line_width must be at least 8, got " ++ toString width

/-- The first problem of settings. -/
def problem? (s : Settings) : Option Problem :=
  if s.maxErrors = 0 then some .noErrors
  else if s.render.lineWidth < 8 then some (.narrowLines s.render.lineWidth)
  else none

/-- Why there are no settings. -/
inductive Failure where
  /-- The file that was asked for is not there. -/
  | missing (path : String)
  | unreadable (path : String) (cause : ReadFailure)
  /-- The file is no TOML document, or not one of settings. -/
  | malformed (path : String)
  | invalid (problem : Problem)
  deriving DecidableEq

/-- The wording of a failure. -/
def Failure.message : Failure → String
  | missing path => "Missing configuration file: " ++ path
  | unreadable path cause => "Failed to read configuration " ++ path ++ ": " ++ cause.message
  | malformed path => "Failed to parse TOML configuration " ++ path
  | invalid problem => "Validation error: " ++ problem.message

/-! ## Loading -/

def loadFile (files : Files) (path : String) : Except Failure Settings := do
  if !files.exists? path then throw (.missing path)
  let text ← (files.text path).mapError (.unreadable path)
  match ofToml? text with
  | none => throw (.malformed path)
  | some settings =>
    match settings.problem? with
    | some problem => throw (.invalid problem)
    | none => return settings

/-- The settings file that is looked for in the working directory. -/
def localFile : String := "limit.toml"

/-- The settings of the file that is `asked` for; else of the first file that is there, of the local
one and the `user`'s; else the defaults. -/
def load (files : Files) (asked user : Option String) : Except Failure Settings :=
  match asked with
  | some path => loadFile files path
  | none =>
    match (localFile :: user.toList).find? files.exists? with
    | some path => loadFile files path
    | none => return {}

end Settings

end LimitSyntax
