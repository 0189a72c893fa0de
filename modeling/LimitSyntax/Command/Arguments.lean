import LimitSyntax.Text.Basic

/-!
# Arguments

The arguments of the command line. They name one of four actions and its file. Three options can
stand before the action or behind it; the one behind it counts. A value follows its option as the
next argument or after an equals sign. Only what stands behind `--` is never taken for an option.
-/

namespace LimitSyntax.Command

/-- How a result is written. -/
inductive Format where
  | pretty
  | json
  deriving DecidableEq

/-- Whether errors are coloured. -/
inductive Color where
  /-- As set, on a terminal that has colours. -/
  | auto
  | always
  | never
  deriving DecidableEq

/-- What to do with a file. -/
inductive Action where
  /-- Show its tokens. -/
  | tokens
  /-- Show its program. -/
  | parse
  /-- Show its tree. -/
  | cst
  /-- Only show its errors. -/
  | check
  deriving DecidableEq

/-- What has a value on the command line. -/
inductive Slot where
  | config
  | color
  | logLevel
  | format
  | maxErrors
  | file
  deriving DecidableEq

/-- An option. -/
inductive Flag where
  | help
  /-- Whether to keep trivia with the tokens. -/
  | cst
  /-- An option with a value. -/
  | valued (slot : Slot)
  deriving DecidableEq

/-- Why arguments are refused. -/
inductive Refusal where
  /-- Help was asked for. -/
  | help
  /-- There are no arguments. -/
  | nothing
  /-- There are options without an action. -/
  | noAction
  | unknownAction
  | unknownArgument
  /-- A value is missing or not one of those allowed. -/
  | invalidValue
  /-- A number cannot be read. -/
  | badNumber
  /-- An option is given twice. -/
  | repeated
  | noFile
  /-- An option without a value is given one. -/
  | extraValue
  deriving DecidableEq

def Action.ofName? : String → Option Action
  | "tokens" => some .tokens
  | "parse" => some .parse
  | "cst" => some .cst
  | "check" => some .check
  | _ => none

/-- The option of a name, in front of an action (`none`) or behind it. -/
def Flag.ofName? (place : Option Action) : String → Option Flag
  | "help" => some .help
  | "config" => some (.valued .config)
  | "color" => some (.valued .color)
  | "log-level" => some (.valued .logLevel)
  | "format" => place.map fun _ => .valued .format
  | "cst" => if place = some .tokens then some .cst else none
  | "max-errors" => if place = some .check then some (.valued .maxErrors) else none
  | _ => none

/-! ## Values -/

/-- The colour choice of a name. -/
def Color.ofName? : String → Option Color
  | "auto" => some .auto
  | "always" => some .always
  | "never" => some .never
  | _ => none

def Format.ofName? : String → Option Format
  | "pretty" => some .pretty
  | "json" => some .json
  | _ => none

/-- What was given in front of an action or behind it. -/
structure Given where
  config : Option String := none
  color : Option Color := none
  logLevel : Option String := none
  format : Option Format := none
  maxErrors : Option Nat := none
  file : Option String := none
  cst : Bool := false

namespace Given

/-- Whether a slot has its value. -/
def has (g : Given) : Slot → Bool
  | .config => g.config.isSome
  | .color => g.color.isSome
  | .logLevel => g.logLevel.isSome
  | .format => g.format.isSome
  | .maxErrors => g.maxErrors.isSome
  | .file => g.file.isSome

/-- Reads the value of a slot. Paths are not empty. -/
def set (g : Given) (slot : Slot) (value : String) : Except Refusal Given :=
  if g.has slot then throw .repeated
  else match slot with
    | .config => if value.isEmpty then throw .invalidValue else return { g with config := value }
    | .file => if value.isEmpty then throw .invalidValue else return { g with file := value }
    | .logLevel => return { g with logLevel := value }
    | .color =>
      match Color.ofName? value with
      | some color => return { g with color }
      | none => throw .invalidValue
    | .format =>
      match Format.ofName? value with
      | some format => return { g with format }
      | none => throw .invalidValue
    | .maxErrors =>
      match Text.word? value with
      | some n => return { g with maxErrors := n }
      | none => throw .badNumber

end Given

/-! ## Reading -/

/-- Arguments read in part. The last value is read only when the next option or file comes up, or
at the end, so that other errors can come first. -/
structure Reading where
  given : Given := {}
  /-- The slot that comes last, with its value once that is there. -/
  pending : Option (Slot × Option String) := none
  /-- Whether `--` came before. -/
  onlyFiles : Bool := false

namespace Reading

/-- Reads the value of the last slot. -/
def settle (r : Reading) : Except Refusal Reading :=
  match r.pending with
  | none => return r
  | some (_, none) => throw .invalidValue
  | some (slot, some value) => do
    return { r with given := ← r.given.set slot value, pending := none }

/-- The slot whose value has to be the next argument. -/
def waiting? (r : Reading) : Option Slot :=
  match r.pending with
  | some (slot, none) => some slot
  | _ => none

/-- Whether the file was named. -/
def hasFile (r : Reading) : Bool :=
  r.given.file.isSome || r.pending.any fun (slot, _) => slot = .file

/-- Reads an option, with the value after its equals sign. -/
def option (r : Reading) (flag : Flag) (attached : Option String) : Except Refusal Reading :=
  match flag, attached with
  | .valued slot, some value => do
    let r ← r.settle
    return { r with given := ← r.given.set slot value }
  | .valued slot, none => do return { ← r.settle with pending := some (slot, none) }
  | _, some _ => throw .extraValue
  | .help, none => do
    let _ ← r.settle
    throw .help
  | .cst, none => do
    let r ← r.settle
    if r.given.cst then throw .repeated
    return { r with given := { r.given with cst := true } }

/-- Divides an argument at its first equals sign. -/
def divide (cs : List Char) : String × Option String :=
  match Text.cut ['='] cs with
  | none => (String.ofList cs, none)
  | some (name, value) => (String.ofList name, some (String.ofList value))

/-- Reads an argument that is neither an action nor an option. -/
def operand (r : Reading) (place : Option Action) (arg : String) : Except Refusal Reading :=
  match place with
  | none =>
    let isAction := (Action.ofName? arg).isSome || arg = "help"
    throw (if r.onlyFiles && isAction then .unknownArgument else .unknownAction)
  | some _ =>
    if r.hasFile then throw .unknownArgument
    else do return { ← r.settle with pending := some (.file, some arg) }

/-- Reads one argument that names no action. -/
def argument (r : Reading) (place : Option Action) (arg : String) : Except Refusal Reading :=
  if r.onlyFiles then r.operand place arg
  else match arg.toList with
    | ['-', '-'] => return { r with onlyFiles := true }
    | '-' :: '-' :: cs =>
      let (name, attached) := divide cs
      match Flag.ofName? place name with
      | some flag => r.option flag attached
      | none => throw .unknownArgument
    | '-' :: c :: _ => if c = 'h' then r.option .help none else throw .unknownArgument
    | _ =>
      match r.waiting? with
      | some slot => return { r with pending := some (slot, some arg) }
      | none => r.operand place arg

end Reading

/-- Why help for a row of actions is refused: because it is shown, or because one is unknown. Help
itself is one, with nothing behind it. -/
def helpOn : List String → Refusal
  | [] => .help
  | [name] => if (Action.ofName? name).isSome || name = "help" then .help else .unknownAction
  | _ => .unknownAction

/-- Reads what stands behind an action. -/
def readAction (action : Action) (args : List String) : Except Refusal Given := do
  let r ← (← args.foldlM (fun r arg => r.argument (some action) arg) ({} : Reading)).settle
  if r.given.file.isNone then throw .noFile
  return r.given

/-- What was given in front of the action, the action, and what was given behind it. Behind the
action is read first. -/
def readFrom (r : Reading) : List String → Except Refusal (Given × Action × Given)
  | [] => do
    let given := (← r.settle).given
    let isEmpty := given.config.isNone && given.color.isNone && given.logLevel.isNone
    throw (if isEmpty then .nothing else .noAction)
  | arg :: args =>
    if r.onlyFiles || r.waiting?.isSome then do readFrom (← r.argument none arg) args
    else if arg = "help" then throw (helpOn args)
    else match Action.ofName? arg with
      | none => do readFrom (← r.argument none arg) args
      | some action => do
        let inner ← readAction action args
        return ((← r.settle).given, action, inner)

/-- What is asked for on the command line. -/
structure Request where
  action : Action
  file : String
  format : Format := .pretty
  /-- Whether tokens are shown with their trivia. -/
  cst : Bool := false
  /-- The error limit to use in place of the one that is set. -/
  maxErrors : Option Nat := none
  config : Option String := none
  color : Color := .auto
  logLevel : String := "warn"

def Request.ofArguments (args : List String) : Except Refusal Request := do
  let (outer, action, inner) ← readFrom {} args
  return {
    action
    file := inner.file.getD ""
    format := inner.format.getD .pretty
    cst := inner.cst
    maxErrors := inner.maxErrors
    config := inner.config <|> outer.config
    color := (inner.color <|> outer.color).getD .auto
    logLevel := (inner.logLevel <|> outer.logLevel).getD "warn" }

end LimitSyntax.Command
