import LimitSyntax.Command.Run

/-!
# The command line

Reads the files that a request can ask for, runs it, and writes what it yields. The exit code is
zero for a clean source, one for a source with errors, and two if nothing was done.
-/

namespace LimitSyntax.Command

/-- How to call the command. -/
def usage : String :=
  "Limit: scan, parse and check Limit source files\n\n" ++
  "Usage: limit [OPTIONS] <COMMAND>\n\n" ++
  "Commands:\n" ++
  "  tokens <FILE> [--cst] [--format <pretty|json>]\n" ++
  "  parse  <FILE> [--format <pretty|json>]\n" ++
  "  cst    <FILE> [--format <pretty|json>]\n" ++
  "  check  <FILE> [--format <pretty|json>] [--max-errors <N>]\n" ++
  "  help\n\n" ++
  "Options:\n" ++
  "  --config <FILE>\n" ++
  "  --color <auto|always|never>\n" ++
  "  --log-level <off|error|warn|info|debug|trace>\n" ++
  "  -h, --help\n"

/-- The wording of a refusal. -/
def Refusal.message : Refusal → String
  | help | nothing => ""
  | noAction => "a command is required"
  | unknownAction => "unrecognized command"
  | unknownArgument => "unexpected argument"
  | invalidValue => "invalid value"
  | badNumber => "invalid number"
  | repeated => "an option cannot be used multiple times"
  | noFile => "a file is required"
  | extraValue => "unexpected value for an option"

/-- The names of the log levels, in any case. -/
def isLogLevel (name : String) : Bool :=
  ["off", "error", "warn", "info", "debug", "trace"].contains name.toLower

/-- What can be read at a path now. -/
def readNow (path : String) : IO (Except ReadFailure ByteArray) := do
  try
    return .ok (← IO.FS.readBinFile path)
  catch
    | .noFileOrDirectory .. => return .error .notFound
    | .inappropriateType _ 20 _ => return .error .notDirectory
    | .inappropriateType _ 21 _ => return .error .isDirectory
    | e => return .error (.other (toString e))

/-- The settings file of the user. -/
def userSettings : IO (Option String) := do
  match ← IO.getEnv "XDG_CONFIG_HOME" with
  | some dir => if dir.startsWith "/" then return some (dir ++ "/limit/config.toml")
  | none => pure ()
  return (← IO.getEnv "HOME").map (· ++ "/.config/limit/config.toml")

def readAll (paths : List String) : IO Files := do
  let found ← paths.mapM fun path => do return (path, ← readNow path)
  return fun path => (found.lookup path).getD (throw .notFound)

/-- Does what the arguments ask for. -/
def execute (request : Request) : IO UInt32 := do
  let user ← userSettings
  let settings := match request.config with
    | some path => [path]
    | none => Settings.localFile :: user.toList
  let files ← readAll (request.file :: settings)
  match run { files, userSettings := user } request with
  | .ok outcome =>
    IO.print outcome.out
    IO.eprint outcome.err
    return if outcome.isClean then 0 else 1
  | .error failure =>
    IO.eprintln ("error: " ++ failure.message)
    return 2

end LimitSyntax.Command

open LimitSyntax.Command in
/-- The command line. -/
def main (args : List String) : IO UInt32 := do
  match Request.ofArguments args with
  | .error .help =>
    IO.print usage
    return 0
  | .error refusal =>
    unless refusal = .nothing do IO.eprintln ("error: " ++ refusal.message ++ "\n")
    IO.eprint usage
    return 2
  | .ok request =>
    unless isLogLevel request.logLevel do
      IO.eprintln ("Invalid log level: " ++ request.logLevel ++ ". Using 'warn' instead.")
    execute request
