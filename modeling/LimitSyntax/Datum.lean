import LimitSyntax.Json
import LimitSyntax.Text.Quoted

/-!
# Structured data

A datum is a value of some record or variant type, with the names of its type, variants and fields.
It can be shown as JSON, which drops the names of records and of present optional values, or as an
indented outline that keeps them.
-/

namespace LimitSyntax

/-- A value with the names of its parts. -/
inductive Datum where
  | text (s : String)
  | number (n : Nat)
  | flag (b : Bool)
  /-- An optional value that is not there. -/
  | absent
  /-- An optional value that is there. -/
  | present (d : Datum)
  | list (elements : List Datum)
  | pair (first second : Datum)
  | record (name : String) (fields : List (String × Datum))
  /-- A variant without content. -/
  | symbol (name : String)
  /-- A variant with one value. -/
  | variant (name : String) (content : Datum)
  /-- A variant with named fields. -/
  | form (name : String) (fields : List (String × Datum))
  /-- Values by name, in order of the names. -/
  | table (entries : List (String × Datum))
  /-- Names in order. -/
  | names (elements : List String)
  deriving Inhabited

namespace Datum

/-- An optional datum. -/
def ofOption : Option Datum → Datum
  | none => .absent
  | some d => .present d

def optionalText (s : Option String) : Datum := ofOption (s.map .text)

def texts (ss : List String) : Datum := .list (ss.map .text)

/-! ## JSON -/

mutual
/-- The JSON form. A variant with content is an object with the variant as its only key. -/
def json : Datum → Json
  | .text s => .string s
  | .number n => .number n
  | .flag b => .bool b
  | .absent => .null
  | .present d => d.json
  | .list elements => .array (jsonElements elements [])
  | .pair first second => .array [first.json, second.json]
  | .record _ fields => .object (jsonMembers fields [])
  | .symbol name => .string name
  | .variant name content => .object [(name, content.json)]
  | .form name fields => .object [(name, .object (jsonMembers fields []))]
  | .table entries => .object (jsonMembers entries [])
  | .names elements => .array (elements.map .string)

/-- The JSON forms of the elements of a list; `done` holds those before them, last one first. -/
def jsonElements : List Datum → List Json → List Json
  | [], done => done.reverse
  | d :: ds, done => jsonElements ds (d.json :: done)

/-- The JSON forms of named values; `done` holds those before them, last one first. -/
def jsonMembers : List (String × Datum) → List (String × Json) → List (String × Json)
  | [], done => done.reverse
  | (name, d) :: ds, done => jsonMembers ds ((name, d.json) :: done)
end

/-! ## Outlines -/

/-- The start of a line at the given depth. -/
def indent (depth : Nat) : String := "\n" ++ Text.spaces (4 * depth)

mutual
/-- Adds the outline of a datum at the given depth to `out`. -/
def writeOutline (depth : Nat) (out : String) : Datum → String
  | .text s => out ++ Text.quote s
  | .number n => out ++ toString n
  | .flag b => out ++ if b then "true" else "false"
  | .absent => out ++ "None"
  | .present d =>
    writeOutline (depth + 1) (out ++ "Some(" ++ indent (depth + 1)) d ++ "," ++ indent depth ++ ")"
  | .list [] => out ++ "[]"
  | .list (d :: ds) => outlineElements (depth + 1) (out ++ "[") (d :: ds) ++ indent depth ++ "]"
  | .pair first second =>
    let out := writeOutline (depth + 1) (out ++ "(" ++ indent (depth + 1)) first ++ ","
    writeOutline (depth + 1) (out ++ indent (depth + 1)) second ++ "," ++ indent depth ++ ")"
  | .record name fields | .form name fields =>
    outlineFields (depth + 1) (out ++ name ++ " \x7b") fields ++ indent depth ++ "\x7d"
  | .symbol name => out ++ name
  | .variant name content =>
    writeOutline (depth + 1) (out ++ name ++ "(" ++ indent (depth + 1)) content ++ "," ++
      indent depth ++ ")"
  | .table [] => out ++ "\x7b\x7d"
  | .table (e :: es) =>
    outlineEntries (depth + 1) (out ++ "\x7b") (e :: es) ++ indent depth ++ "\x7d"
  | .names [] => out ++ "\x7b\x7d"
  | .names (s :: ss) =>
    (s :: ss).foldl (fun out s => out ++ indent (depth + 1) ++ Text.quote s ++ ",")
      (out ++ "\x7b") ++ indent depth ++ "\x7d"

/-- Adds the elements of a list, each on a line of its own. -/
def outlineElements (depth : Nat) (out : String) : List Datum → String
  | [] => out
  | d :: ds => outlineElements depth (writeOutline depth (out ++ indent depth) d ++ ",") ds

/-- Adds named fields, each on a line of its own. -/
def outlineFields (depth : Nat) (out : String) : List (String × Datum) → String
  | [] => out
  | (name, d) :: ds =>
    outlineFields depth (writeOutline depth (out ++ indent depth ++ name ++ ": ") d ++ ",") ds

/-- Adds table entries, each on a line of its own. -/
def outlineEntries (depth : Nat) (out : String) : List (String × Datum) → String
  | [] => out
  | (key, d) :: ds =>
    outlineEntries depth
      (writeOutline depth (out ++ indent depth ++ Text.quote key ++ ": ") d ++ ",") ds
end

def outline (d : Datum) : String := writeOutline 0 "" d

end Datum

end LimitSyntax
