import LimitSyntax.Text.Basic

/-!
# Tables of a TOML document

A document is a table of tables. Every table remembers how it came to be, because that decides what
may still be added to it: a table is defined at most once, either by a header, by dotted keys or
between braces.
-/

namespace LimitSyntax.Toml

/-- How a table came to be. -/
inductive Origin where
  /-- A header names it. -/
  | header
  /-- It lies on the way to a table that a header names. -/
  | implied
  /-- A dotted key leads through it. -/
  | dotted
  /-- It is written between braces. -/
  | inline
  deriving DecidableEq

/-- A value of a document. -/
inductive Value where
  | string (text : String)
  | integer (n : Int)
  /-- A fraction, infinite if it is too large for a double. -/
  | float (infinite : Bool)
  | boolean (b : Bool)
  /-- A date, a time or both. -/
  | moment
  /-- An array. The elements of one that `headers` make are tables, and it can grow. -/
  | array (headers : Bool) (elements : List Value)
  | table (origin : Origin) (entries : List (String × Value))
  deriving Inhabited

/-- The entries of a table, in the order in which they are written. -/
abbrev Entries := List (String × Value)

namespace Entries

def get? (key : String) (entries : Entries) : Option Value := entries.lookup key

/-- Gives `key` a new value, in its old place if it has one. -/
def put (key : String) (value : Value) : Entries → Entries
  | [] => [(key, value)]
  | (k, v) :: rest => if k = key then (k, value) :: rest else (k, v) :: put key value rest

/-- Changes the last element of a row of tables. -/
def updateLast (f : Entries → Option Entries) : List Value → Option (List Value)
  | [] => none
  | [.table origin entries] => do return [.table origin (← f entries)]
  | [_] => none
  | v :: vs => do return v :: (← updateLast f vs)

/-- Changes the table at a path of headers. Tables that are missing on the way are implied; of an
array made by headers the last table is meant; nothing is added to a table between braces. -/
def within (path : List String) (f : Entries → Option Entries) (entries : Entries) :
    Option Entries :=
  match path with
  | [] => f entries
  | key :: path =>
    match entries.get? key with
    | none => do return entries.put key (.table .implied (← within path f []))
    | some (.array true tables) => do
      return entries.put key (.array true (← updateLast (within path f) tables))
    | some (.table origin inner) =>
      if origin = .inline then none
      else do return entries.put key (.table origin (← within path f inner))
    | some _ => none

/-- Defines the table `key` by a header. It may have been implied before. -/
def define (key : String) (entries : Entries) : Option Entries :=
  match entries.get? key with
  | none => some (entries.put key (.table .header []))
  | some (.table .implied inner) => some (entries.put key (.table .header inner))
  | some _ => none

/-- Adds a table to the array `key` by a header. -/
def extend (key : String) (entries : Entries) : Option Entries :=
  match entries.get? key with
  | none => some (entries.put key (.array true [.table .header []]))
  | some (.array true tables) =>
    some (entries.put key (.array true (tables ++ [.table .header []])))
  | some _ => none

/-- Assigns a value to `key` in the table that the dotted `path` leads to. A dotted key defines the
table it ends in, so a table that a header defines or implies is none it can end in. -/
def assign (path : List String) (key : String) (value : Value) (entries : Entries) :
    Option Entries :=
  match path with
  | [] => if (entries.get? key).isNone then some (entries.put key value) else none
  | step :: path =>
    match entries.get? step with
    | none => do return entries.put step (.table .dotted (← assign path key value []))
    | some (.table .dotted inner) => do
      return entries.put step (.table .dotted (← assign path key value inner))
    | some (.table .implied inner) =>
      if path.isEmpty then none
      else do return entries.put step (.table .implied (← assign path key value inner))
    | some (.array true tables) =>
      if path.isEmpty then none
      else do return entries.put step (.array true (← updateLast (assign path key value) tables))
    | some _ => none

end Entries

end LimitSyntax.Toml
