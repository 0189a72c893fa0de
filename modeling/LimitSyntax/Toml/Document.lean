import LimitSyntax.Toml.Quoted

/-!
# TOML documents

A document is a row of lines. Each is blank, opens a table or assigns a value to a key.
-/

namespace LimitSyntax.Toml

/-- Reads something off the front of a text, and leaves the rest. -/
abbrev Reader := StateT (List Char) Option

namespace Reader

/-- Reads while `p` holds. -/
def span (p : Char → Bool) : Reader (List Char) := fun cs => some (cs.takeWhile p, cs.dropWhile p)

/-- Reads `text` if it comes next, and tells whether it did. -/
def accept (text : List Char) : Reader Bool := fun cs =>
  if text.isPrefixOf cs then some (true, cs.drop text.length) else some (false, cs)

/-- Reads `text`, which has to come next. -/
def expect (text : List Char) : Reader Unit := do guard (← accept text)

/-- Reads spaces and tabs. -/
def blanks : Reader Unit := do let _ ← span fun c => c = ' ' || c = '\t'

/-- Reads a comment, if there is one. -/
def comment : Reader Unit := do
  if ← accept ['#'] then let _ ← span isPrintable

/-- Reads a line end, and tells whether there was one. -/
def lineEnd : Reader Bool := do
  if ← accept ['\n'] then return true
  accept ['\r', '\n']

/-- Reads what may follow on a line that says all it has to, with the end of the line. -/
def endLine : Reader Unit := do
  blanks
  comment
  guard ((← lineEnd) || (← get).isEmpty)

/-- Reads blanks, line ends and comments; `turns` bounds the number of lines. -/
def filling (turns : Nat) : Reader Unit := do
  blanks
  comment
  match turns with
  | 0 => failure
  | turns + 1 => if ← lineEnd then filling turns

/-- Reads blanks, line ends and comments. -/
def gap : Reader Unit := do filling ((← get).length + 1)

/-! ## Keys -/

/-- Whether `c` can be part of a key without quotation marks. -/
def ofKey (c : Char) : Bool := c.isAlphanum || c = '_' || c = '-'

/-- Reads one part of a key. -/
def keyPart : Reader String := do
  let bare ← span ofKey
  if bare.isEmpty then String.ofList <$> (fun cs => quotedLine? cs)
  else return String.ofList bare

/-- Reads a key of parts with points between them: all but its last part, and that; `turns` bounds
their number. -/
def keyFrom (turns : Nat) : Reader (List String × String) := do
  let part ← keyPart
  blanks
  match turns with
  | 0 => failure
  | turns + 1 =>
    if ← accept ['.'] then
      blanks
      let (path, last) ← keyFrom turns
      return (part :: path, last)
    else return ([], part)

/-- Reads a key, and the blanks behind it. -/
def key : Reader (List String × String) := do keyFrom ((← get).length + 1)

/-! ## Values -/

/-- Reads the elements of an array up to its closing bracket; `done` holds those before in reverse
and `turns` bounds their number. A comma may follow the last one. -/
def elementsFrom (value : Reader Value) (turns : Nat) (done : List Value) :
    Reader (List Value) := do
  gap
  if ← accept [']'] then return done.reverse
  let done := (← value) :: done
  gap
  match turns with
  | 0 => failure
  | turns + 1 =>
    if ← accept [','] then elementsFrom value turns done
    else
      expect [']']
      return done.reverse

/-- Reads the entries of a table up to its closing brace. A comma may follow the last one. -/
def entriesFrom (value : Reader Value) (turns : Nat) (done : Entries) : Reader Entries := do
  gap
  if ← accept ['}'] then return done
  let (path, last) ← key
  expect ['=']
  blanks
  let done ← done.assign path last (← value)
  gap
  match turns with
  | 0 => failure
  | turns + 1 =>
    if ← accept [','] then entriesFrom value turns done
    else
      expect ['}']
      return done

/-- Reads a value in which at most `depth` arrays and tables are nested. -/
def value (depth : Nat) : Reader Value := do
  let cs ← get
  match cs with
  | '\x22' :: _ | '\x27' :: _ => do
    let text ← (fun cs => quoted? cs)
    return .string (String.ofList text)
  | '[' :: _ =>
    match depth with
    | 0 => failure
    | depth + 1 => do
      expect ['[']
      return .array false (← elementsFrom (value depth) cs.length [])
  | '{' :: _ =>
    match depth with
    | 0 => failure
    | depth + 1 => do
      expect ['{']
      return .table .inline (← entriesFrom (value depth) cs.length [])
  | _ =>
    let (text, rest) := cutScalar cs
    set rest
    scalar? text

/-- How deep values can be nested. -/
def maxDepth : Nat := 80

end Reader

/-! ## Lines -/

/-- A part of a document: the tables so far, and the path of the one that is open. -/
structure Document where
  root : Entries := []
  current : List String := []

open Reader in
/-- Reads one line. -/
def Document.line (doc : Document) : Reader Document := do
  blanks
  if ← accept ['[', '['] then
    blanks
    let (path, last) ← key
    expect [']', ']']
    endLine
    return ⟨← doc.root.within path (Entries.extend last), path ++ [last]⟩
  if ← accept ['['] then
    blanks
    let (path, last) ← key
    expect [']']
    endLine
    return ⟨← doc.root.within path (Entries.define last), path ++ [last]⟩
  match ← get with
  | [] | '#' :: _ | '\n' :: _ | '\r' :: _ => do
    endLine
    return doc
  | _ => do
    let (path, last) ← key
    expect ['=']
    blanks
    let value ← value maxDepth
    endLine
    return { doc with root := ← doc.root.within doc.current (Entries.assign path last value) }

/-- Reads lines to the end of the text; `turns` bounds their number. -/
def Document.lines (turns : Nat) (doc : Document) : Reader Document := do
  if (← get).isEmpty then return doc
  match turns with
  | 0 => failure
  | turns + 1 => Document.lines turns (← doc.line)

/-- The tables of a document. A byte order mark in front of it is skipped. -/
def parse? (text : String) : Option Entries :=
  let cs := text.toList
  let cs := if cs.head? = some '\ufeff' then cs.tail else cs
  (Document.lines cs.length {}).run cs |>.map fun (doc, _) => doc.root

end LimitSyntax.Toml
