import LimitSyntax.Text.Ranges

/-!
# Texts as lists of characters

Byte lengths, lines, search and padding. Offsets into a text are UTF-8 byte offsets; only the line
feed ends a line; columns count characters from one.
-/

namespace LimitSyntax.Text

/-- Number of bytes of the UTF-8 form of `cs`. -/
def byteLength (cs : List Char) : Nat :=
  cs.foldl (fun n c => n + c.utf8Size) 0

/-! ## Lines -/

/-- `line` holds the characters of the current line in reverse, `done` the lines before it. -/
def splitLinesFrom (line : List Char) (done : List (List Char)) : List Char → List (List Char)
  | [] => (line.reverse :: done).reverse
  | c :: cs =>
    if c = '\n' then splitLinesFrom [] (line.reverse :: done) cs
    else splitLinesFrom (c :: line) done cs

/-- The pieces between line feeds: one more than there are line feeds. -/
def splitLines (cs : List Char) : List (List Char) := splitLinesFrom [] [] cs

/-- `line` without the carriage return it may end in. -/
def dropReturn (line : List Char) : List Char :=
  if line.getLast? = some '\r' then line.dropLast else line

/-- Drops the carriage return before each line feed, and the empty piece after a last one. -/
def closeLines : List (List Char) → List (List Char)
  | [] => []
  | [last] => if last.isEmpty then [] else [last]
  | line :: rest => dropReturn line :: closeLines rest

/-- The lines of a text, where a final line feed opens no further line. A carriage return is part
of the line end only in front of a line feed. -/
def lines (cs : List Char) : List (List Char) := closeLines (splitLines cs)

/-- The first line of a text, empty if there is none. -/
def firstLine (cs : List Char) : List Char :=
  match cs.dropWhile (· ≠ '\n') with
  | [] => cs
  | _ => dropReturn (cs.takeWhile (· ≠ '\n'))

/-! ## Positions -/

/-- `columnAt` from a character in column `column` on, with `budget` bytes left to go. -/
def columnFrom (column : Nat) : Nat → List Char → Nat
  | _, [] => column
  | budget, c :: cs =>
    if c.utf8Size ≤ budget then
      columnFrom (if c = '\n' then 1 else column + 1) (budget - c.utf8Size) cs
    else column

/-- The column of the byte `offset`. An offset past the end stands for the end, and one inside a
character for that character. -/
def columnAt (source : List Char) (offset : Nat) : Nat := columnFrom 1 offset source

/-! ## Search -/

def occurs (pattern : List Char) : List Char → Bool
  | [] => pattern.isEmpty
  | c :: cs => pattern.isPrefixOf (c :: cs) || occurs pattern cs

def contains (text pattern : String) : Bool := occurs pattern.toList text.toList

/-- The text before and after the first occurrence of `pattern`; `before` is kept in reverse. -/
def cutFrom (pattern before : List Char) : List Char → Option (List Char × List Char)
  | [] => if pattern.isEmpty then some (before.reverse, []) else none
  | c :: cs =>
    if pattern.isPrefixOf (c :: cs) then some (before.reverse, (c :: cs).drop pattern.length)
    else cutFrom pattern (c :: before) cs

/-- Splits a text at the first occurrence of `pattern`. -/
def cut (pattern text : List Char) : Option (List Char × List Char) := cutFrom pattern [] text

/-- `cs` without the blanks at either end. -/
def trim (cs : List Char) : List Char :=
  ((cs.dropWhile isBlank).reverse.dropWhile isBlank).reverse

/-! ## Padding -/

/-- `text` moved to the right end of a field of `width` characters. -/
def padLeft (width : Nat) (text : String) : String :=
  String.ofList (List.replicate (width - text.length) ' ') ++ text

def spaces (n : Nat) : String := String.ofList (List.replicate n ' ')

/-- Decimal digits of `n`, with zeros in front up to `width` digits. -/
def padZeros (width n : Nat) : String :=
  let digits := Nat.toDigits 10 n
  String.ofList (List.replicate (width - digits.length) '0' ++ digits)

/-! ## Numbers -/

/-- The least number that does not fit into 64 bits. -/
def wordLimit : Nat := 0x10000000000000000

/-- The number that decimal digits stand for, perhaps after a plus sign, if it fits into 64 bits. -/
def word? (text : String) : Option Nat :=
  let digits := match text.toList with
    | '+' :: digits => digits
    | digits => digits
  let n := Nat.ofDigitChars 10 digits 0
  if !digits.isEmpty && digits.all Char.isDigit && n < wordLimit then some n else none

end LimitSyntax.Text
