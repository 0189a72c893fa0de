import LimitSyntax.Toml.Scalar

/-!
# Quoted texts

Strings and quoted keys of a TOML document. Between quotation marks a backslash opens an escape;
between apostrophes nothing is special. Three marks open a text of several lines, whose first line
end is dropped and which may end in two more marks of its own.
-/

namespace LimitSyntax.Toml

/-- Whether `c` is a tab or no control character. -/
def isPrintable (c : Char) : Bool := c = '\t' || (' ' ≤ c && c ≠ '\x7f')

/-- Where a reader stands inside a text between quotation marks. -/
inductive Spot where
  /-- Between two characters. -/
  | plain
  /-- Behind a backslash. -/
  | escape
  /-- In the number of a character, with `digits` more to come. -/
  | code (digits value : Nat)
  /-- In the gap that a backslash opens at the end of a line; `broken` after the line's end. -/
  | gap (broken : Bool)

/-- What a letter stands for behind a backslash. -/
def escaped? (c : Char) : Option Char :=
  match c with
  | 'b' => some '\x08'
  | 't' => some '\t'
  | 'n' => some '\n'
  | 'f' => some '\x0c'
  | 'r' => some '\r'
  | 'e' => some '\x1b'
  | '\x22' | '\x5c' => some c
  | _ => none

/-- Number of digits of a character's number, by the letter behind the backslash. -/
def codeLength? (c : Char) : Option Nat :=
  match c with
  | 'x' => some 2
  | 'u' => some 4
  | 'U' => some 8
  | _ => none

/-- The spot behind one character, and the character to add. A text of one line has neither line
ends nor gaps. -/
def Spot.step (multi : Bool) (spot : Spot) (c : Char) : Option (Spot × Option Char) :=
  match spot with
  | .plain => inPlain
  | .escape =>
    match escaped? c, codeLength? c with
    | some e, _ => some (.plain, some e)
    | _, some n => some (.code n 0, none)
    | _, _ =>
      if multi && c = '\n' then some (.gap true, none)
      else if multi && (c = ' ' || c = '\t') then some (.gap false, none)
      else none
  | .code digits value => do
    guard (isDigitOf 16 c)
    let value := value * 16 + digitValue c
    if digits > 1 then return (.code (digits - 1) value, none)
    guard (value.isValidChar)
    return (.plain, some (Char.ofNat value))
  | .gap broken =>
    if c = '\n' then some (.gap true, none)
    else if c = ' ' || c = '\t' then some (.gap broken, none)
    else if broken then inPlain
    else none
where
  /-- Outside of escapes. -/
  inPlain : Option (Spot × Option Char) :=
    if c = '\x5c' then some (.escape, none)
    else if isPrintable c || (multi && c = '\n') then some (.plain, some c)
    else none

/-- Whether a mark at this spot belongs to the text that the marks enclose. -/
def Spot.isInner : Spot → Bool
  | .plain | .gap true => false
  | _ => true

/-- The marks that a text of several lines ends in, and what follows. -/
def closing (mark : Char) (done rest : List Char) : List Char × List Char :=
  match rest with
  | a :: b :: more =>
    if a = mark ∧ b = mark then ((b :: a :: done).reverse, more)
    else if a = mark then ((a :: done).reverse, b :: more)
    else (done.reverse, rest)
  | [a] => if a = mark then ((a :: done).reverse, []) else (done.reverse, rest)
  | [] => (done.reverse, [])

/-- Reads a text between quotation marks to its end; `done` holds what it stands for in reverse.
A carriage return counts as part of the line feed behind it. -/
def basicFrom (multi : Bool) (spot : Spot) (done : List Char) :
    List Char → Option (List Char × List Char)
  | [] => none
  | '\r' :: '\n' :: rest => do
    let (spot, out) ← spot.step multi '\n'
    basicFrom multi spot (out.toList ++ done) rest
  | c :: rest =>
    if c = '\x22' && !spot.isInner && (!multi || rest.take 2 = ['\x22', '\x22']) then
      if multi then some (closing c done (rest.drop 2)) else some (done.reverse, rest)
    else do
      let (spot, out) ← spot.step multi c
      basicFrom multi spot (out.toList ++ done) rest

/-- Reads a text between apostrophes to its end. -/
def literalFrom (multi : Bool) (done : List Char) : List Char → Option (List Char × List Char)
  | [] => none
  | '\r' :: '\n' :: rest => if multi then literalFrom multi ('\n' :: done) rest else none
  | c :: rest =>
    if c = '\x27' && (!multi || rest.take 2 = ['\x27', '\x27']) then
      if multi then some (closing c done (rest.drop 2)) else some (done.reverse, rest)
    else if isPrintable c || (multi && c = '\n') then literalFrom multi (c :: done) rest
    else none

/-- Drops a line end in front of a text. -/
def dropLineEnd : List Char → List Char
  | '\n' :: cs => cs
  | '\r' :: '\n' :: cs => cs
  | cs => cs

/-- A quoted text of one line, in front of `cs`. -/
def quotedLine? : List Char → Option (List Char × List Char)
  | '\x22' :: cs => basicFrom false .plain [] cs
  | '\x27' :: cs => literalFrom false [] cs
  | _ => none

/-- A quoted text in front of `cs`. -/
def quoted? : List Char → Option (List Char × List Char)
  | '\x22' :: '\x22' :: '\x22' :: cs => basicFrom true .plain [] (dropLineEnd cs)
  | '\x27' :: '\x27' :: '\x27' :: cs => literalFrom true [] (dropLineEnd cs)
  | cs => quotedLine? cs

end LimitSyntax.Toml
