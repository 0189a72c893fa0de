import LimitSyntax.Token.Lexeme

/-!
# Stretches of string text

The text of a string, up to its closing quotation mark or to the brace that opens an interpolation,
and the division of what follows such a brace.
-/

namespace LimitSyntax.Token

/-- What a character stands for after a backslash. An unknown escape keeps its backslash. -/
def unescape (c : Char) : List Char :=
  match c with
  | 'n' => ['\n']
  | 't' => ['\t']
  | 'r' => ['\r']
  | '0' => ['\x00']
  | 'a' => ['\x07']
  | 'b' => ['\x08']
  | 'f' => ['\x0c']
  | 'v' => ['\x0b']
  | '\x5c' | '\x27' | '\x22' | '{' | '}' => [c]
  | _ => ['\x5c', c]

/-- Whether a brace before `cs` opens an interpolation. It does not if only digits, commas and
spaces stand between it and the next closing brace or quotation mark. -/
def opensInterpolation (mark : Char) (cs : List Char) : Bool :=
  (cs.takeWhile fun c => c ≠ '}' && c ≠ mark).any fun c => !(c.isDigit || c = ',' || c = ' ')

/-- What a stretch of string text ends in. -/
inductive Stretch.End where
  /-- The closing quotation mark. -/
  | closed
  /-- The brace that opens an interpolation. -/
  | opened
  /-- The end of the text. -/
  | missing
  deriving DecidableEq

/-- A stretch of string text. -/
structure Stretch where
  ending : Stretch.End
  /-- The characters of the stretch, those that end it included. -/
  taken : List Char
  /-- What they stand for. -/
  value : List Char
  rest : List Char

/-- Reads string text up to its end; `taken` and `value` are kept in reverse. -/
def stretchFrom (mark : Char) (taken value : List Char) : List Char → Stretch
  | [] => ⟨.missing, taken.reverse, value.reverse, []⟩
  | '\x5c' :: [] => ⟨.missing, ('\x5c' :: taken).reverse, ('\x5c' :: value).reverse, []⟩
  | '\x5c' :: c :: rest =>
    stretchFrom mark (c :: '\x5c' :: taken) ((unescape c).reverse ++ value) rest
  | c :: rest =>
    if c = mark then ⟨.closed, (c :: taken).reverse, value.reverse, rest⟩
    else if c = '{' && opensInterpolation mark rest then
      ⟨.opened, (c :: taken).reverse, value.reverse, rest⟩
    else stretchFrom mark (c :: taken) (c :: value) rest

/-- Divides a text at the brace that closes an interpolation. There is none if a quotation mark
comes first. The characters before it are kept in reverse. -/
def interpolationFrom (mark : Char) (depth : Nat) (inner : List Char) :
    List Char → Option (List Char × List Char)
  | [] => none
  | c :: rest =>
    if c = '{' then interpolationFrom mark (depth + 1) (c :: inner) rest
    else if c = '}' then
      match depth with
      | 0 => some (inner.reverse, rest)
      | depth + 1 => interpolationFrom mark depth (c :: inner) rest
    else if c = mark then none
    else interpolationFrom mark depth (c :: inner) rest

/-- The text inside an interpolation, and the text after the brace that closes it. -/
def interpolation? (mark : Char) (cs : List Char) : Option (List Char × List Char) :=
  interpolationFrom mark 0 [] cs

end LimitSyntax.Token
