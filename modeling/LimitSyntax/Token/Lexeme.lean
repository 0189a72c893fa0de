import LimitSyntax.Token.Basic

/-!
# Lexemes

What stands at the front of a text, strings apart: a piece of trivia, a token, or a character that
starts neither. Every recogniser returns the characters it takes and those it leaves.
-/

namespace LimitSyntax.Token

/-- Blanks within a line. -/
def isBlank (c : Char) : Bool :=
  c = ' ' || c = '\t' || c = '\r' || c = '\x0b' || c = '\x0c'

/-- Characters of names and keywords. -/
def isWordChar (c : Char) : Bool := c.isAlphanum || c = '_'

/-- Characters a name or keyword may start with. -/
def isWordStart (c : Char) : Bool := c.isAlpha || c = '_'

/-- The two quotation marks that delimit strings. -/
def isQuote (c : Char) : Bool := c = '\x22' || c = '\x27'

/-! ## Comments -/

/-- The rest of a block comment, up to and including its end if it has one; `taken` is kept in
reverse. -/
def blockComment (taken : List Char) : List Char → Bool × List Char × List Char
  | '*' :: '/' :: rest => (true, (('/' :: '*' :: taken).reverse), rest)
  | c :: rest => blockComment (c :: taken) rest
  | [] => (false, taken.reverse, [])

/-! ## Numbers -/

/-- A point and the digits after it, if there are any. -/
def fraction : List Char → List Char × List Char
  | '.' :: cs =>
    let (digits, rest) := cs.span (·.isDigit)
    if digits.isEmpty then ([], '.' :: cs) else ('.' :: digits, rest)
  | cs => ([], cs)

/-- An optional sign. -/
def sign : List Char → List Char × List Char
  | '+' :: cs => (['+'], cs)
  | '-' :: cs => (['-'], cs)
  | cs => ([], cs)

/-- An exponent with at least one digit. -/
def exponent : List Char → List Char × List Char
  | c :: cs =>
    if c = 'e' ∨ c = 'E' then
      let (mark, cs') := sign cs
      let (digits, rest) := cs'.span (·.isDigit)
      if digits.isEmpty then ([], c :: cs) else (c :: (mark ++ digits), rest)
    else ([], c :: cs)
  | [] => ([], [])

/-- Units of time that may end a number. -/
def timeUnits : List (List Char) := [['m', 's'], ['u', 's'], ['n', 's'], ['s']]

/-- Whether a text starts with the unit, and with no longer word. -/
def startsWithUnit (unit cs : List Char) : Bool :=
  unit.isPrefixOf cs && !((cs.drop unit.length).head?.any isWordChar)

def timeUnit (cs : List Char) : List Char × List Char :=
  match timeUnits.find? (startsWithUnit · cs) with
  | some unit => (unit, cs.drop unit.length)
  | none => ([], cs)

/-- A number: digits, a fraction, an exponent and a unit, all but the first of them optional. -/
def number (cs : List Char) : Kind × List Char × List Char :=
  let (digits, rest) := cs.span (·.isDigit)
  let (frac, rest) := fraction rest
  let (exp, rest) := exponent rest
  let (unit, rest) := timeUnit rest
  let kind := if !exp.isEmpty then .scientificLiteral else if !frac.isEmpty then .floatLiteral
    else .intLiteral
  (kind, digits ++ frac ++ exp ++ unit, rest)

/-! ## Words -/

def wordKind (word : List Char) : Kind :=
  if word = ['_'] then .underscore else (Kind.ofWord? (String.ofList word)).getD .identifier

/-- A name or keyword. -/
def word (cs : List Char) : Kind × List Char × List Char :=
  let (taken, rest) := cs.span isWordChar
  (wordKind taken, taken, rest)

/-- An annotation, the at sign before it already read. Any other at sign stands alone. -/
def atWord (cs : List Char) : Kind × List Char × List Char :=
  let (name, rest) := cs.span isWordChar
  match Kind.ofAnnotation? (String.ofList name) with
  | some kind => (kind, '@' :: name, rest)
  | none => (.atSign, ['@'], cs)

/-! ## Punctuation -/

/-- The spellings of punctuation; of two that fit, the longer one comes first. -/
def punctuation : List (List Char × Kind) :=
  [(['.', '.', '.'], .ellipsis), (['.', '.'], .range), (['.'], .dot),
   (['-', '>'], .arrow), (['-', '='], .minusEqual), (['-'], .minus),
   (['=', '>'], .arrow), (['=', '='], .equalEqual), (['='], .equal),
   (['+', '='], .plusEqual), (['+'], .plus),
   (['*', '*'], .power), (['*', '='], .starEqual), (['*'], .star),
   (['/', '='], .slashEqual), (['/'], .slash),
   (['%', '='], .modulusEqual), (['%'], .modulus),
   (['!', '='], .bangEqual), (['!'], .bang),
   (['<', '='], .lessEqual), (['<'], .less),
   (['>', '='], .greaterEqual), (['>'], .greater),
   (['('], .leftParen), ([')'], .rightParen), (['{'], .leftBrace), (['}'], .rightBrace),
   (['['], .leftBracket), ([']'], .rightBracket), ([','], .comma), ([':'], .colon),
   ([';'], .semicolon), (['?'], .question), (['|'], .pipe), (['&'], .ampersand),
   (['^'], .caret), (['~'], .tilde)]

/-- The punctuation at the front of a text. -/
def punctuation? (cs : List Char) : Option (Kind × List Char × List Char) :=
  (punctuation.find? fun p => p.1.isPrefixOf cs).map fun (text, kind) =>
    (kind, text, cs.drop text.length)

/-! ## The front of a text -/

/-- What stands at the front of a text. -/
inductive Front where
  /-- Trivia; a comment may lack its end. -/
  | trivia (kind : Trivia.Kind) (closed : Bool) (taken rest : List Char)
  /-- A token that is no string. -/
  | token (kind : Kind) (taken rest : List Char)
  /-- The quotation mark that opens a string. -/
  | quote (mark : Char) (rest : List Char)
  /-- A character that no token starts with. -/
  | stray (c : Char) (rest : List Char)

/-- A token from a recogniser's answer. -/
def Front.ofToken (r : Kind × List Char × List Char) : Front := .token r.1 r.2.1 r.2.2

/-- A run of characters of one class as trivia. -/
def Front.ofRun (kind : Trivia.Kind) (r : List Char × List Char) : Front :=
  .trivia kind true r.1 r.2

/-- What the text `c :: cs` starts with. -/
def Front.of (c : Char) (cs : List Char) : Front :=
  if isBlank c then .ofRun .blank ((c :: cs).span isBlank)
  else if c = '\n' then .trivia .newline true ['\n'] cs
  else if c = '/' ∧ cs.head? = some '/' then .ofRun .lineComment ((c :: cs).span (· ≠ '\n'))
  else if c = '/' ∧ cs.head? = some '*' then
    let (closed, taken, rest) := blockComment ['*', '/'] cs.tail
    .trivia .blockComment closed taken rest
  else if isQuote c then .quote c cs
  else if c.isDigit then .ofToken (number (c :: cs))
  else if isWordStart c then .ofToken (word (c :: cs))
  else if c = '@' then .ofToken (atWord cs)
  else match punctuation? (c :: cs) with
    | some r => .ofToken r
    | none => .stray c cs

end LimitSyntax.Token
