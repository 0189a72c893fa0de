import LimitSyntax.Proofs.ByteText

/-!
# A scanner that reads bytes

The scanner over byte positions in place of texts. A cursor (`Scan.Cursor`) stands at a byte of the
source and knows the byte at which its range ends; a rule looks at bytes in the range and moves the
cursor by bytes, by characters or by fixed amounts. Nothing is taken for granted: every new place is
checked against the range, every slice against the source and its characters, and what fails the
check is a fault (`Scan.Fault`). The calls of the rule for a lexeme and of the loop over a range are
kept, with the places before and after each of them.
-/

namespace LimitSyntax

/-- The bytes of a source. -/
def Source.bytes (src : Source) : List Char :=
  src.text.toByteArray.data.toList.map Text.ofByte

namespace Scan

/-- What stops a scanner that reads bytes. -/
inductive Fault where
  /-- A place outside of the range, or a slice outside of the source. -/
  | outside
  /-- A slice with an end inside of a character. -/
  | split
  /-- No character at a place where the range goes on. -/
  | astray
  /-- The fuel of a loop. -/
  | spent
  deriving DecidableEq

/-- The text between two bytes of a source. -/
def cut (src : Source) (start stop : Nat) : Except Fault String :=
  if stop < start ∨ src.text.utf8ByteSize < stop then .error .outside
  else if String.Pos.Raw.isValid src.text ⟨start⟩ && String.Pos.Raw.isValid src.text ⟨stop⟩ then
    match String.fromUTF8? (src.slice ⟨start, stop⟩) with
    | some text => .ok text
    | none => .error .split
  else .error .split

/-- A byte of the source and the end of a range behind it. -/
structure Place (src : Source) where
  pos : Nat
  stop : Nat
  pos_le_stop : pos ≤ stop
  stop_le_size : stop ≤ src.text.utf8ByteSize

/-- A call of a rule: the places of the cursor before and after it. -/
structure Call (src : Source) where
  before : Place src
  after : Place src

/-- The scanner at a byte of the source. -/
structure Cursor (src : Source) extends Place src where
  line : Nat := 1
  /-- The tokens read, last one first. -/
  tokens : List Token := []
  /-- Trivia for the next token, last piece first. -/
  pending : List Trivia := []
  errors : Diagnostic.Collector
  /-- The calls of the rule for a lexeme, last one first. -/
  lexemes : List (Call src) := []
  /-- The calls of the loop over a range, last one first. -/
  ranges : List (Call src) := []

namespace Cursor

variable {src : Source}

/-! ## Moves -/

/-- Puts the cursor and the end of its range to other places. -/
def place (c : Cursor src) (pos stop : Nat) : Except Fault (Cursor src) :=
  if h : pos ≤ stop ∧ stop ≤ src.text.utf8ByteSize then
    .ok { c with pos, stop, pos_le_stop := h.1, stop_le_size := h.2 }
  else .error .outside

def move (c : Cursor src) (n : Nat) : Except Fault (Cursor src) := c.place (c.pos + n) c.stop

/-- The byte `n` places on, if it is in the range. -/
def peekAt (c : Cursor src) (n : Nat) : Option Char :=
  if c.pos + n < c.stop then src.bytes[c.pos + n]? else none

/-- Whether the byte `n` places on is in the range and belongs to the class. -/
def sees (c : Cursor src) (n : Nat) (p : Char → Bool) : Bool := (c.peekAt n).any p

/-- The unread bytes of the range. -/
def range (c : Cursor src) : List Char := (src.bytes.drop c.pos).take (c.stop - c.pos)

/-- Moves past a line feed. -/
def newline (c : Cursor src) : Except Fault (Cursor src) := do
  let d ← c.move 1
  return { d with line := d.line + 1 }

/-- Moves past all bytes of a character. -/
def movePast (c : Cursor src) (ch : Char) : Except Fault (Cursor src) :=
  if ch = '\n' then c.newline else c.move ch.utf8Size

/-- Moves past the character at the cursor, if there is one. -/
def bumpChar (c : Cursor src) : Except Fault (Option Char × Cursor src) := do
  match (← cut src c.pos c.stop).toList with
  | [] => return (none, c)
  | ch :: _ => return (some ch, ← c.movePast ch)

/-- Moves past the bytes that belong to the class, one by one. -/
def skipWhile (c : Cursor src) (p : Char → Bool) : Except Fault (Cursor src) :=
  walk c.range c
where
  walk : List Char → Cursor src → Except Fault (Cursor src)
    | [], c => return c
    | b :: bs, c => if p b then do walk bs (← c.move 1) else return c

/-- Moves to the end of the range. -/
def skipToEnd (c : Cursor src) : Except Fault (Cursor src) := do
  let d ← c.place c.stop c.stop
  return { d with line := c.line + c.range.count '\n' }

/-! ## Output -/

/-- Reports an error. -/
def report (c : Cursor src) (description : String) (offset line : Nat) (lexeme : String) :
    Cursor src :=
  let message := Diagnostic.Message.new .scanning description
    |>.locate line (Text.columnAt src.text.toList offset)
    |>.inFile src.file
    |>.onToken lexeme
  { c with errors := c.errors.report message (some src.text) }

/-- The text from `start` up to the cursor as a piece of trivia. -/
def piece (c : Cursor src) (kind : Trivia.Kind) (start : Nat) : Except Fault Trivia := do
  return ⟨kind, ← cut src start c.pos, ⟨start, c.pos⟩⟩

/-- Keeps the text from `start` on for the next token. -/
def trivia (c : Cursor src) (mode : Mode) (kind : Trivia.Kind) (start : Nat) :
    Except Fault (Cursor src) :=
  match mode with
  | .lossy => return c
  | .lossless => do return { c with pending := (← c.piece kind start) :: c.pending }

/-- Adds the text from `start` on to the last token. -/
def attach (c : Cursor src) (kind : Trivia.Kind) (start : Nat) : Except Fault (Cursor src) := do
  return { c with tokens := State.attach (← c.piece kind start) c.tokens }

/-- Adds the bytes at the cursor that belong to the class to the last token. -/
def attachRun (c : Cursor src) (kind : Trivia.Kind) (p : Char → Bool) :
    Except Fault (Cursor src) := do
  (← c.skipWhile p).attach kind c.pos

/-- Whether a comment starts at the cursor, of the form that its second byte tells. -/
def atComment (c : Cursor src) (b : Char) : Bool := c.sees 0 (· = '/') && c.sees 1 (· = b)

/-- Adds blanks and line comments to the last token. -/
def trailing : Nat → Cursor src → Except Fault (Cursor src)
  | 0, _ => .error .spent
  | n + 1, c =>
    if c.sees 0 Token.isBlank then do trailing n (← c.attachRun .blank Token.isBlank)
    else if c.atComment '/' then do trailing n (← c.attachRun .lineComment (· ≠ '\n'))
    else return c

/-- Keeps a token that ends at the cursor, with the trivia before it. -/
def keepToken (c : Cursor src) (kind : Token.Kind) (lexeme : String) (start line : Nat)
    (value : Option String) : Cursor src :=
  let token : Token :=
    { kind, lexeme, value, span := ⟨start, c.pos⟩, line, leading := c.pending.reverse }
  { c with tokens := token :: c.tokens, pending := [] }

/-- The text from `start` up to the cursor becomes a token. Nothing behind the marks of an
interpolation belongs to them: they stand inside of a string. -/
def push (c : Cursor src) (mode : Mode) (kind : Token.Kind) (start line : Nat)
    (value : Option String) : Except Fault (Cursor src) := do
  let d := c.keepToken kind (← cut src start c.pos) start line value
  if mode = .lossy ∨ kind = .interpolationStart ∨ kind = .interpolationEnd then return d
  else trailing (d.range.length + 1) d

/-! ## Comments, words and numbers -/

/-- Moves behind the end of a block comment, if it has one. -/
def commentEnd : List Char → Cursor src → Except Fault (Bool × Cursor src)
  | '*' :: '/' :: _, c => do return (true, ← c.move 2)
  | '\n' :: bs, c => do commentEnd bs (← c.newline)
  | _ :: bs, c => do commentEnd bs (← c.move 1)
  | [], c => return (false, c)

def blockComment (c : Cursor src) (mode : Mode) : Except Fault (Cursor src) := do
  let d ← c.move 2
  let (closed, d) ← commentEnd d.range d
  let d := if closed then d else d.report "Unterminated comment." c.pos c.line "/*"
  d.trivia mode .blockComment c.pos

/-- A name or keyword. -/
def word (c : Cursor src) (mode : Mode) : Except Fault (Cursor src) := do
  let d ← c.skipWhile Token.isWordChar
  let text ← cut src c.pos d.pos
  d.push mode (Token.wordKind text.toList) c.pos c.line none

/-- An annotation. Behind any other at sign the cursor goes back. -/
def annotation (c : Cursor src) (mode : Mode) : Except Fault (Cursor src) := do
  let name ← c.move 1
  let d ← name.skipWhile Token.isWordChar
  match Token.Kind.ofAnnotation? (← cut src name.pos d.pos) with
  | some kind => d.push mode kind c.pos c.line none
  | none => (← d.place name.pos d.stop).push mode .atSign c.pos c.line none

/-- Moves past a fraction, if there is one. -/
def fraction (c : Cursor src) : Except Fault (Bool × Cursor src) :=
  if c.sees 0 (· = '.') && c.sees 1 Char.isDigit then do
    return (true, ← (← c.move 1).skipWhile Char.isDigit)
  else return (false, c)

/-- Moves past a sign, if there is one. -/
def sign (c : Cursor src) : Except Fault (Cursor src) :=
  if c.sees 0 fun b => b = '+' || b = '-' then c.move 1 else return c

/-- Moves past an exponent, if there is one. The cursor goes back if no digit is found. -/
def exponent (c : Cursor src) : Except Fault (Bool × Cursor src) :=
  if c.sees 0 fun b => b = 'e' || b = 'E' then do
    let d ← (← c.move 1).sign
    if d.sees 0 Char.isDigit then return (true, ← d.skipWhile Char.isDigit)
    else return (false, ← d.place c.pos d.stop)
  else return (false, c)

/-- Moves past a unit of time, if there is one. -/
def timeUnit (c : Cursor src) : Except Fault (Cursor src) :=
  match Token.timeUnits.find? (Token.startsWithUnit · c.range) with
  | some unit => c.move unit.length
  | none => return c

def number (c : Cursor src) (mode : Mode) : Except Fault (Cursor src) := do
  let d ← c.skipWhile Char.isDigit
  let (fractional, d) ← d.fraction
  let (scientific, d) ← d.exponent
  let d ← d.timeUnit
  let kind := if scientific then .scientificLiteral else if fractional then .floatLiteral
    else .intLiteral
  d.push mode kind c.pos c.line none

/-! ## Operators -/

/-- What a character is on its own. -/
def operators : List (Char × Token.Kind) :=
  [('.', .dot), ('-', .minus), ('=', .equal), ('+', .plus), ('*', .star), ('/', .slash),
   ('%', .modulus), ('!', .bang), ('<', .less), ('>', .greater), ('(', .leftParen),
   (')', .rightParen), ('{', .leftBrace), ('}', .rightBrace), ('[', .leftBracket),
   (']', .rightBracket), (',', .comma), (':', .colon), (';', .semicolon), ('?', .question),
   ('|', .pipe), ('&', .ampersand), ('^', .caret), ('~', .tilde)]

/-- What one more byte makes of an operator. -/
def longer : Token.Kind → List (Char × Token.Kind)
  | .dot => [('.', .range)]
  | .range => [('.', .ellipsis)]
  | .minus => [('>', .arrow), ('=', .minusEqual)]
  | .equal => [('>', .arrow), ('=', .equalEqual)]
  | .plus => [('=', .plusEqual)]
  | .star => [('*', .power), ('=', .starEqual)]
  | .slash => [('=', .slashEqual)]
  | .modulus => [('=', .modulusEqual)]
  | .bang => [('=', .bangEqual)]
  | .less => [('=', .lessEqual)]
  | .greater => [('=', .greaterEqual)]
  | _ => []

/-- Moves past bytes that make an operator longer, at most `n` of them. -/
def extend : Nat → Token.Kind → Cursor src → Except Fault (Token.Kind × Cursor src)
  | 0, kind, c => return (kind, c)
  | n + 1, kind, c =>
    match (longer kind).find? fun p => c.sees 0 (· = p.1) with
    | some (_, kind) => do extend n kind (← c.move 1)
    | none => return (kind, c)

/-- An operator, or a character that no token starts with. -/
def operator (c : Cursor src) (mode : Mode) : Except Fault (Cursor src) := do
  match ← c.bumpChar with
  | (none, _) => .error .astray
  | (some ch, d) =>
    match operators.find? fun p => p.1 = ch with
    | some (_, kind) =>
      let (kind, d) ← extend 2 kind d
      d.push mode kind c.pos c.line none
    | none =>
      let shown := String.singleton ch
      let d := d.report ("Unexpected character '" ++ shown ++ "'") c.pos c.line shown
      match mode with
      | .lossy => return d
      | .lossless => d.push mode .error c.pos c.line none

/-! ## Strings -/

/-- The text from `start` to the end of the range is an error: it has no end in the range. -/
def unterminated (c : Cursor src) (mode : Mode) (description : String) (start line : Nat) :
    Except Fault (Cursor src) := do
  let shown := String.ofList (Text.firstLine (← cut src start c.stop).toList)
  (← (c.report description start line shown).skipToEnd).push mode .error start line none

/-- A backslash and the character behind it, and what they stand for, last character first. -/
def escape (c : Cursor src) (value : List Char) : Except Fault (List Char × Cursor src) := do
  match ← (← c.move 1).bumpChar with
  | (none, d) => return ('\x5c' :: value, d)
  | (some ch, d) => return ((Token.unescape ch).reverse ++ value, d)

/-- Whether a brace at the cursor opens an interpolation. -/
def opensInterpolation (c : Cursor src) (mark : Char) : Except Fault Bool :=
  if c.sees 0 (· = '{') then do return Token.opensInterpolation mark (← c.move 1).range
  else return false

/-- The interpolation at the cursor; `inner` reads the range inside of it. False if it has no
end. -/
def interpolation (inner : Cursor src → Except Fault (Cursor src)) (c : Cursor src) (mode : Mode)
    (mark : Char) : Except Fault (Bool × Cursor src) :=
  match Token.interpolation? mark c.range with
  | none => do
    return (false, ← c.unterminated mode "Unterminated string interpolation." c.pos c.line)
  | some (text, _) => do
    let d ← inner (← c.place c.pos (c.pos + text.length))
    let close ← d.place d.pos c.stop
    return (true, ← (← close.move 1).push mode .interpolationEnd close.pos close.line none)

/-- The beginning of a string up to the brace at the cursor, the interpolation, and what `after`
makes of the string behind it. -/
def interpolated (inner after : Cursor src → Except Fault (Cursor src)) (c : Cursor src)
    (mode : Mode) (mark : Char) (start line : Nat) (value : List Char) :
    Except Fault (Cursor src) := do
  let d ← (← c.move 1).push mode .interpolationStart start line
    (some (String.ofList value.reverse))
  let (closed, d) ← d.interpolation inner mode mark
  if closed then after d else return d

/-- The text of a string from the cursor on. Its current stretch started at `start`, and `value` is
what it stands for up to the cursor, last character first. -/
def string (inner : Cursor src → Except Fault (Cursor src)) (mode : Mode) (mark : Char) :
    Nat → Nat → Nat → List Char → Cursor src → Except Fault (Cursor src)
  | 0, _, _, _, _ => .error .spent
  | n + 1, start, line, value, c =>
    match c.peekAt 0 with
    | none => c.unterminated mode "Unterminated string." start line
    | some b =>
      if b = mark then do
        (← c.move 1).push mode .string start line (some (String.ofList value.reverse))
      else if b = '\x5c' then do
        let (value, d) ← c.escape value
        string inner mode mark n start line value d
      else do
        if ← c.opensInterpolation mark then
          c.interpolated inner (fun d => string inner mode mark n d.pos d.line [] d) mode mark
            start line value
        else
          let (ch, d) ← c.bumpChar
          string inner mode mark n start line (ch.toList ++ value) d

/-! ## The scanner -/

/-- The lexeme at the cursor; `inner` reads the range of an interpolation. -/
def lexeme (inner : Cursor src → Except Fault (Cursor src)) (mode : Mode) (c : Cursor src) :
    Except Fault (Cursor src) :=
  match c.peekAt 0 with
  | none => return c
  | some b =>
    if Token.isBlank b then do (← c.skipWhile Token.isBlank).trivia mode .blank c.pos
    else if b = '\n' then do (← c.newline).trivia mode .newline c.pos
    else if c.atComment '/' then do (← c.skipWhile (· ≠ '\n')).trivia mode .lineComment c.pos
    else if c.atComment '*' then c.blockComment mode
    else if Token.isQuote b then do
      string inner mode b (c.range.length + 1) c.pos c.line [] (← c.move 1)
    else if b.isDigit then c.number mode
    else if Token.isWordStart b then c.word mode
    else if b = '@' then c.annotation mode
    else c.operator mode

/-- Keeps a call of the rule for a lexeme. -/
def keepLexeme (c d : Cursor src) : Cursor src :=
  { d with lexemes := ⟨c.toPlace, d.toPlace⟩ :: d.lexemes }

/-- Keeps a call of the loop over a range. -/
def keepRange (c d : Cursor src) : Cursor src :=
  { d with ranges := ⟨c.toPlace, d.toPlace⟩ :: d.ranges }

/-- Lexeme after lexeme up to the end of the range. -/
def loop (mode : Mode) : Nat → Cursor src → Except Fault (Cursor src)
  | 0, _ => .error .spent
  | n + 1, c =>
    if c.pos < c.stop then do
      let inner (e : Cursor src) : Except Fault (Cursor src) := do
        return keepRange e (← loop mode n e)
      loop mode n (keepLexeme c (← lexeme inner mode c))
    else return c

/-- The cursor at the start of a source. -/
def start (src : Source) (errors : Diagnostic.Collector) : Cursor src where
  pos := 0
  stop := src.text.utf8ByteSize
  pos_le_stop := Nat.zero_le _
  stop_le_size := Nat.le_refl _
  errors

/-- The cursor behind all lexemes of a source. -/
def run (src : Source) (mode : Mode) (errors : Diagnostic.Collector) :
    Except Fault (Cursor src) := do
  return keepRange (start src errors) (← loop mode (src.text.utf8ByteSize + 1) (start src errors))

/-- The tokens and the reports of a scan that has come to the end. -/
def result (c : Cursor src) (mode : Mode) : Stream × Diagnostic.Collector :=
  let eof := { Token.eof src.text.utf8ByteSize c.line with leading := c.pending.reverse }
  (⟨(eof :: c.tokens).reverse, mode, src⟩, c.errors)

end Cursor

end Scan

end LimitSyntax
