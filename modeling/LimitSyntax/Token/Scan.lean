import LimitSyntax.Diagnostic.Collector
import LimitSyntax.Token.Stretch

/-!
# Scanning

The scanner takes one lexeme at a time off the front of its range, the unread text. The range is the
whole source at first. Inside an interpolation it is the text up to the closing brace, and the
strings that hold the interpolation wait with the text behind it.
-/

namespace LimitSyntax

/-- A source text and the name it is reported under. -/
structure Source where
  text : String
  file : String

namespace Scan

/-- What becomes of trivia and of characters that start no token. -/
inductive Mode where
  /-- Both are dropped. -/
  | lossy
  /-- Trivia is attached to tokens, and a stray character is an error token. -/
  | lossless
  deriving DecidableEq, Inhabited

def Mode.name : Mode → String
  | .lossy => "Lossy"
  | .lossless => "Cst"

/-- A string that waits for the end of an interpolation. -/
structure Waiting where
  /-- The quotation mark that closes the string. -/
  mark : Char
  /-- The text behind the closing brace of the interpolation. -/
  rest : List Char

/-- The scanner between two lexemes. -/
structure State where
  /-- The unread text of the current range. -/
  rest : List Char
  /-- The strings around the range, innermost first. -/
  waiting : List Waiting := []
  /-- Byte offset of the first unread character. -/
  offset : Nat := 0
  /-- Line of the first unread character. -/
  line : Nat := 1
  /-- The tokens read, last one first. -/
  tokens : List Token := []
  /-- Trivia for the next token, last piece first. -/
  pending : List Trivia := []
  /-- Whether blanks and line comments still go to the last token. -/
  trailing : Bool := false
  errors : Diagnostic.Collector

namespace State

/-- Moves past `taken`, leaving `rest` unread. -/
def advance (s : State) (taken rest : List Char) : State :=
  { s with rest, offset := s.offset + Text.byteLength taken, line := s.line + taken.count '\n' }

/-- Reports an error. -/
def report (s : State) (src : Source) (description : String) (offset line : Nat)
    (lexeme : String) : State :=
  let message := Diagnostic.Message.new .scanning description
    |>.locate line (Text.columnAt src.text.toList offset)
    |>.inFile src.file
    |>.onToken lexeme
  { s with errors := s.errors.report message (some src.text) }

/-- Reads `taken` as a token, with the trivia before it. -/
def token (s : State) (kind : Token.Kind) (taken rest : List Char) (value : Option String) :
    State :=
  let next := s.advance taken rest
  let token : Token :=
    { kind, lexeme := String.ofList taken, value, span := ⟨s.offset, next.offset⟩, line := s.line
      leading := s.pending.reverse }
  { next with
    tokens := token :: s.tokens
    pending := []
    trailing := kind != .interpolationStart && kind != .interpolationEnd }

/-- Adds a piece of trivia to the last token. -/
def attach (piece : Trivia) : List Token → List Token
  | [] => []
  | t :: ts => { t with trailing := t.trailing ++ [piece] } :: ts

/-- Reads `taken` as trivia. Blanks and line comments behind a token on its line belong to it, all
other trivia to the next token. -/
def trivia (s : State) (mode : Mode) (kind : Trivia.Kind) (taken rest : List Char) : State :=
  let next := s.advance taken rest
  let trailing := s.trailing && (kind == .blank || kind == .lineComment)
  match mode with
  | .lossy => next
  | .lossless =>
    let piece : Trivia := ⟨kind, String.ofList taken, ⟨s.offset, next.offset⟩⟩
    if trailing then { next with tokens := attach piece s.tokens }
    else { next with pending := piece :: s.pending, trailing }

/-- Reads the whole range, `text`, as an error: it starts something that has no end in it. -/
def unterminated (s : State) (src : Source) (description : String) (text : List Char) : State :=
  let shown := String.ofList (Text.firstLine text)
  (s.report src description s.offset s.line shown).token .error text [] none

/-- Reads a stretch of string text. An interpolation it opens becomes the range. -/
def stretch (s : State) (src : Source) (mark : Char) (piece : Token.Stretch) : State :=
  let value := some (String.ofList piece.value)
  match piece.ending with
  | .closed => s.token .string piece.taken piece.rest value
  | .missing => s.unterminated src "Unterminated string." piece.taken
  | .opened =>
    let s := s.token .interpolationStart piece.taken piece.rest value
    match Token.interpolation? mark piece.rest with
    | some (inner, rest) => { s with rest := inner, waiting := ⟨mark, rest⟩ :: s.waiting }
    | none => s.unterminated src "Unterminated string interpolation." piece.rest

/-- Leaves the interpolation that ends here and goes on with the string around it. -/
def leave (s : State) (src : Source) (w : Waiting) (outer : List Waiting) : State :=
  let s := { s with waiting := outer }.token .interpolationEnd ['}'] w.rest none
  s.stretch src w.mark (Token.stretchFrom w.mark [] [] w.rest)

/-- Reads the lexeme at the front of the range. -/
def lexeme (s : State) (src : Source) (mode : Mode) : Token.Front → State
  | .trivia kind closed taken rest =>
    let s' := if closed then s else s.report src "Unterminated comment." s.offset s.line "/*"
    s'.trivia mode kind taken rest
  | .token kind taken rest => s.token kind taken rest none
  | .quote mark rest => s.stretch src mark (Token.stretchFrom mark [mark] [] rest)
  | .stray c rest =>
    let shown := String.singleton c
    let s := s.report src ("Unexpected character '" ++ shown ++ "'") s.offset s.line shown
    match mode with
    | .lossy => s.advance [c] rest
    | .lossless => s.token .error [c] rest none

/-- One step of the scanner; none if all is read. -/
def step? (s : State) (src : Source) (mode : Mode) : Option State :=
  match s.rest, s.waiting with
  | c :: cs, _ => some (s.lexeme src mode (.of c cs))
  | [], w :: outer => some (s.leave src w outer)
  | [], [] => none

/-- At most `fuel` steps of the scanner. -/
def run (src : Source) (mode : Mode) : Nat → State → State
  | 0, s => s
  | fuel + 1, s =>
    match s.step? src mode with
    | some s' => run src mode fuel s'
    | none => s

end State

/-- The tokens of a source, the last of them its end. -/
structure Stream where
  tokens : List Token
  mode : Mode
  source : Source

/-- Scans a source. Every step takes at least one character, so there are never more steps than
characters. -/
def scan (src : Source) (mode : Mode) (errors : Diagnostic.Collector) :
    Stream × Diagnostic.Collector :=
  let text := src.text.toList
  let s := State.run src mode text.length { rest := text, errors }
  let eof := { Token.eof (Text.byteLength text) s.line with leading := s.pending.reverse }
  (⟨(eof :: s.tokens).reverse, mode, src⟩, s.errors)

/-- The source text rebuilt from the tokens. -/
def Stream.reconstruct (s : Stream) : String := Token.reconstruct s.tokens

end Scan

end LimitSyntax
