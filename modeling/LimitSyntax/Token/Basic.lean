import LimitSyntax.Span
import LimitSyntax.Token.Kind

/-!
# Tokens and trivia

A token carries the exact text it was read from. Blanks, line ends and comments are trivia; each
piece is attached to the token before or after it, so that the texts of all tokens in a row spell
out the source.
-/

namespace LimitSyntax

/-- What a piece of trivia is. -/
inductive Trivia.Kind where
  /-- A run of blanks without a line feed. -/
  | blank
  /-- One line feed. -/
  | newline
  /-- From `//` up to the line feed. -/
  | lineComment
  /-- From `/*` to `*/`, or to the end of the source. -/
  | blockComment
  deriving DecidableEq, Inhabited

namespace Trivia.Kind

def name : Trivia.Kind → String
  | .blank => "Whitespace"
  | .newline => "Newline"
  | .lineComment => "LineComment"
  | .blockComment => "BlockComment"

def ofName? (name : String) : Option Trivia.Kind :=
  [blank, newline, lineComment, blockComment].find? (·.name == name)

/-- Comments of either form. -/
def isComment : Trivia.Kind → Bool
  | .lineComment | .blockComment => true
  | _ => false

/-- Blanks and line feeds. -/
def isSpace : Trivia.Kind → Bool
  | .blank | .newline => true
  | _ => false

end Trivia.Kind

/-- A piece of source text that has no meaning to the grammar. -/
structure Trivia where
  kind : Trivia.Kind
  text : String
  span : Span
  deriving DecidableEq, Inhabited

/-- A token, the trivia around it included. -/
structure Token where
  kind : Token.Kind
  /-- The source text of the token itself. -/
  lexeme : String
  /-- The text a string token stands for, its escapes resolved. -/
  value : Option String := none
  span : Span
  /-- The line on which the token starts. -/
  line : Nat
  leading : List Trivia := []
  trailing : List Trivia := []
  deriving DecidableEq, Inhabited

namespace Token

/-- The placeholder for a token that was expected and not found. -/
def missing (offset line : Nat) : Token :=
  { kind := .missing, lexeme := "", span := .empty offset, line }

/-- The end of a source of `offset` bytes. -/
def eof (offset line : Nat) : Token :=
  { kind := .eof, lexeme := "", span := .empty offset, line }

/-- The text a token stands for, empty if it stands for none. -/
def text (t : Token) : String := t.value.getD ""

/-- The span from the first leading to the last trailing piece of trivia. -/
def fullSpan (t : Token) : Span where
  start := (t.leading.head?.map (·.span.start)).getD t.span.start
  stop := (t.trailing.getLast?.map (·.span.stop)).getD t.span.stop

/-- The source text of a token with its trivia. -/
def source (t : Token) : String :=
  String.join (t.leading.map (·.text)) ++ t.lexeme ++ String.join (t.trailing.map (·.text))

/-- The pieces of trivia around a token, in source order. -/
def trivia (t : Token) : List Trivia := t.leading ++ t.trailing

/-- The comments around a token. -/
def comments (t : Token) : List Trivia := t.trivia.filter (·.kind.isComment)

/-- The source text of a row of tokens. -/
def reconstruct (tokens : List Token) : String := String.join (tokens.map source)

end Token

end LimitSyntax
