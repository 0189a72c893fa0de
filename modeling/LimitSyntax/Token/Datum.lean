import LimitSyntax.Datum
import LimitSyntax.Token.Basic

/-!
# Tokens as data

The value of a token is left out if it has none, and so is a side without trivia.
-/

namespace LimitSyntax

def Span.datum (s : Span) : Datum :=
  .record "Span" [("start", .number s.start), ("end", .number s.stop)]

def Trivia.datum (t : Trivia) : Datum :=
  .record "Trivia" [("kind", .symbol t.kind.name), ("text", .text t.text), ("span", t.span.datum)]

/-- A field that is left out if the list is empty. -/
def Trivia.field (name : String) (pieces : List Trivia) : List (String × Datum) :=
  if pieces.isEmpty then [] else [(name, .list (pieces.map Trivia.datum))]

def Token.datum (t : Token) : Datum :=
  .record "Token" <|
    [("kind", .symbol t.kind.name), ("lexeme", .text t.lexeme)] ++
    (t.value.map fun v => [("value", .text v)]).getD [] ++
    [("span", t.span.datum), ("line", .number t.line)] ++
    Trivia.field "leading_trivia" t.leading ++ Trivia.field "trailing_trivia" t.trailing

end LimitSyntax
