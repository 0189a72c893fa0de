import LimitSyntax.Text.Width
import LimitSyntax.Text.Basic

/-!
# Source excerpts

The rows shown under an error: the line at fault between its neighbours, each behind its number,
and a row of carets under the token at fault.
-/

namespace LimitSyntax.Diagnostic

/-- The most lines an excerpt shows on either side of the line at fault. -/
def maxContext : Nat := 2

/-- Number of decimal digits of `n`. -/
def digitCount (n : Nat) : Nat := (Nat.toDigits 10 n).length

/-- The row under the line at fault: carets from `column` on, as wide as the first line of `token`
and at least one. -/
def indicatorRow (line : List Char) (column : Nat) (token : String) (gutter : Nat) : String :=
  let indent := Text.width (line.take (column - 1))
  let carets := max (Text.width (Text.firstLine token.toList)) 1
  Text.spaces gutter ++ " | " ++ Text.spaces indent ++ String.ofList (List.replicate carets '^')

/-- A source line behind its number. -/
def sourceRow (number : Nat) (line : List Char) (gutter : Nat) : String :=
  Text.padLeft gutter (toString number) ++ " | " ++ String.ofList line

/-- The rows around line `line` of `source`, none if it has no such line. At most `before` lines
above it and `after` lines below it are shown. -/
def excerpt (source : String) (line column : Nat) (token : String) (before after : Nat) :
    List String :=
  let lines := (Text.splitLines source.toList).map Text.dropReturn
  if line = 0 ∨ lines.length < line then []
  else
    let first := max 1 (line - min before maxContext)
    let last := min (line + min after maxContext) lines.length
    let gutter := max (digitCount last) 2
    ((lines.take last).drop (first - 1)).zipIdx first |>.flatMap fun (text, number) =>
      let row := sourceRow number text gutter
      if number = line then [row, indicatorRow text column token gutter] else [row]

end LimitSyntax.Diagnostic
