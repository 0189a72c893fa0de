import LimitSyntax.Text.Extending
import LimitSyntax.Text.Unprintable

/-!
# Quoted texts

A quoted text stands between double quotes on one line. Quotes, backslashes and the common control
characters have short escapes; any other character that would not show on its own is written by its
code point.
-/

namespace LimitSyntax.Text

/-- `\u` and the code point in hexadecimal between braces. -/
def codePointEscape (c : Char) : List Char :=
  '\x5c' :: 'u' :: '{' :: (Nat.toDigits 16 c.toNat ++ ['}'])

/-- The written form of one character inside quotes. -/
def quoteChar (c : Char) : List Char :=
  if c = '\x22' ∨ c = '\x5c' then ['\x5c', c]
  else if c = '\n' then ['\x5c', 'n']
  else if c = '\r' then ['\x5c', 'r']
  else if c = '\t' then ['\x5c', 't']
  else if c = '\x00' then ['\x5c', '0']
  else if ' ' ≤ c ∧ c ≤ '~' then [c]
  else if extending.has c || unprintable.has c then codePointEscape c
  else [c]

/-- `text` between double quotes. -/
def quote (text : String) : String :=
  String.ofList ('\x22' :: (text.toList.flatMap quoteChar ++ ['\x22']))

end LimitSyntax.Text
