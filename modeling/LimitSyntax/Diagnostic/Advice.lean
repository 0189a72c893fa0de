import LimitSyntax.Text.Basic

/-!
# Hints and suggestions

Advice is looked up by the phrases a description contains. A suggestion may mention the token at
fault.
-/

namespace LimitSyntax.Diagnostic

/-- A piece of a suggestion. -/
inductive Fragment where
  | text (words : String)
  /-- The token at fault. -/
  | token

/-- What to tell the reader about a kind of error. -/
structure Advice where
  /-- The advice applies to a description that contains one of these. -/
  phrases : List String
  hint : String
  suggestion : List Fragment

namespace Advice

/-- All advice there is; the first that applies is given. -/
def all : List Advice :=
  [{ phrases := ["Invalid character", "Unexpected character"]
     hint := "This character is not part of the Limit language."
     suggestion := [.text "Remove '", .token, .text "' or replace it with a valid token."] },
   { phrases := ["Unterminated string interpolation"]
     hint := "An interpolation `\x7b...\x7d` inside a string must be closed before the string ends."
     suggestion := [.text "Close the interpolation with '\x7d' and the string with '\x22'."] },
   { phrases := ["Unterminated string"]
     hint := "String literals must be enclosed in matching double quotes."
     suggestion := [.text "Add a closing quote (\x22) at the end of the string literal."] },
   { phrases := ["Unterminated comment"]
     hint := "Block comments opened with `/*` must be closed with `*/`."
     suggestion := [.text "Add `*/` where the comment should end."] },
   { phrases := ["Invalid number format"]
     hint := "Numbers are integers (123), decimals (1.5) or use an exponent (1e9)."
     suggestion := [.text "Check the digits of '", .token, .text "'."] },
   { phrases := ["Too many syntax errors"]
     hint := "Parsing stops after too many errors to avoid cascading reports."
     suggestion := [.text "Fix the first errors and run again."] },
   { phrases := ["Unexpected closing brace"]
     hint := "This closing brace '\x7d' has no matching opening brace '\x7b'."
     suggestion := [.text "Either remove this extra '\x7d' or add a matching '\x7b' before it."] },
   { phrases := ["Expected '\x7d'", "Missing closing brace"]
     hint := "Every block opened with '\x7b' must be closed with a matching '\x7d'."
     suggestion := [.text "Add a closing brace '\x7d' to end the block."] },
   { phrases := ["Expected '\x7b'", "Missing opening brace"]
     hint := "Functions, classes, loops and conditionals need a body in braces."
     suggestion := [.text "Add an opening brace '\x7b' to start the block."] },
   { phrases := ["Expected ';'", "Missing semicolon"]
     hint := "Statements must end with a semicolon."
     suggestion := [.text "Add a semicolon `;` at the end of the statement."] },
   { phrases := ["Expected ')'"]
     hint := "Every '(' needs a matching ')'."
     suggestion := [.text "Add ')' to close the parenthesis."] },
   { phrases := ["Expected ']'"]
     hint := "Every '[' needs a matching ']'."
     suggestion := [.text "Add ']' to close the bracket."] },
   { phrases := ["Expected expression", "Invalid expression", "Invalid factor"]
     hint := "An expression is a value, a variable, a call or an operation between them."
     suggestion := [.text "Write an expression before '", .token, .text "'."] },
   { phrases := ["Invalid assignment target"]
     hint := "Only variables, fields and indexed elements can be assigned to."
     suggestion := [.text "Assign to a variable, a field or an index expression."] },
   { phrases := ["Invalid tuple index"]
     hint := "Tuple elements are accessed with a non-negative integer such as `t.0`."
     suggestion := [.text "Use an integer index after the dot."] },
   { phrases := ["Invalid parameter name"]
     hint := "Type names are reserved and cannot name a parameter."
     suggestion := [.text "Rename the parameter '", .token, .text "'."] },
   { phrases := ["Unknown parameter"]
     hint := "Concurrency blocks accept ch, mode, cores, on_error, timeout, grace and on_timeout."
     suggestion := [.text "Remove '", .token, .text "' or use one of the supported parameters."] },
   { phrases := ["Undefined variable", "Variable/function not found"]
     hint := "Variables must be declared before they are used."
     suggestion :=
       [.text "Check the spelling of '", .token, .text "' or declare it with `var ", .token,
        .text ": type = value;`."] },
   { phrases := ["Undefined function"]
     hint := "Functions must be defined or imported before they are called."
     suggestion :=
       [.text "Define the function '", .token,
        .text "' or import the module that provides it."] },
   { phrases := ["Type mismatch"]
     hint := "Both sides of an operation must have compatible types."
     suggestion := [.text "Convert one of the values explicitly."] },
   { phrases := ["Division by zero", "Modulo by zero"]
     hint := "Dividing by zero has no defined result."
     suggestion := [.text "Check that the divisor is not zero before dividing."] }]

def find? (description : String) : Option Advice :=
  all.find? fun a => a.phrases.any (Text.contains description)

/-- The suggestion, worded for the given token. -/
def suggest (a : Advice) (token : String) : String :=
  String.join (a.suggestion.map fun
    | .text words => words
    | .token => token)

end Advice

end LimitSyntax.Diagnostic
