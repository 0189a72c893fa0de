import LimitSyntax.Diagnostic.Stage
import LimitSyntax.Text.Basic

/-!
# Error codes

Each stage owns a range of codes. A description that contains a well-known phrase of its stage has
that phrase's code; any other description is hashed into the upper half of the range, so equal
descriptions have equal codes, and no hashed code is a well-known one.
-/

namespace LimitSyntax.Diagnostic

/-- The number of an error. -/
structure Code where
  number : Nat
  deriving DecidableEq, Inhabited

namespace Code

/-- The code of the report that ends a parse. -/
def tooManyErrors : Code := ⟨199⟩

/-- `E` and at least three digits. -/
def text (c : Code) : String := "E" ++ Text.padZeros 3 c.number

/-- Well-known phrases and their codes. The first phrase that a description contains decides. -/
def known : List (String × Nat) :=
  [("Invalid character", 1),
   ("Unexpected character", 1),
   ("Unterminated string interpolation", 6),
   ("Unterminated string", 2),
   ("Unterminated comment", 3),
   ("Invalid number format", 4),
   ("Invalid escape sequence", 5),
   ("Too many syntax errors", 199),
   ("Expected '\x7d'", 102),
   ("Unexpected closing brace", 102),
   ("Unexpected token", 100),
   ("Missing opening brace", 103),
   ("Missing closing brace", 104),
   ("Invalid factor", 105),
   ("Missing semicolon", 106),
   ("Expected expression", 107),
   ("Invalid expression", 107),
   ("Invalid statement", 108),
   ("Unexpected end of file", 109),
   ("Invalid function declaration", 110),
   ("Invalid parameter", 111),
   ("Invalid variable declaration", 112),
   ("Invalid tuple index", 113),
   ("Unknown parameter", 114),
   ("Invalid assignment target", 115),
   ("Expected", 101),
   ("Variable/function not found", 200),
   ("Undefined variable", 201),
   ("Undefined function", 202),
   ("Variable already declared", 203),
   ("Function already declared", 204),
   ("Type mismatch", 205),
   ("Invalid assignment", 206),
   ("Invalid function call", 207),
   ("Wrong number of arguments", 208),
   ("Invalid return type", 209),
   ("Invalid bytecode instruction", 300),
   ("Bytecode generation failed", 301),
   ("Invalid opcode", 302),
   ("Bytecode optimization error", 303),
   ("Type mismatch", 304),
   ("Division by zero", 400),
   ("Modulo by zero", 401),
   ("Invalid value stack for unary operation", 402),
   ("Invalid value stack for binary operation", 403),
   ("Unsupported type for NEGATE operation", 404),
   ("Unsupported type for NOT operation", 405),
   ("Unsupported types for binary operation", 406),
   ("Insufficient value stack for logical operation", 407),
   ("Unsupported types for logical operation", 408),
   ("Insufficient value stack for comparison operation", 409),
   ("Unsupported types for comparison operation", 410),
   ("Invalid variable index", 411),
   ("value stack underflow", 412),
   ("Invalid jump offset type", 413),
   ("JUMP_IF_FALSE requires a boolean condition", 414),
   ("Stack overflow", 415),
   ("Null reference", 416),
   ("Out of bounds access", 417),
   ("Compilation failed", 500),
   ("Linker error", 501),
   ("Missing dependency", 502)]

/-- The 64-bit FNV-1a hash of a row of bytes. -/
def hash (bytes : List UInt8) : UInt64 :=
  bytes.foldl (fun h b => (h ^^^ b.toUInt64) * 0x100000001b3) 0xcbf29ce484222325

/-- The code of a description that holds no well-known phrase: a place in the upper half of the
range of its stage, the last place apart. -/
def hashed (stage : Stage) (description : String) : Code :=
  let first := stage.firstCode + 50
  ⟨first + (hash description.toUTF8.toList).toNat % (stage.lastCode - first)⟩

/-- The code of an error found in `stage`. -/
def assign (stage : Stage) (description : String) : Code :=
  match (known.filter (stage.owns ·.2)).find? (Text.contains description ·.1) with
  | some entry => ⟨entry.2⟩
  | none => hashed stage description

end Code

end LimitSyntax.Diagnostic
