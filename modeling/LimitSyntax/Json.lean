import LimitSyntax.Text.Basic

/-!
# JSON documents

JSON values with two layouts: all on one line without blanks, or one element to a line, indented by
two spaces a level. The members of an object keep their order.
-/

namespace LimitSyntax

/-- A JSON value without fractions and negative numbers. -/
inductive Json where
  | null
  | bool (b : Bool)
  | number (n : Nat)
  | string (s : String)
  | array (elements : List Json)
  | object (members : List (String × Json))
  deriving Inhabited

namespace Json

/-- Two characters for a nibble pair, lower case. -/
def hexPair (n : Nat) : List Char :=
  [Nat.digitChar (n / 16 % 16), Nat.digitChar (n % 16)]

/-- The written form of one character. Quotation marks, backslashes and control characters are
escaped. -/
def escapeChar (c : Char) : List Char :=
  if c = '\x22' ∨ c = '\x5c' then ['\x5c', c]
  else if c = '\n' then ['\x5c', 'n']
  else if c = '\r' then ['\x5c', 'r']
  else if c = '\t' then ['\x5c', 't']
  else if c = '\x08' then ['\x5c', 'b']
  else if c = '\x0c' then ['\x5c', 'f']
  else if c < ' ' then ['\x5c', 'u', '0', '0'] ++ hexPair c.toNat
  else [c]

/-- A string between quotation marks. -/
def quote (s : String) : String :=
  String.ofList ('\x22' :: (s.toList.flatMap escapeChar ++ ['\x22']))

mutual
/-- Adds a value to `out` on one line. -/
def writeLine (out : String) : Json → String
  | .null => out ++ "null"
  | .bool b => out ++ if b then "true" else "false"
  | .number n => out ++ toString n
  | .string s => out ++ quote s
  | .array elements => writeLineElements (out ++ "[") true elements ++ "]"
  | .object members => writeLineMembers (out ++ "\x7b") true members ++ "\x7d"

/-- Adds the elements of an array, a comma before each but the first. -/
def writeLineElements (out : String) (first : Bool) : List Json → String
  | [] => out
  | e :: es => writeLineElements (writeLine (if first then out else out ++ ",") e) false es

/-- Adds the members of an object, a comma before each but the first. -/
def writeLineMembers (out : String) (first : Bool) : List (String × Json) → String
  | [] => out
  | (key, e) :: es =>
    let out := (if first then out else out ++ ",") ++ quote key ++ ":"
    writeLineMembers (writeLine out e) false es
end

mutual
/-- Adds a value to `out` with one element to a line, at the given depth. -/
def writeLayered (depth : Nat) (out : String) : Json → String
  | .null => out ++ "null"
  | .bool b => out ++ if b then "true" else "false"
  | .number n => out ++ toString n
  | .string s => out ++ quote s
  | .array [] => out ++ "[]"
  | .array (e :: es) =>
    writeLayeredElements (depth + 1) (out ++ "[") true (e :: es) ++ "\n" ++
      Text.spaces (2 * depth) ++ "]"
  | .object [] => out ++ "\x7b\x7d"
  | .object (m :: ms) =>
    writeLayeredMembers (depth + 1) (out ++ "\x7b") true (m :: ms) ++ "\n" ++
      Text.spaces (2 * depth) ++ "\x7d"

/-- Adds the elements of an array, each on a line of its own. -/
def writeLayeredElements (depth : Nat) (out : String) (first : Bool) : List Json → String
  | [] => out
  | e :: es =>
    let out := (if first then out else out ++ ",") ++ "\n" ++ Text.spaces (2 * depth)
    writeLayeredElements depth (writeLayered depth out e) false es

/-- Adds the members of an object, each on a line of its own. -/
def writeLayeredMembers (depth : Nat) (out : String) (first : Bool) : List (String × Json) → String
  | [] => out
  | (key, e) :: es =>
    let out := (if first then out else out ++ ",") ++ "\n" ++ Text.spaces (2 * depth) ++
      quote key ++ ": "
    writeLayeredMembers depth (writeLayered depth out e) false es
end

/-- The text of a value on one line. -/
def line (j : Json) : String := writeLine "" j

/-- The text of a value with one element to a line. -/
def layered (j : Json) : String := writeLayered 0 "" j

end Json

end LimitSyntax
