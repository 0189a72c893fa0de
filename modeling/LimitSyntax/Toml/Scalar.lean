import LimitSyntax.Toml.Value

/-!
# Numbers, dates and truth values

The values of a TOML document that are written without quotation marks and brackets.
-/

namespace LimitSyntax.Toml

/-! ## Digits -/

/-- A row of digits in which single underscores may stand between two digits. `after` tells whether
a digit comes just before. -/
def groupsFrom (digit : Char → Bool) (after : Bool) : List Char → Option (List Char)
  | [] => if after then some [] else none
  | c :: cs =>
    if digit c then (c :: ·) <$> groupsFrom digit true cs
    else if c = '_' && after then groupsFrom digit false cs
    else none

/-- The digits of a row with single underscores between them; at least one. -/
def groups? (digit : Char → Bool) (cs : List Char) : Option (List Char) :=
  groupsFrom digit false cs

/-- What a digit, of any base up to sixteen, counts. -/
def digitValue (c : Char) : Nat :=
  if c.isDigit then c.toNat - '0'.toNat
  else if 'a' ≤ c ∧ c ≤ 'f' then c.toNat - 'a'.toNat + 10
  else c.toNat - 'A'.toNat + 10

def isDigitOf (base : Nat) (c : Char) : Bool :=
  (c.isDigit || ('a' ≤ c && c ≤ 'f') || ('A' ≤ c && c ≤ 'F')) && digitValue c < base

/-- The number that digits stand for. -/
def numberOf (base : Nat) (digits : List Char) : Nat :=
  digits.foldl (fun n c => n * base + digitValue c) 0

/-- Decimal digits without a zero in front. -/
def wholePart? (cs : List Char) : Option (List Char) := do
  let digits ← groups? Char.isDigit cs
  match digits with
  | '0' :: _ :: _ => none
  | _ => return digits

/-- The sign in front of a number, true for minus. -/
def signed : List Char → Bool × List Char
  | '-' :: cs => (true, cs)
  | '+' :: cs => (false, cs)
  | cs => (false, cs)

/-! ## Numbers -/

/-- An integer. Only a decimal one has a sign. -/
def integer? : List Char → Option Int
  | '0' :: 'x' :: cs => do return numberOf 16 (← groups? (isDigitOf 16) cs)
  | '0' :: 'o' :: cs => do return numberOf 8 (← groups? (isDigitOf 8) cs)
  | '0' :: 'b' :: cs => do return numberOf 2 (← groups? (isDigitOf 2) cs)
  | cs => do
    let (negative, cs) := signed cs
    let n := numberOf 10 (← wholePart? cs)
    return if negative then -(n : Int) else n

/-- The least number that is rounded to infinity in double precision. -/
def infiniteFrom : Nat := 1 <<< 1024 - 1 <<< 970

/-- Whether the number of `digits` times ten to the `exponent` is too large for a double. It is
computed only if its number of places does not decide the matter. -/
def overflows (digits : List Char) (exponent : Int) : Bool :=
  let digits := digits.dropWhile (· = '0')
  let magnitude := digits.length + exponent
  if digits.isEmpty ∨ magnitude < 309 then false
  else if magnitude > 309 then true
  else if exponent ≥ 0 then infiniteFrom ≤ numberOf 10 digits * Nat.pow 10 exponent.toNat
  else infiniteFrom * Nat.pow 10 (-exponent).toNat ≤ numberOf 10 digits

/-- The exponent of a fraction, zero if there is none. -/
def exponent? : List Char → Option Int
  | [] => some 0
  | e :: cs => do
    guard (e = 'e' ∨ e = 'E')
    let (negative, cs) := signed cs
    let n := numberOf 10 (← groups? Char.isDigit cs)
    return if negative then -(n : Int) else n

/-- A fraction: a whole part with a fractional part, an exponent or both. -/
def float? (cs : List Char) : Option Value := do
  let (_, cs) := signed cs
  if cs = ['i', 'n', 'f'] ∨ cs = ['n', 'a', 'n'] then return .float false
  let ofNumber := fun c => c.isDigit || c = '_'
  let whole ← wholePart? (cs.takeWhile ofNumber)
  match cs.dropWhile ofNumber with
  | [] => none
  | '.' :: cs =>
    let places ← groups? Char.isDigit (cs.takeWhile ofNumber)
    let exponent ← exponent? (cs.dropWhile ofNumber)
    return .float (overflows (whole ++ places) (exponent - places.length))
  | cs => return .float (overflows whole (← exponent? cs))

/-! ## Dates and times -/

/-- Number of days of a month. -/
def daysOf (year month : Nat) : Nat :=
  if month = 2 then
    if year % 4 = 0 ∧ (year % 100 ≠ 0 ∨ year % 400 = 0) then 29 else 28
  else if month = 4 ∨ month = 6 ∨ month = 9 ∨ month = 11 then 30
  else 31

/-- A number of two digits in front of a text, at most `limit`, and the text behind it. -/
def twoDigits? (limit : Nat) : List Char → Option (Nat × List Char)
  | a :: b :: cs =>
    let n := numberOf 10 [a, b]
    if a.isDigit && b.isDigit && n ≤ limit then some (n, cs) else none
  | _ => none

/-- The text behind a date in front of `cs`. -/
def date? : List Char → Option (List Char)
  | a :: b :: c :: d :: '-' :: cs => do
    guard ([a, b, c, d].all Char.isDigit)
    let (month, cs) ← twoDigits? 12 cs
    let '-' :: cs := cs | none
    let (day, cs) ← twoDigits? (daysOf (numberOf 10 [a, b, c, d]) month) cs
    guard (month ≠ 0 ∧ day ≠ 0)
    return cs
  | _ => none

/-- The text behind a time in front of `cs`. Seconds may be left out, and a minute may have a leap
second. -/
def time? (cs : List Char) : Option (List Char) := do
  let (_, cs) ← twoDigits? 23 cs
  let ':' :: cs := cs | none
  let (_, cs) ← twoDigits? 59 cs
  let ':' :: cs := cs | return cs
  let (_, cs) ← twoDigits? 60 cs
  let '.' :: cs := cs | return cs
  guard ((cs.head?.map Char.isDigit).getD false)
  return cs.dropWhile Char.isDigit

/-- Whether a text is a distance from universal time. -/
def isOffset : List Char → Bool
  | ['Z'] | ['z'] => true
  | sign :: cs => (sign = '+' || sign = '-') && (do
      let (_, cs) ← twoDigits? 23 cs
      let ':' :: cs := cs | none
      let (_, cs) ← twoDigits? 59 cs
      return cs.isEmpty).getD false
  | [] => false

/-- Whether a text is a date, a time, or a date with a time. -/
def isMoment (cs : List Char) : Bool :=
  match date? cs with
  | none => time? cs = some []
  | some [] => true
  | some (mark :: cs) => (mark = 'T' || mark = 't' || mark = ' ') &&
      (match time? cs with
      | none => false
      | some cs => cs.isEmpty || isOffset cs)

/-! ## Values -/

/-- The value that a text without quotation marks and brackets stands for. -/
def scalar? (cs : List Char) : Option Value :=
  if cs = ['t', 'r', 'u', 'e'] then some (.boolean true)
  else if cs = ['f', 'a', 'l', 's', 'e'] then some (.boolean false)
  else match integer? cs with
    | some n => some (.integer n)
    | none => if isMoment cs then some .moment else float? cs

/-- Whether `c` can be part of a number, a date or a truth value. -/
def ofScalar (c : Char) : Bool :=
  c.isAlphanum || c = '_' || c = '+' || c = '-' || c = '.' || c = ':'

/-- Divides a text behind the number, date or truth value in front of it. A single space may stand
between a date and its time. -/
def cutScalar (cs : List Char) : List Char × List Char :=
  let (first, rest) := (cs.takeWhile ofScalar, cs.dropWhile ofScalar)
  match rest with
  | ' ' :: c :: more =>
    if date? first = some [] && c.isDigit then
      (first ++ ' ' :: (c :: more).takeWhile ofScalar, (c :: more).dropWhile ofScalar)
    else (first, rest)
  | _ => (first, rest)

end LimitSyntax.Toml
