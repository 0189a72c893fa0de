import LimitSyntax.Text.Columns
import LimitSyntax.Text.Ligature
import LimitSyntax.Text.Pictograph

/-!
# Display width

The number of columns a text takes. A wide character takes two columns, a mark takes none, and any
other character, control characters included, takes one. Some characters share their columns with
what stands after them: pictographs joined to other pictographs, pictographs with a skin tone,
regional letters, ligatures, and a carriage return before a line feed. A variation mark decides
whether the character before it is a picture. So a text is measured from its end, with `Tail` for
what has been read.
-/

namespace LimitSyntax.Text

/-- How a variation mark wants the character before it to be shown. -/
inductive Style where
  | picture
  | character
  | fullWidth
  deriving DecidableEq

/-- The style that `c` asks for, if it is a variation mark that has a say in width. -/
def Style.ofMark? (c : Char) : Option Style :=
  if c.toNat = 0xfe0f then some picture
  else if c.toNat = 0xfe0e then some character
  else if c.toNat = 0xfe01 then some fullWidth
  else none

/-- The start of a text, as far as it bears on the width of the character before it. -/
inductive Head where
  | plain
  | lineFeed
  /-- A skin tone. -/
  | tone
  | region
  /-- Two regional letters or more. -/
  | regions
  | picture
  /-- A joiner and a picture, as in each case below. -/
  | joined
  | joinedKeycap
  | joinedRegion
  /-- Pairs of regional letters, joined to a picture. -/
  | joinedFlags
  /-- One regional letter and pairs of them, joined to a picture. -/
  | joinedRegionFlags
  /-- The end of a subdivision flag, joined to a picture, with so many tag letters. -/
  | joinedTag (letters : Nat)
  /-- The same, with so many tag digits in front of the letters. -/
  | joinedTagDigits (digits : Nat)
  /-- The Kirat Rai vowel sign e. -/
  | signE
  /-- The Kirat Rai vowel sign ai, which is e twice. -/
  | signAi
  | alef
  | ligature (l : Ligature)
  deriving DecidableEq

/-- The part of a text that has been measured: how it starts, and the style that a variation mark in
front of it asks for. -/
structure Tail where
  head : Head := .plain
  style : Option Style := none

/-- Whether `c` is a skin tone. -/
def isTone (c : Char) : Bool := 0x1f3fb ≤ c.toNat && c.toNat ≤ 0x1f3ff

/-- Whether `c` is a regional letter, half of a flag. -/
def isRegion (c : Char) : Bool := 0x1f1e6 ≤ c.toNat && c.toNat ≤ 0x1f1ff

/-- Whether `c` is a picture that a variation mark can make a character of one column. The wide
signs on a square stay wide. -/
def narrows (c : Char) : Bool :=
  restyled.has c && pictured.has c && !(0x1f200 ≤ c.toNat && c.toNat < 0x1f300)

/-- Whether `c` is one of the quotation marks that have a wide form. -/
def isQuotationMark (c : Char) : Bool :=
  c.toNat = 0x2018 || c.toNat = 0x2019 || c.toNat = 0x201c || c.toNat = 0x201d

namespace Head

/-- What a letter of one column makes of the text it starts. -/
def ofLetter (c : Char) : Head :=
  if alefs.has c then alef
  else if c.toNat = 0x16d67 then signE
  else if c.toNat = 0x16d68 then signAi
  else match Ligature.ofLast? c with
  | some l => ligature l
  | none => plain

/-- Whether variation marks leave the start of the text as it is. -/
def isLigature : Head → Bool
  | alef | ligature _ => true
  | _ => false

/-- Whether the start of the text is joined to what stands before it, a styled picture too. -/
def isJoined : Head → Bool
  | joined | joinedKeycap => true
  | _ => false

/-- The columns that `c` adds to a text that starts so, and the new start. It is none if `c` is
measured as it would be in front of any text. -/
def extend? (h : Head) (c : Char) : Option (Int × Head) :=
  match h with
  | plain | lineFeed => none
  | tone =>
    if toned.has c then some (0, picture)
    else if c.toNat = 0x200d then some (0, joined)
    else none
  | region => if isRegion c then some (1, regions) else none
  | regions =>
    if isRegion c then some (1, regions)
    else if c.toNat = 0x200d then some (0, joined)
    else none
  | picture => if c.toNat = 0x200d then some (0, joined) else none
  | joined =>
    if c.toNat = 0x20e3 then some (0, joinedKeycap)
    else if isRegion c then some (1, joinedRegion)
    else if isTone c then some (0, tone)
    else if c.toNat = 0xe007f then some (0, joinedTag 0)
    else if pictured.has c then some (0, picture)
    else none
  | joinedKeycap => none
  | joinedRegion => if isRegion c then some (-1, joinedFlags) else none
  | joinedFlags =>
    if isRegion c then some (3, joinedRegionFlags)
    else if c.toNat = 0x200d then some (0, joined)
    else none
  | joinedRegionFlags =>
    if isRegion c then some (-1, joinedFlags)
    else if c.toNat = 0x200d then some (0, joined)
    else none
  | joinedTag letters =>
    if 0xe0061 ≤ c.toNat ∧ c.toNat ≤ 0xe007a ∧ letters < 6 then some (0, joinedTag (letters + 1))
    else if 0xe0030 ≤ c.toNat ∧ c.toNat ≤ 0xe0039 ∧ letters < 5 then some (0, joinedTagDigits 1)
    else if c.toNat = 0x1f3f4 ∧ 3 ≤ letters then some (0, picture)
    else none
  | joinedTagDigits digits =>
    if 0xe0030 ≤ c.toNat ∧ c.toNat ≤ 0xe0039 ∧ digits < 3 then
      some (0, joinedTagDigits (digits + 1))
    else if c.toNat = 0x1f3f4 ∧ digits = 3 then some (0, picture)
    else none
  | signE =>
    if c.toNat = 0x16d63 ∨ c.toNat = 0x16d69 then some (0, plain)
    else if c.toNat = 0x16d67 then some (0, signAi)
    else if c.toNat = 0x16d68 then some (1, signE)
    else none
  | signAi => if c.toNat = 0x16d63 then some (0, plain) else none
  | alef =>
    if lams.has c then some (0, plain)
    else if columnless.has c && !severing.has c then some (0, alef)
    else none
  | ligature l => (l.extend? c).map fun (columns, rest) =>
    (columns, match rest with
      | some l => ligature l
      | none => plain)

end Head

/-- The columns of `c` in front of a text that has no bearing on it, and the text it starts. -/
def measureAlone (c : Char) : Int × Tail :=
  if c = '\n' then (1, { head := .lineFeed })
  else if c.toNat ≤ 0xa0 then (1, {})
  else match Style.ofMark? c with
  | some style => (0, { style := some style })
  | none =>
    if isRegion c then (1, { head := .region })
    else if isTone c then (2, { head := .tone })
    else if pictured.has c then (2, { head := .picture })
    else if columnless.has c then (0, {})
    else if wide.has c then (2, {})
    else if c.toNat = 0x17d8 then (3, {})
    else (1, { head := .ofLetter c })

namespace Tail

/-- The text after a variation mark for a picture that did not apply. -/
def dropPicture (t : Tail) : Tail :=
  match t.style with
  | some .picture => { head := if t.head.isLigature then t.head else .plain }
  | _ => t

/-- The text with a variation mark in front. -/
def mark (t : Tail) (style : Style) : Tail :=
  let kept := t.head.isLigature || style = .picture && t.head.isJoined
  { head := if kept then t.head else .plain, style := some style }

/-- The columns that `c` adds in front of the text, and the text it starts. -/
def cons (c : Char) (t : Tail) : Int × Tail :=
  if t.style = some .picture ∧ restyled.has c then
    (if t.head.isJoined then 0 else 2, { head := .picture })
  else
    let t := t.dropPicture
    if c.toNat ≤ 0xa0 then
      if c = '\r' ∧ t.head = .lineFeed then (0, {}) else measureAlone c
    else match Style.ofMark? c with
    | some style => (0, t.mark style)
    | none =>
      if t.style = some .character ∧ narrows c then (1, {})
      else if t.style = some .fullWidth ∧ isQuotationMark c then (2, {})
      else match t.head.extend? c with
      | some (columns, head) => (columns, { head })
      | none => measureAlone c

end Tail

/-- Columns that `cs` takes when shown on one line. -/
def width (cs : List Char) : Nat :=
  let (columns, _) := cs.foldr
    (fun c (columns, tail) =>
      let (more, tail) := tail.cons c
      (columns + more, tail))
    ((0, {}) : Int × Tail)
  columns.toNat

end LimitSyntax.Text
