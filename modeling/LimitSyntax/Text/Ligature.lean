import LimitSyntax.Text.Ranges

/-!
# Ligatures

Letters that share one column with the letter after them. A ligature is found from its last letter:
`Ligature` says what of it has been read, and `Ligature.extend?` reads one more character in front
of that.

Hebrew, Buginese and Old Turkic letters need a joiner between them, Tifinagh consonants a joiner or
the joiner of their script. A Lisu tone letter combines with the one after it, and a Khmer coeng
sign puts the letter after it below the line. Ignored marks may stand anywhere inside. Arabic lam
and alef combine across marks only.
-/

namespace LimitSyntax.Text

/-- Letters of the form of alef, the second half of an Arabic ligature. -/
def alefs : Ranges :=
  [(0x622, 0x623), (0x625, 0x625), (0x627, 0x627), (0x671, 0x673), (0x675, 0x675),
   (0x773, 0x774), (0x870, 0x882)]

/-- Letters of the form of lam, the first half of an Arabic ligature. -/
def lams : Ranges :=
  [(0x644, 0x644), (0x6b5, 0x6b8), (0x76a, 0x76a), (0x8a6, 0x8a6), (0x8c7, 0x8c7)]

/-- Characters that take no column and yet stand between two Arabic letters: they keep lam and
alef apart. -/
def severing : Ranges :=
  [(0x605, 0x605), (0x890, 0x891), (0x8e2, 0x8e2), (0x9be, 0x9be), (0x9d7, 0x9d7), (0xb3e, 0xb3e),
   (0xb57, 0xb57), (0xbbe, 0xbbe), (0xbd7, 0xbd7), (0xcc0, 0xcc0), (0xcc2, 0xcc2), (0xcc7, 0xcc8),
   (0xcca, 0xccb), (0xcd5, 0xcd6), (0xd3e, 0xd3e), (0xd4e, 0xd4e), (0xd57, 0xd57), (0xdcf, 0xdcf),
   (0xddf, 0xddf), (0x1160, 0x11ff), (0x1715, 0x1715), (0x1734, 0x1734), (0x180e, 0x180e),
   (0x1b35, 0x1b35), (0x1b3b, 0x1b3b), (0x1b3d, 0x1b3d), (0x1b43, 0x1b44), (0x1baa, 0x1baa),
   (0x1bf2, 0x1bf3), (0x200c, 0x200d), (0x2065, 0x2069), (0x302e, 0x302f), (0x3164, 0x3164),
   (0xa8fa, 0xa8fa), (0xa953, 0xa953), (0xa9c0, 0xa9c0), (0xd7b0, 0xd7c6), (0xd7cb, 0xd7fb),
   (0xffa0, 0xffa0), (0xfff0, 0xfff8), (0x111c0, 0x111c0), (0x111c2, 0x111c3), (0x11235, 0x11235),
   (0x1133e, 0x1133e), (0x1134d, 0x1134d), (0x11357, 0x11357), (0x113b8, 0x113b8),
   (0x113c2, 0x113c2), (0x113c5, 0x113c5), (0x113c7, 0x113c9), (0x113cf, 0x113cf),
   (0x113d1, 0x113d1), (0x114b0, 0x114b0), (0x114bd, 0x114bd), (0x115af, 0x115af),
   (0x116b6, 0x116b6), (0x11930, 0x11930), (0x1193d, 0x1193d), (0x1193f, 0x1193f),
   (0x11941, 0x11941), (0x11a84, 0x11a89), (0x11d46, 0x11d46), (0x11f02, 0x11f02),
   (0x11f41, 0x11f41), (0x16ff0, 0x16ff1), (0x1d165, 0x1d166), (0x1d16d, 0x1d172),
   (0xe0000, 0xe0000), (0xe0002, 0xe001f), (0xe0080, 0xe00ff), (0xe01f0, 0xe0fff)]

/-- Khmer letters that have a form below the line. -/
def coengLetters : Ranges :=
  [(0x1780, 0x1782), (0x1784, 0x1787), (0x1789, 0x178c), (0x178e, 0x1793), (0x1795, 0x1798),
   (0x179b, 0x179d), (0x17a0, 0x17a0), (0x17a2, 0x17a2), (0x17a7, 0x17a7), (0x17ab, 0x17ac),
   (0x17af, 0x17af)]

def tifinaghConsonants : Ranges := [(0x2d31, 0x2d65), (0x2d6f, 0x2d6f)]

/-- Marks that may stand inside a ligature. -/
def ignoredMarks : Ranges :=
  [(0x34f, 0x34f), (0x17b4, 0x17b5), (0x180b, 0x180d), (0x180f, 0x180f), (0xfe00, 0xfe0f),
   (0xe0100, 0xe01ef)]

/-- The end of a ligature. In `lamed`, `ya`, `consonant` and `orkhonI` the flag tells whether a
joiner has been read in front of the letter. -/
inductive Ligature where
  | lamed (joined : Bool)
  | ya (joined : Bool)
  /-- The Buginese vowel sign i, a joiner and ya. -/
  | vowelYa
  | consonant (joined : Bool)
  /-- The Tifinagh joiner and a consonant. -/
  | joinerConsonant
  | tone
  | orkhonI (joined : Bool)
  | coengLetter
  deriving DecidableEq

namespace Ligature

/-- The ligature that `c` can end. -/
def ofLast? (c : Char) : Option Ligature :=
  if c.toNat = 0x5dc then some (lamed false)
  else if c.toNat = 0x1a10 then some (ya false)
  else if tifinaghConsonants.has c then some (consonant false)
  else if c.toNat = 0xa4fc ∨ c.toNat = 0xa4fd then some tone
  else if c.toNat = 0x10c03 then some (orkhonI false)
  else if coengLetters.has c then some coengLetter
  else none

/-- The ligature with a joiner in front. -/
def join : Ligature → Ligature
  | lamed _ => lamed true
  | ya _ => ya true
  | consonant _ => consonant true
  | orkhonI _ => orkhonI true
  | l => l

/-- Reads `c` in front of the end of a ligature. The result is the columns that `c` adds, which may
make up for those counted already, and what of the ligature is left to read, if anything is. The
whole result is none if `c` has no part in the ligature. -/
def extend? (l : Ligature) (c : Char) : Option (Int × Option Ligature) :=
  if c.toNat = 0x200d then some (0, some l.join)
  else if ignoredMarks.has c then some (0, some l)
  else match l with
  | lamed true => if c.toNat = 0x5d0 then some (0, none) else none
  | ya true => if c.toNat = 0x1a17 then some (0, some vowelYa) else none
  | vowelYa => if c.toNat = 0x1a15 then some (0, none) else none
  | consonant joined =>
    if c.toNat = 0x2d7f then some (1, some joinerConsonant)
    else if joined && tifinaghConsonants.has c then some (0, none)
    else none
  | joinerConsonant => if tifinaghConsonants.has c then some (-1, none) else none
  | tone => if 0xa4f8 ≤ c.toNat ∧ c.toNat ≤ 0xa4fb then some (0, none) else none
  | orkhonI true => if c.toNat = 0x10c32 then some (0, none) else none
  | coengLetter => if c.toNat = 0x17d2 then some (-1, none) else none
  | lamed false | ya false | orkhonI false => none

end Ligature

end LimitSyntax.Text
