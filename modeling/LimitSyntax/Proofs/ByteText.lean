import LimitSyntax.Proofs.Layout
import Mathlib.Data.List.TakeWhile

/-!
# The bytes of a text

A byte is written as the character with its code (`Text.ofByte`), so that a text and its UTF-8 form
are both lists of characters. An ASCII character is its own form; all bytes of any other are outside
of ASCII. So a class of characters that does not tell apart what is outside of ASCII
(`Text.Uniform`) finds the same runs in the bytes of a text as in the text.
-/

namespace LimitSyntax

namespace Text

/-- The character with the code of a byte. -/
def ofByte (b : UInt8) : Char := Char.ofNat b.toNat

/-- The bytes of the UTF-8 form of a character. -/
def charBytes (c : Char) : List Char := (String.utf8EncodeChar c).map ofByte

/-- The bytes of the UTF-8 form of a text. -/
def bytes (cs : List Char) : List Char := cs.flatMap charBytes

/-- The character has one byte. -/
def IsAscii (c : Char) : Prop := c.toNat < 128

instance (c : Char) : Decidable (IsAscii c) := inferInstanceAs (Decidable (c.toNat < 128))

theorem toNat_ofByte (b : UInt8) : (ofByte b).toNat = b.toNat := by
  have hall : ∀ n < 256, (Char.ofNat n).toNat = n := by decide +kernel
  exact hall b.toNat b.toNat_lt

section
variable {c : Char}

@[simp] theorem length_charBytes (c : Char) : (charBytes c).length = c.utf8Size := by
  rw [charBytes, List.length_map, String.length_utf8EncodeChar]

theorem charBytes_of_isAscii (h : IsAscii c) : charBytes c = [c] := by
  have hle : c.val.toNat ≤ 127 := Nat.le_of_lt_succ h
  have hcode : (UInt8.ofNat c.val.toNat).toNat = c.toNat := by
    rw [UInt8.toNat_ofNat', Nat.mod_eq_of_lt (Nat.lt_of_le_of_lt hle (by decide)), Char.toNat_val]
  rw [charBytes, String.utf8EncodeChar, if_pos hle, List.map_singleton, ofByte, hcode,
    Char.ofNat_toNat]

theorem not_isAscii_of_mem_charBytes (h : ¬ IsAscii c) {b : Char} (hb : b ∈ charBytes c) :
    ¬ IsAscii b := by
  have hlt : ¬ c.val.toNat ≤ 127 := fun hle => h (Nat.lt_succ_of_le hle)
  obtain ⟨u, hu, rfl⟩ := List.mem_map.1 hb
  rw [IsAscii, toNat_ofByte, Nat.not_lt]
  rw [String.utf8EncodeChar, if_neg hlt] at hu
  -- a byte of a long form is a number below 64 added to one that is at least 128
  have hhigh {n k : Nat} (hk : 128 ≤ k) (hsum : n + k < 256) :
      128 ≤ (UInt8.ofNat (n + k)).toNat := by
    rw [UInt8.toNat_ofNat', Nat.mod_eq_of_lt hsum]
    exact Nat.le_trans hk (Nat.le_add_left k n)
  split at hu
  · simp only [List.mem_cons, List.not_mem_nil, or_false] at hu
    rcases hu with rfl | rfl
    all_goals exact hhigh (by decide) (by omega)
  split at hu
  · simp only [List.mem_cons, List.not_mem_nil, or_false] at hu
    rcases hu with rfl | rfl | rfl
    all_goals exact hhigh (by decide) (by omega)
  · simp only [List.mem_cons, List.not_mem_nil, or_false] at hu
    rcases hu with rfl | rfl | rfl | rfl
    all_goals exact hhigh (by decide) (by omega)

theorem exists_charBytes (c : Char) : ∃ b bs, charBytes c = b :: bs :=
  List.exists_cons_of_length_pos (by rw [length_charBytes]; exact c.utf8Size_pos)

end

/-! ## Texts -/

@[simp] theorem bytes_nil : bytes [] = [] := rfl

@[simp] theorem bytes_cons (c : Char) (cs : List Char) :
    bytes (c :: cs) = charBytes c ++ bytes cs := rfl

@[simp] theorem bytes_append (cs ds : List Char) : bytes (cs ++ ds) = bytes cs ++ bytes ds :=
  List.flatMap_append

theorem bytes_cons_of_isAscii {c : Char} (h : IsAscii c) (cs : List Char) :
    bytes (c :: cs) = c :: bytes cs := by
  rw [bytes_cons, charBytes_of_isAscii h, List.singleton_append]

theorem head?_bytes_eq_some_iff {x : Char} (hx : IsAscii x) (cs : List Char) :
    (bytes cs).head? = some x ↔ cs.head? = some x := by
  cases cs with
  | nil => exact Iff.rfl
  | cons c cs =>
    by_cases hc : IsAscii c
    · rw [bytes_cons_of_isAscii hc]
      exact Iff.rfl
    · obtain ⟨b, bs, hcons⟩ := exists_charBytes c
      have hb : b ≠ x := fun hbx =>
        not_isAscii_of_mem_charBytes hc (hcons ▸ List.mem_cons_self) (hbx ▸ hx)
      have hcx : c ≠ x := fun hcx => hc (hcx ▸ hx)
      rw [bytes_cons, hcons]
      simp [hb, hcx]

@[simp] theorem length_bytes (cs : List Char) : (bytes cs).length = byteLength cs := by
  induction cs with
  | nil => rfl
  | cons c cs ih => rw [bytes_cons, List.length_append, ih, length_charBytes, byteLength_cons]

theorem bytes_of_isAscii {cs : List Char} (h : ∀ c ∈ cs, IsAscii c) : bytes cs = cs := by
  induction cs with
  | nil => rfl
  | cons c cs ih =>
    rw [List.forall_mem_cons] at h
    rw [bytes_cons_of_isAscii h.1, ih h.2]

theorem byteLength_pos {cs : List Char} (h : cs ≠ []) : 0 < byteLength cs := by
  obtain ⟨c, ds, rfl⟩ := List.exists_cons_of_ne_nil h
  rw [byteLength_cons]
  exact Nat.lt_of_lt_of_le c.utf8Size_pos (Nat.le_add_right _ _)

theorem byteLength_cons_of_isAscii {c : Char} (h : IsAscii c) (cs : List Char) :
    byteLength (c :: cs) = byteLength cs + 1 := by
  rw [← length_bytes, bytes_cons_of_isAscii h, List.length_cons, length_bytes]

theorem byteLength_of_isAscii {cs : List Char} (h : ∀ c ∈ cs, IsAscii c) :
    byteLength cs = cs.length := by
  rw [← length_bytes, bytes_of_isAscii h]

theorem count_bytes {x : Char} (hx : IsAscii x) (cs : List Char) :
    (bytes cs).count x = cs.count x := by
  induction cs with
  | nil => rfl
  | cons c cs ih =>
    by_cases hc : IsAscii c
    · rw [bytes_cons_of_isAscii hc, List.count_cons, List.count_cons, ih]
    · have hne : c ≠ x := fun h => hc (h ▸ hx)
      have hbytes : x ∉ charBytes c := fun h => not_isAscii_of_mem_charBytes hc h hx
      rw [bytes_cons, List.count_append, List.count_eq_zero_of_not_mem hbytes, ih, Nat.zero_add,
        List.count_cons_of_ne hne]

/-- The bytes of a source are those of its text. -/
theorem map_ofByte_toByteArray (text : String) :
    text.toByteArray.data.toList.map ofByte = bytes text.toList := by
  conv_lhs => rw [← String.ofList_toList (s := text)]
  rw [String.toByteArray_ofList, List.utf8Encode, List.toList_data_toByteArray, List.map_flatMap]
  rfl

/-! ## Classes of characters -/

/-- The class does not tell apart characters outside of ASCII. -/
def Uniform (p : Char → Bool) : Prop := ∀ c d, ¬ IsAscii c → ¬ IsAscii d → p c = p d

theorem uniform_of_isAscii {p : Char → Bool} (h : ∀ c, p c = true → IsAscii c) : Uniform p := by
  intro c d hc hd
  have hfalse {c : Char} (hc : ¬ IsAscii c) : p c = false := by
    cases hp : p c with
    | false => rfl
    | true => exact absurd (h c hp) hc
  rw [hfalse hc, hfalse hd]

namespace Uniform

variable {p q : Char → Bool}

theorem not (hp : Uniform p) : Uniform fun c => !p c :=
  fun c d hc hd => congrArg (!·) (hp c d hc hd)

theorem and (hp : Uniform p) (hq : Uniform q) : Uniform fun c => p c && q c :=
  fun c d hc hd => congrArg₂ (· && ·) (hp c d hc hd) (hq c d hc hd)

theorem or (hp : Uniform p) (hq : Uniform q) : Uniform fun c => p c || q c :=
  fun c d hc hd => congrArg₂ (· || ·) (hp c d hc hd) (hq c d hc hd)

theorem eq {x : Char} (hx : IsAscii x) : Uniform fun c => decide (c = x) :=
  uniform_of_isAscii fun _ h => of_decide_eq_true h ▸ hx

theorem ne {x : Char} (hx : IsAscii x) : Uniform fun c => decide (c ≠ x) := by
  simpa only [ne_eq, decide_not] using (eq hx).not

/-- The bytes of a character belong to the class if it does. -/
theorem of_mem_charBytes (hp : Uniform p) {b c : Char} (hb : b ∈ charBytes c) : p b = p c := by
  by_cases hc : IsAscii c
  · rw [charBytes_of_isAscii hc, List.mem_singleton] at hb
    rw [hb]
  · exact hp b c (not_isAscii_of_mem_charBytes hc hb) hc

theorem any_head?_bytes (hp : Uniform p) (cs : List Char) :
    (bytes cs).head?.any p = cs.head?.any p := by
  cases cs with
  | nil => rfl
  | cons c cs =>
    obtain ⟨b, bs, hcons⟩ := exists_charBytes c
    rw [bytes_cons, hcons]
    exact hp.of_mem_charBytes (hcons ▸ List.mem_cons_self)

theorem takeWhile_bytes (hp : Uniform p) (cs : List Char) :
    (bytes cs).takeWhile p = bytes (cs.takeWhile p) := by
  induction cs with
  | nil => rfl
  | cons c cs ih =>
    have hbytes {b : Char} : b ∈ charBytes c → p b = p c := hp.of_mem_charBytes
    by_cases hc : p c = true
    · rw [List.takeWhile_cons_of_pos hc, bytes_cons, bytes_cons, ← ih,
        List.takeWhile_append_of_pos fun b hb => (hbytes hb).trans hc]
    · obtain ⟨b, bs, hcons⟩ := exists_charBytes c
      have hb : ¬ p b = true := by rwa [hbytes (hcons ▸ List.mem_cons_self)]
      rw [List.takeWhile_cons_of_neg hc, bytes_cons, hcons, List.cons_append,
        List.takeWhile_cons_of_neg hb, bytes_nil]

theorem any_bytes (hp : Uniform p) (cs : List Char) : (bytes cs).any p = cs.any p := by
  rw [Bool.eq_iff_iff, List.any_eq_true, List.any_eq_true]
  constructor
  · rintro ⟨b, hb, h⟩
    obtain ⟨c, hc, hb⟩ := List.mem_flatMap.1 hb
    exact ⟨c, hc, (hp.of_mem_charBytes hb).symm.trans h⟩
  · rintro ⟨c, hc, h⟩
    obtain ⟨b, bs, hcons⟩ := exists_charBytes c
    have hb : b ∈ charBytes c := hcons ▸ List.mem_cons_self
    exact ⟨b, List.mem_flatMap.2 ⟨c, hc, hb⟩, (hp.of_mem_charBytes hb).trans h⟩

end Uniform

/-- A byte of a character is an ASCII character only if the character is that one. -/
theorem eq_iff_of_mem_charBytes {b c x : Char} (hb : b ∈ charBytes c) (hx : IsAscii x) :
    b = x ↔ c = x := by
  rw [← decide_eq_decide]
  exact (Uniform.eq hx).of_mem_charBytes hb

end Text

/-! ## Recognisers -/

namespace Token

open Text

theorem uniform_isBlank : Uniform isBlank :=
  uniform_of_isAscii fun c h => by
    simp only [isBlank, Bool.or_eq_true, decide_eq_true_eq] at h
    rcases h with (((rfl | rfl) | rfl) | rfl) | rfl
    all_goals decide

theorem isAscii_of_isDigit {c : Char} (h : c.isDigit = true) : IsAscii c := by
  simp only [Char.isDigit, Bool.and_eq_true, decide_eq_true_eq] at h
  exact Nat.lt_of_le_of_lt (UInt32.le_iff_toNat_le.1 h.2) (by decide)

theorem uniform_isDigit : Uniform Char.isDigit := uniform_of_isAscii fun _ => isAscii_of_isDigit

theorem isAscii_of_isAlpha {c : Char} (h : c.isAlpha = true) : IsAscii c := by
  rcases Bool.or_eq_true_iff.1 h with hupper | hlower
  · have hle := (of_decide_eq_true hupper).2
    exact Nat.lt_of_le_of_lt (UInt32.le_iff_toNat_le.1 hle) (by decide)
  · have hle := of_decide_eq_true (Bool.and_eq_true_iff.1 hlower).2
    exact Nat.lt_of_le_of_lt (UInt32.le_iff_toNat_le.1 hle) (by decide)

theorem uniform_isWordStart : Uniform isWordStart :=
  (uniform_of_isAscii fun _ => isAscii_of_isAlpha).or (.eq (by decide))

theorem uniform_isWordChar : Uniform isWordChar :=
  ((uniform_of_isAscii fun _ => isAscii_of_isAlpha).or uniform_isDigit).or (.eq (by decide))

theorem isAscii_of_isQuote {c : Char} (h : isQuote c = true) : IsAscii c := by
  simp only [isQuote, Bool.or_eq_true, decide_eq_true_eq] at h
  rcases h with rfl | rfl
  all_goals decide

theorem uniform_isQuote : Uniform isQuote := uniform_of_isAscii fun _ => isAscii_of_isQuote

theorem isPrefixOf_bytes {unit : List Char} (h : ∀ c ∈ unit, IsAscii c) (cs : List Char) :
    unit.isPrefixOf (bytes cs) = unit.isPrefixOf cs := by
  induction unit generalizing cs with
  | nil => rfl
  | cons u us ih =>
    rw [List.forall_mem_cons] at h
    cases cs with
    | nil => rfl
    | cons c cs =>
      by_cases hc : IsAscii c
      · rw [bytes_cons_of_isAscii hc, List.isPrefixOf, List.isPrefixOf, ih h.2]
      · obtain ⟨b, bs, hcons⟩ := exists_charBytes c
        have hb : u ≠ b := fun hub =>
          not_isAscii_of_mem_charBytes hc (hcons ▸ List.mem_cons_self) (hub ▸ h.1)
        have hu : u ≠ c := fun huc => hc (huc ▸ h.1)
        rw [bytes_cons, hcons, List.cons_append, List.isPrefixOf, List.isPrefixOf,
          beq_false_of_ne hb, beq_false_of_ne hu]
        rfl

theorem startsWithUnit_bytes {unit : List Char} (h : ∀ c ∈ unit, IsAscii c) (cs : List Char) :
    startsWithUnit unit (bytes cs) = startsWithUnit unit cs := by
  rw [startsWithUnit, startsWithUnit, isPrefixOf_bytes h]
  cases hprefix : unit.isPrefixOf cs with
  | false => rfl
  | true =>
    obtain ⟨rest, rfl⟩ := List.isPrefixOf_iff_prefix.1 hprefix
    rw [bytes_append, bytes_of_isAscii h, List.drop_left, List.drop_left,
      uniform_isWordChar.any_head?_bytes]

theorem opensInterpolation_bytes {mark : Char} (hmark : IsAscii mark) (cs : List Char) :
    opensInterpolation mark (bytes cs) = opensInterpolation mark cs := by
  have hinside : Uniform fun c => decide (c ≠ '}') && decide (c ≠ mark) :=
    (Uniform.ne (by decide)).and (.ne hmark)
  have hplain : Uniform fun c => !(c.isDigit || decide (c = ',') || decide (c = ' ')) :=
    ((uniform_isDigit.or (.eq (by decide))).or (.eq (by decide))).not
  rw [opensInterpolation, hinside.takeWhile_bytes, hplain.any_bytes]
  rfl

/-! ### Interpolations -/

/-- The bytes of a text in reverse. -/
private def bytesBack (cs : List Char) : List Char := (bytes cs.reverse).reverse

private theorem bytesBack_cons (c : Char) (cs : List Char) :
    bytesBack (c :: cs) = (charBytes c).reverse ++ bytesBack cs := by
  simp [bytesBack]

private theorem bytesBack_cons_of_isAscii {c : Char} (h : IsAscii c) (cs : List Char) :
    bytesBack (c :: cs) = c :: bytesBack cs := by
  rw [bytesBack_cons, charBytes_of_isAscii h]
  rfl

/-- The character does not matter to the division of an interpolation. -/
private def IsInner (mark c : Char) : Prop := c ≠ '{' ∧ c ≠ '}' ∧ c ≠ mark

private theorem interpolationFrom_inner_append {mark : Char} {depth : Nat} {inner bs cs : List Char}
    (h : ∀ b ∈ bs, IsInner mark b) : interpolationFrom mark depth inner (bs ++ cs) =
      interpolationFrom mark depth (bs.reverse ++ inner) cs := by
  induction bs generalizing inner with
  | nil => rfl
  | cons b bs ih =>
    rw [List.forall_mem_cons] at h
    obtain ⟨hopen, hclose, hmark⟩ := h.1
    rw [List.cons_append, interpolationFrom.eq_def]
    simp only [if_neg hopen, if_neg hclose, if_neg hmark]
    rw [ih h.2, List.reverse_cons, List.append_assoc, List.singleton_append]

private theorem IsInner.charBytes {mark b c : Char} (hmark : IsAscii mark) (h : IsInner mark c)
    (hb : b ∈ charBytes c) : IsInner mark b := by
  have hne {x : Char} (hx : IsAscii x) (hc : c ≠ x) : b ≠ x :=
    of_decide_eq_true (((Uniform.ne hx).of_mem_charBytes hb).trans (decide_eq_true hc))
  exact ⟨hne (by decide) h.1, hne (by decide) h.2.1, hne hmark h.2.2⟩

private theorem interpolationFrom_bytes {mark : Char} (hmark : IsAscii mark) (depth : Nat)
    (inner cs : List Char) : interpolationFrom mark depth (bytesBack inner) (bytes cs) =
      (interpolationFrom mark depth inner cs).map fun r => (bytes r.1, bytes r.2) := by
  fun_induction interpolationFrom mark depth inner cs with
  | case1 => rfl
  | case2 depth inner rest ih =>
    rw [bytesBack_cons_of_isAscii (by decide)] at ih
    rw [bytes_cons_of_isAscii (by decide), interpolationFrom.eq_def]
    exact ih
  | case3 inner rest =>
    rw [bytes_cons_of_isAscii (by decide), interpolationFrom.eq_def]
    simp [bytesBack]
  | case4 inner rest _ depth ih =>
    rw [bytesBack_cons_of_isAscii (by decide)] at ih
    rw [bytes_cons_of_isAscii (by decide), interpolationFrom.eq_def]
    exact ih
  | case5 depth inner rest hopen hclose =>
    rw [bytes_cons_of_isAscii hmark, interpolationFrom.eq_def]
    simp only [if_neg hopen, if_neg hclose, if_pos, Option.map_none]
  | case6 depth inner c rest hopen hclose hne ih =>
    have hinner : ∀ b ∈ charBytes c, IsInner mark b := fun b hb =>
      IsInner.charBytes hmark ⟨hopen, hclose, hne⟩ hb
    rw [bytes_cons, interpolationFrom_inner_append hinner, ← bytesBack_cons, ih]

/-- The bytes of a text are divided where the text is. -/
theorem interpolation?_bytes {mark : Char} (hmark : IsAscii mark) (cs : List Char) :
    interpolation? mark (bytes cs) =
      (interpolation? mark cs).map fun r => (bytes r.1, bytes r.2) :=
  interpolationFrom_bytes hmark 0 [] cs

end Token

end LimitSyntax
