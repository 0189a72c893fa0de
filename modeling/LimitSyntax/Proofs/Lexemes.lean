import LimitSyntax.Token.Stretch
import Mathlib.Data.List.TakeDrop

/-!
# Recognisers divide their text

What a recogniser takes and what it leaves, in a row, is the text it was given. For the front of a
text this is `Token.Front.of_divides`, for string text `Token.stretchFrom_divides` and
`Token.interpolation?_divides`.
-/

namespace LimitSyntax.Token

/-- Kinds of tokens that are read from a text of their own: no part of a string, and none of the
kinds that stand for an error or for the end. -/
def Kind.isPlain : Kind → Bool
  | .string | .interpolationStart | .interpolationEnd | .error | .missing | .eof => false
  | _ => true

/-! ## Comments and numbers -/

theorem blockComment_append (taken cs : List Char) :
    (blockComment taken cs).2.1 ++ (blockComment taken cs).2.2 = taken.reverse ++ cs := by
  fun_induction blockComment taken cs with
  | case1 taken rest => simp
  | case2 taken c rest _ ih => simp [ih]
  | case3 taken => simp

theorem blockComment_ne_nil {taken : List Char} (h : taken ≠ []) {cs : List Char} :
    (blockComment taken cs).2.1 ≠ [] := by
  fun_induction blockComment taken cs with
  | case1 taken rest => simp
  | case2 taken c rest _ ih => exact ih (by simp)
  | case3 taken => simpa using h

theorem fraction_append (cs : List Char) : (fraction cs).1 ++ (fraction cs).2 = cs := by
  unfold fraction
  split
  · simp only [List.span_eq_takeWhile_dropWhile]
    split <;> simp
  · rfl

theorem sign_append (cs : List Char) : (sign cs).1 ++ (sign cs).2 = cs := by
  unfold sign
  split <;> rfl

theorem exponent_append (cs : List Char) : (exponent cs).1 ++ (exponent cs).2 = cs := by
  unfold exponent
  split
  · rename_i c cs
    simp only [List.span_eq_takeWhile_dropWhile]
    split
    · split
      · rfl
      · simp [sign_append]
    · rfl
  · rfl

theorem timeUnit_append (cs : List Char) : (timeUnit cs).1 ++ (timeUnit cs).2 = cs := by
  unfold timeUnit
  split
  · rename_i unit h
    have hunit := List.find?_some h
    simp only [startsWithUnit, Bool.and_eq_true, List.isPrefixOf_iff_prefix] at hunit
    exact List.prefix_iff_eq_append.1 hunit.1
  · rfl

theorem number_append (cs : List Char) : (number cs).2.1 ++ (number cs).2.2 = cs := by
  simp only [number, List.span_eq_takeWhile_dropWhile, List.append_assoc, timeUnit_append,
    exponent_append, fraction_append, List.takeWhile_append_dropWhile]

theorem number_isPlain (cs : List Char) : (number cs).1.isPlain = true := by
  simp only [number]
  split
  · rfl
  · split <;> rfl

/-! ## Words and punctuation -/

theorem keywords_isPlain : ∀ kind ∈ Kind.keywords, kind.isPlain = true := by decide

theorem annotations_isPlain : ∀ kind ∈ Kind.annotations, kind.isPlain = true := by decide

theorem punctuation_isPlain : ∀ p ∈ punctuation, p.2.isPlain = true ∧ p.1 ≠ [] := by decide

theorem wordKind_isPlain (word : List Char) : (wordKind word).isPlain = true := by
  unfold wordKind
  split
  · rfl
  · cases h : Kind.ofWord? (String.ofList word) with
    | none => rfl
    | some kind => exact keywords_isPlain kind (List.mem_of_find?_eq_some h)

theorem atWord_append (cs : List Char) : (atWord cs).2.1 ++ (atWord cs).2.2 = '@' :: cs := by
  simp only [atWord, List.span_eq_takeWhile_dropWhile]
  split <;> simp

theorem atWord_ne_nil (cs : List Char) : (atWord cs).2.1 ≠ [] := by
  simp only [atWord]
  split <;> simp

theorem atWord_isPlain (cs : List Char) : (atWord cs).1.isPlain = true := by
  simp only [atWord]
  split
  · rename_i kind h
    exact annotations_isPlain kind (List.mem_of_find?_eq_some h)
  · rfl

theorem punctuation?_divides {cs : List Char} {kind : Kind} {taken rest : List Char}
    (h : punctuation? cs = some (kind, taken, rest)) :
    taken ≠ [] ∧ taken ++ rest = cs ∧ kind.isPlain = true := by
  obtain ⟨⟨text, kind⟩, hfind, heq⟩ := Option.map_eq_some_iff.1 h
  cases heq
  have hprefix := List.find?_some hfind
  simp only [List.isPrefixOf_iff_prefix] at hprefix
  obtain ⟨hplain, hne⟩ := punctuation_isPlain _ (List.mem_of_find?_eq_some hfind)
  exact ⟨hne, List.prefix_iff_eq_append.1 hprefix, hplain⟩

/-! ## The front of a text -/

namespace Front

/-- The front takes at least one character off the text `cs` and leaves the others. Only a comment
may lack its end. -/
def Divides (cs : List Char) : Front → Prop
  | .trivia _ closed taken rest =>
    taken ≠ [] ∧ taken ++ rest = cs ∧ (closed = false → ['/', '*'] <+: cs)
  | .token kind taken rest => taken ≠ [] ∧ taken ++ rest = cs ∧ kind.isPlain = true
  | .quote mark rest => mark :: rest = cs
  | .stray c rest => c :: rest = cs

private theorem ofRun_divides {p : Char → Bool} {c : Char} (cs : List Char) (hc : p c = true)
    (kind : Trivia.Kind) : (ofRun kind ((c :: cs).span p)).Divides (c :: cs) := by
  rw [ofRun, List.span_eq_takeWhile_dropWhile]
  exact ⟨by simp [hc], List.takeWhile_append_dropWhile, nofun⟩

private theorem number_divides {c : Char} (cs : List Char) (hc : c.isDigit = true) :
    (ofToken (number (c :: cs))).Divides (c :: cs) := by
  refine ⟨?_, number_append _, number_isPlain _⟩
  simp [number, List.span_eq_takeWhile_dropWhile, hc]

private theorem word_divides {c : Char} (cs : List Char) (hc : isWordStart c = true) :
    (ofToken (word (c :: cs))).Divides (c :: cs) := by
  have hword : isWordChar c = true := by
    simp only [isWordStart, isWordChar, Char.isAlphanum, Bool.or_eq_true] at hc ⊢
    tauto
  refine ⟨?_, ?_, wordKind_isPlain _⟩
  · simp [word, List.span_eq_takeWhile_dropWhile, hword]
  · simp [word, List.span_eq_takeWhile_dropWhile]

theorem of_divides (c : Char) (cs : List Char) : (Front.of c cs).Divides (c :: cs) := by
  unfold Front.of
  split
  next h => exact ofRun_divides cs h _
  split
  next h => exact ⟨by simp, by simp [h], nofun⟩
  split
  next h => exact ofRun_divides cs (by simp [h.1]) _
  split
  next h =>
    obtain ⟨rfl, hstar⟩ := h
    obtain ⟨ds, rfl⟩ := List.head?_eq_some_iff.1 hstar
    exact ⟨blockComment_ne_nil (by simp), blockComment_append ['*', '/'] ds, fun _ => ⟨ds, rfl⟩⟩
  split
  next => rfl
  split
  next h => exact number_divides cs h
  split
  next h => exact word_divides cs h
  split
  next h => exact ⟨atWord_ne_nil cs, h ▸ atWord_append cs, atWord_isPlain cs⟩
  split
  next r h => exact punctuation?_divides h
  next => rfl

end Front

/-! ## String text -/

/-- The stretch takes some characters off the text `cs` and leaves the others. -/
structure Stretch.Divides (piece : Stretch) (cs : List Char) : Prop where
  split : piece.taken ++ piece.rest = cs
  /-- A stretch that has no end reaches to the end of the text. -/
  missing : piece.ending = .missing → piece.rest = []
  taken_ne_nil : piece.ending ≠ .missing → piece.taken ≠ []
  opened : piece.ending = .opened → piece.rest ≠ []

theorem opensInterpolation_ne_nil {mark : Char} {cs : List Char}
    (h : opensInterpolation mark cs = true) : cs ≠ [] := by
  rintro rfl
  cases h

theorem stretchFrom_divides (mark : Char) (taken value cs : List Char) :
    (stretchFrom mark taken value cs).Divides (taken.reverse ++ cs) := by
  fun_induction stretchFrom mark taken value cs with
  | case1 taken value => exact ⟨by simp, fun _ => rfl, nofun, nofun⟩
  | case2 taken value => exact ⟨by simp, fun _ => rfl, nofun, nofun⟩
  | case3 taken value c rest ih => simpa using ih
  | case4 taken value rest => exact ⟨by simp, nofun, by simp, nofun⟩
  | case5 taken value c rest _ _ _ h =>
    have hopens := (Bool.and_eq_true_iff.1 h).2
    exact ⟨by simp, nofun, by simp, fun _ => opensInterpolation_ne_nil hopens⟩
  | case6 taken value c rest _ _ _ _ ih => simpa using ih

theorem stretchFrom_taken_ne_nil {mark : Char} {taken value cs : List Char} (h : taken ≠ []) :
    (stretchFrom mark taken value cs).taken ≠ [] := by
  fun_induction stretchFrom mark taken value cs <;> simp_all

theorem interpolationFrom_divides {mark : Char} {depth : Nat} {inner cs : List Char}
    {text rest : List Char} (h : interpolationFrom mark depth inner cs = some (text, rest)) :
    text ++ '}' :: rest = inner.reverse ++ cs := by
  fun_induction interpolationFrom mark depth inner cs <;> simp_all

/-- The text inside an interpolation ends in front of a closing brace. -/
theorem interpolation?_divides {mark : Char} {cs inner rest : List Char}
    (h : interpolation? mark cs = some (inner, rest)) : inner ++ '}' :: rest = cs :=
  interpolationFrom_divides h

end LimitSyntax.Token
