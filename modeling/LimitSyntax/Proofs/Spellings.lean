import LimitSyntax.Proofs.Numerals
import LimitSyntax.Proofs.Origins
import LimitSyntax.Proofs.Sites
import LimitSyntax.Proofs.StringLiterals

/-!
# Spellings

Most kinds of tokens have one spelling only, and so the tokens of these kinds in a scan all have the
same text; the arrow has two. Names and numbers are written in a form of their own, and a word goes
on as far as it can (`Token.Kind.Fits`, `Scan.spellings_agree`).
-/

namespace LimitSyntax

namespace Token

/-! ## Fronts -/

/-- Names, keywords and annotations: the kinds that are read from a word. -/
def Kind.isWord (kind : Kind) : Bool :=
  kind == .identifier || kind == .underscore || keywords.contains kind || annotations.contains kind

/-- The other kinds: parts of strings, errors and the end. -/
theorem Kind.of_not_isPlain {kind : Kind} (h : kind.isPlain = false) :
    kind.spelling? = none ∧ kind ≠ .identifier ∧ kind.isNumber = false ∧ kind.isWord = false := by
  cases kind <;> first | decide | cases h

/-- What is known about a token of the kind that is read from `taken`, with `rest` behind it. -/
structure Kind.Fits (kind : Kind) (taken rest : List Char) : Prop where
  spelled : ∀ spelling, kind.spelling? = some spelling →
    String.ofList taken = spelling ∨ kind = .arrow ∧ String.ofList taken = "=>"
  named : kind = .identifier → IsName (String.ofList taken)
  counted : kind.isNumber = true → Numeral kind taken
  whole : kind.isWord = true → ∀ c ∈ rest.head?, isWordChar c = false

/-- A keyword or an annotation. -/
theorem Kind.Fits.of_find {kinds : List Kind} {kind : Kind} {taken rest : List Char}
    (h : kinds.find? (·.spelling? == some (String.ofList taken)) = some kind)
    (hkinds : ∀ kind ∈ kinds, kind ≠ .identifier ∧ kind.isNumber = false)
    (hrest : ∀ c ∈ rest.head?, isWordChar c = false) : kind.Fits taken rest := by
  have hfound : kind.spelling? = some (String.ofList taken) := by
    simpa using List.find?_some h
  obtain ⟨hname, hnumber⟩ := hkinds kind (List.mem_of_find?_eq_some h)
  refine ⟨fun spelling hspelling => .inl ?_, fun h => absurd h hname, fun h => ?_, fun _ => hrest⟩
  · exact Option.some.inj (hfound.symm.trans hspelling)
  · rw [hnumber] at h
    cases h

theorem number_fits {c : Char} (hc : c.isDigit = true) (cs : List Char) :
    (number (c :: cs)).1.Fits (number (c :: cs)).2.1 (number (c :: cs)).2.2 := by
  have hkind : (number (c :: cs)).1.spelling? = none ∧ (number (c :: cs)).1 ≠ .identifier ∧
      (number (c :: cs)).1.isWord = false := by
    simp only [number]
    split
    · decide
    · split <;> decide
  obtain ⟨hspelling, hname, hword⟩ := hkind
  refine ⟨fun spelling h => ?_, fun h => absurd h hname, fun _ => numeral_number hc cs, fun h => ?_⟩
  · rw [hspelling] at h
    cases h
  · rw [hword] at h
    cases h

theorem isWordChar_of_isWordStart {c : Char} (hc : isWordStart c = true) : isWordChar c = true := by
  simp only [isWordStart, isWordChar, Char.isAlphanum, Bool.or_eq_true] at hc ⊢
  tauto

/-- A word ends in front of a character of another class. -/
theorem head?_dropWhile_isWordChar (cs : List Char) :
    ∀ c ∈ (cs.dropWhile isWordChar).head?, isWordChar c = false := by
  intro c hc
  have hstop := List.head?_dropWhile_not isWordChar cs
  rw [Option.mem_def.1 hc] at hstop
  exact hstop

theorem word_fits {c : Char} (hc : isWordStart c = true) (cs : List Char) :
    (word (c :: cs)).1.Fits (word (c :: cs)).2.1 (word (c :: cs)).2.2 := by
  have hrest := head?_dropWhile_isWordChar (c :: cs)
  have hkinds : ∀ kind ∈ Kind.keywords, kind ≠ .identifier ∧ kind.isNumber = false := by decide
  have hstart : (c :: cs).takeWhile isWordChar = c :: cs.takeWhile isWordChar :=
    List.takeWhile_cons_of_pos (isWordChar_of_isWordStart hc)
  simp only [word, List.span_eq_takeWhile_dropWhile, wordKind]
  split
  next hunderscore =>
    refine ⟨fun _ h => ?_, fun h => ?_, fun h => ?_, fun _ => hrest⟩
    · cases h
      exact .inl (congrArg String.ofList hunderscore)
    · cases h
    · cases h
  next hne =>
    cases hkeyword : Kind.ofWord? (String.ofList ((c :: cs).takeWhile isWordChar)) with
    | some kind => exact .of_find hkeyword hkinds hrest
    | none =>
      refine ⟨fun _ h => ?_, fun _ => ⟨?_, fun h => hne ?_, hkeyword⟩, fun h => ?_, fun _ => hrest⟩
      · cases h
      · refine ⟨c, cs.takeWhile isWordChar, ?_, hc, fun d hd => List.mem_takeWhile_imp hd⟩
        rw [String.toList_ofList, hstart]
      · rw [← String.toList_ofList (l := (c :: cs).takeWhile isWordChar), h]
        rfl
      · cases h

theorem atWord_fits (cs : List Char) :
    (atWord cs).1.Fits (atWord cs).2.1 (atWord cs).2.2 := by
  have hkinds : ∀ kind ∈ Kind.annotations, kind ≠ .identifier ∧ kind.isNumber = false := by decide
  simp only [atWord, List.span_eq_takeWhile_dropWhile]
  split
  next kind h =>
    rw [Kind.ofAnnotation?, show "@" = String.ofList ['@'] from rfl, ← String.ofList_append] at h
    exact .of_find h hkinds (head?_dropWhile_isWordChar cs)
  next =>
    refine ⟨fun _ h => ?_, fun h => ?_, fun h => ?_, fun h => ?_⟩ <;> cases h
    exact .inl rfl

theorem punctuation_fits (rest : List Char) : ∀ p ∈ punctuation, p.2.Fits p.1 rest := by
  have htable : ∀ p ∈ punctuation,
      (p.2.spelling? = some (String.ofList p.1) ∨ p.2 = .arrow ∧ String.ofList p.1 = "=>") ∧
        p.2 ≠ .identifier ∧ p.2.isNumber = false ∧ p.2.isWord = false := by decide
  intro p hp
  obtain ⟨hspelled, hname, hnumber, hword⟩ := htable p hp
  refine ⟨fun spelling h => ?_, fun h => absurd h hname, fun h => ?_, fun h => ?_⟩
  · exact hspelled.imp_left fun hown => Option.some.inj (hown.symm.trans h)
  · rw [hnumber] at h
    cases h
  · rw [hword] at h
    cases h

/-- If the front is a token, then its kind fits its text. -/
def Front.Fits : Front → Prop
  | .token kind taken rest => kind.Fits taken rest
  | .trivia .. | .quote .. | .stray .. => True

theorem Front.of_fits (c : Char) (cs : List Char) : (Front.of c cs).Fits := by
  unfold Front.of
  iterate 4
    split
    next => trivial
  split
  next => trivial
  split
  next hc => exact number_fits hc cs
  split
  next hc => exact word_fits hc cs
  split
  next => exact atWord_fits cs
  split
  next r h =>
    obtain ⟨p, hp, rfl⟩ := Option.map_eq_some_iff.1 h
    exact punctuation_fits _ p (List.mem_of_find?_eq_some hp)
  next => trivial

end Token

/-! ## Scans -/

namespace Scan

variable {src : Source} {mode : Mode} {errors : Diagnostic.Collector} {t : Token}

/-- A token of a plain kind has no value and fits its text, behind which the range goes on. -/
theorem plain_fits (ht : t ∈ (scan src mode errors).1.tokens) (hplain : t.kind.isPlain = true) :
    t.value = none ∧ ∃ rest, t.kind.Fits t.lexeme.toList rest ∧ src.Ranges t.span.stop rest := by
  have hplaced := placed_scan src mode errors t ht
  have hne : ∀ kind : Token.Kind, kind.isPlain = false → t.kind ≠ kind := by
    rintro kind hkind rfl
    rw [hplain] at hkind
    cases hkind
  rcases traced_scan ht with htraced | rfl
  case inr => cases hplain
  cases htraced with
  | @front c cs rest hfront hvalue hrange =>
    have hfits := Token.Front.of_fits c cs
    have hdivides := Token.Front.of_divides c cs
    rw [hfront] at hfits hdivides
    obtain ⟨before, after, hsplit, hoffset, hafter⟩ := hrange
    refine ⟨hvalue, rest, hfits, before ++ t.lexeme.toList, after, ?_, ?_, hafter⟩
    · rw [hsplit, ← hdivides.2.1]
      simp
    · rw [hplaced.stop, Text.byteLength_append, hoffset]
  | string _ _ hkind => exact absurd hkind (hne .string rfl)
  | before hkind => exact absurd hkind (hne .interpolationStart rfl)
  | behind _ _ hkind => exact absurd hkind (hne .string rfl)
  | other hkind =>
    rcases hkind with ⟨hkind, -⟩ | hkind
    · exact absurd hkind (hne .interpolationEnd rfl)
    · exact absurd hkind (hne .error rfl)

/-- Of the other tokens only those of strings have a value. -/
theorem value_of_not_isPlain (ht : t ∈ (scan src mode errors).1.tokens)
    (hplain : t.kind.isPlain = false) :
    t.value.isSome = true ↔ t.kind = .string ∨ t.kind = .interpolationStart := by
  rcases traced_scan ht with htraced | rfl
  case inr => simp [State.eof, Token.eof]
  cases htraced with
  | @front c cs rest hfront =>
    have hdivides := Token.Front.of_divides c cs
    rw [hfront] at hdivides
    exact absurd hdivides.2.2 (by simp [hplain])
  | string _ _ hkind hvalue => simp [hkind, hvalue]
  | before hkind hvalue => simp [hkind, hvalue]
  | behind _ _ hkind hvalue => simp [hkind, hvalue]
  | other hkind hvalue =>
    rcases hkind with hkind | hkind
    · simp [hkind, hvalue]
    · simp [hkind, hvalue]

/-- A token of a kind with a spelling is spelled so, and an arrow may also be spelled `=>`. -/
theorem spelled_scan (ht : t ∈ (scan src mode errors).1.tokens) {spelling : String}
    (hspelling : t.kind.spelling? = some spelling) :
    t.lexeme = spelling ∨ t.kind = .arrow ∧ t.lexeme = "=>" := by
  cases hplain : t.kind.isPlain with
  | true =>
    obtain ⟨-, rest, hfits, -⟩ := plain_fits ht hplain
    have hspelled := hfits.spelled spelling hspelling
    rwa [String.ofList_toList] at hspelled
  | false =>
    rw [(Token.Kind.of_not_isPlain hplain).1] at hspelling
    cases hspelling

/-- A token of a scan has the spelling of its kind, if the kind has just one. -/
theorem lexeme_eq_spelling (ht : t ∈ (scan src mode errors).1.tokens) {spelling : String}
    (hspelling : t.kind.spelling? = some spelling) (hne : t.kind ≠ .arrow) : t.lexeme = spelling :=
  (spelled_scan ht hspelling).resolve_right fun h => hne h.1

/-- Behind a word stands no character that belongs to words. -/
theorem whole_word {rest before after : List Char} {c : Char} {offset : Nat}
    (hwhole : ∀ c ∈ rest.head?, Token.isWordChar c = false) (hrange : src.Ranges offset rest)
    (hsplit : src.text.toList = before ++ c :: after) (hoffset : Text.byteLength before = offset) :
    Token.isWordChar c = false := by
  obtain ⟨before', after', hsplit', hoffset', hafter⟩ := hrange
  have hbefore : before = before' := by
    rw [← Text.upTo_append before (c :: after), ← hsplit, hsplit', List.append_assoc,
      hoffset, ← hoffset', Text.upTo_append]
  rw [hbefore, hsplit', List.append_assoc] at hsplit
  have hhead := congrArg List.head? (List.append_cancel_left hsplit)
  cases rest with
  | nil =>
    obtain rfl := hafter c hhead
    rfl
  | cons d ds =>
    obtain rfl : d = c := Option.some.inj hhead
    exact hwhole d rfl

/-- A token of a kind with a spelling is spelled so, but for the arrow, which may be spelled `=>`. A
name is a word and no keyword, and a number is written as its kind is. Only strings have a value. A
word goes on as far as it can. -/
theorem spellings_agree (src : Source) (mode : Mode) (errors : Diagnostic.Collector) (t : Token)
    (ht : t ∈ (scan src mode errors).1.tokens) :
    (∀ spelling, t.kind.spelling? = some spelling →
      t.lexeme = spelling ∨ t.kind = .arrow ∧ t.lexeme = "=>") ∧
    (t.kind = .identifier → Token.IsName t.lexeme) ∧
    (t.kind.isNumber = true → Token.Numeral t.kind t.lexeme.toList) ∧
    (t.value.isSome = true ↔ t.kind = .string ∨ t.kind = .interpolationStart) ∧
    (t.kind.isWord = true → ∀ before c after, src.text.toList = before ++ c :: after →
      Text.byteLength before = t.span.stop → Token.isWordChar c = false) := by
  refine ⟨fun spelling hspelling => spelled_scan ht hspelling, ?_⟩
  cases hplain : t.kind.isPlain with
  | true =>
    obtain ⟨hvalue, rest, hfits, hrange⟩ := plain_fits ht hplain
    have hstring : ¬ (t.kind = .string ∨ t.kind = .interpolationStart) := by
      rintro (hkind | hkind)
      all_goals
        rw [hkind] at hplain
        cases hplain
    have hnamed := hfits.named
    rw [String.ofList_toList] at hnamed
    refine ⟨hnamed, hfits.counted, ?_, fun hword before c after hsplit hoffset => ?_⟩
    · simp [hvalue, hstring]
    · exact whole_word (hfits.whole hword) hrange hsplit hoffset
  | false =>
    obtain ⟨-, hname, hnumber, hword⟩ := Token.Kind.of_not_isPlain hplain
    refine ⟨fun h => absurd h hname, fun h => ?_, value_of_not_isPlain ht hplain, fun h => ?_⟩
    · rw [hnumber] at h
      cases h
    · rw [hword] at h
      cases h

/-- The name in an interpolation, behind which stands the closing brace. -/
theorem spellings_agree_name : ∃ t ∈ (scan ⟨"\x22\x7bx\x7d\x22", "a"⟩ .lossless {}).1.tokens,
    t.kind = .identifier ∧ Token.IsName t.lexeme := by
  let t : Token := { kind := .identifier, lexeme := "x", span := ⟨2, 3⟩, line := 1 }
  have ht : t ∈ (scan ⟨"\x22\x7bx\x7d\x22", "a"⟩ .lossless {}).1.tokens := by decide +kernel
  exact ⟨t, ht, rfl, (spellings_agree _ _ _ t ht).2.1 rfl⟩

end Scan

end LimitSyntax
