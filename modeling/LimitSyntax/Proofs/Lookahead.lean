import LimitSyntax.Proofs.Lexemes
import Mathlib.Data.List.Find
import Mathlib.Data.List.TakeWhile

/-!
# How far recognisers look

A recogniser looks no further than the end of a line, comments and strings apart. So it reads the
same from a text whether or not another line follows (`Token.Front.of_append`). A comment or a
string that has its end in the text is read the same, too (`Token.stretchFrom_append`,
`Token.interpolation?_append`).
-/

namespace LimitSyntax.Token

/-- A text is not looked for behind a character that is not in it. -/
theorem isPrefixOf_append_of_head {text e : List Char} (he : ∀ c ∈ e.head?, c ∉ text)
    (cs : List Char) : text.isPrefixOf (cs ++ e) = text.isPrefixOf cs := by
  induction text generalizing cs with
  | nil => simp
  | cons t ts ih =>
    cases cs with
    | nil =>
      cases e with
      | nil => rfl
      | cons d ds =>
        have hne : t ≠ d := fun h => he d rfl (h ▸ List.mem_cons_self)
        simp [List.isPrefixOf, hne]
    | cons c cs =>
      have htail : ∀ c ∈ e.head?, c ∉ ts := fun c hc hmem => he c hc (List.mem_cons_of_mem _ hmem)
      simp only [List.cons_append, List.isPrefixOf, ih htail]

/-- Nothing, or a text that starts with a line feed. -/
def AtLineEnd (e : List Char) : Prop := e = [] ∨ ∃ rest, e = '\n' :: rest

section
variable {e : List Char} (he : AtLineEnd e)
include he

theorem takeWhile_append_end {p : Char → Bool} (hp : p '\n' = false) (cs : List Char) :
    (cs ++ e).takeWhile p = cs.takeWhile p := by
  induction cs with
  | nil => obtain rfl | ⟨rest, rfl⟩ := he <;> simp [hp]
  | cons c cs ih => rw [List.cons_append, List.takeWhile_cons, List.takeWhile_cons, ih]

theorem dropWhile_append_end {p : Char → Bool} (hp : p '\n' = false) (cs : List Char) :
    (cs ++ e).dropWhile p = cs.dropWhile p ++ e := by
  induction cs with
  | nil => obtain rfl | ⟨rest, rfl⟩ := he <;> simp [hp]
  | cons c cs ih =>
    rw [List.cons_append, List.dropWhile_cons, List.dropWhile_cons, ih]
    split <;> rfl

theorem span_append_end {p : Char → Bool} (hp : p '\n' = false) (cs : List Char) :
    (cs ++ e).span p = ((cs.span p).1, (cs.span p).2 ++ e) := by
  simp only [List.span_eq_takeWhile_dropWhile, takeWhile_append_end he hp,
    dropWhile_append_end he hp]

theorem head?_append_end {c : Char} (hc : c ≠ '\n') (cs : List Char) :
    (cs ++ e).head? = some c ↔ cs.head? = some c := by
  cases cs with
  | nil => obtain rfl | ⟨rest, rfl⟩ := he <;> simp [hc.symm]
  | cons d ds => rfl

theorem isPrefixOf_append_end {text : List Char} (htext : '\n' ∉ text) (cs : List Char) :
    text.isPrefixOf (cs ++ e) = text.isPrefixOf cs := by
  refine isPrefixOf_append_of_head (fun c hc => ?_) cs
  obtain rfl | ⟨rest, rfl⟩ := he
  · cases hc
  · cases hc
    exact htext

/-! ## Numbers and words -/

theorem fraction_append_end (cs : List Char) :
    fraction (cs ++ e) = ((fraction cs).1, (fraction cs).2 ++ e) := by
  cases cs with
  | nil => obtain rfl | ⟨rest, rfl⟩ := he <;> rfl
  | cons c cs =>
    by_cases hc : c = '.'
    · subst hc
      simp only [fraction, List.cons_append, span_append_end he (p := (·.isDigit)) (by decide)]
      split <;> rfl
    · simp [fraction, hc]

theorem sign_append_end (cs : List Char) :
    sign (cs ++ e) = ((sign cs).1, (sign cs).2 ++ e) := by
  cases cs with
  | nil => obtain rfl | ⟨rest, rfl⟩ := he <;> rfl
  | cons c cs =>
    by_cases hplus : c = '+'
    · subst hplus
      rfl
    · by_cases hminus : c = '-'
      · subst hminus
        rfl
      · simp [sign, hplus, hminus]

theorem exponent_append_end (cs : List Char) :
    exponent (cs ++ e) = ((exponent cs).1, (exponent cs).2 ++ e) := by
  cases cs with
  | nil => obtain rfl | ⟨rest, rfl⟩ := he <;> simp [exponent]
  | cons c cs =>
    simp only [exponent, List.cons_append, sign_append_end he,
      span_append_end he (p := (·.isDigit)) (by decide)]
    split
    · split <;> rfl
    · rfl

theorem startsWithUnit_append_end {unit : List Char} (hunit : '\n' ∉ unit) (cs : List Char) :
    startsWithUnit unit (cs ++ e) = startsWithUnit unit cs := by
  simp only [startsWithUnit, isPrefixOf_append_end he hunit]
  cases hprefix : unit.isPrefixOf cs with
  | false => rfl
  | true =>
    have hle := (List.isPrefixOf_iff_prefix.1 hprefix).length_le
    rw [List.drop_append_of_le_length hle]
    cases cs.drop unit.length with
    | nil => obtain rfl | ⟨rest, rfl⟩ := he <;> rfl
    | cons d ds => rfl

theorem timeUnit_append_end (cs : List Char) :
    timeUnit (cs ++ e) = ((timeUnit cs).1, (timeUnit cs).2 ++ e) := by
  have hunits : ∀ unit ∈ timeUnits, '\n' ∉ unit := by decide
  have hfind : timeUnits.find? (startsWithUnit · (cs ++ e)) =
      timeUnits.find? (startsWithUnit · cs) :=
    List.find?_congr fun unit hunit => startsWithUnit_append_end he (hunits unit hunit) cs
  unfold timeUnit
  rw [hfind]
  cases hunit : timeUnits.find? (startsWithUnit · cs) with
  | none => rfl
  | some unit =>
    have hstarts := List.find?_some hunit
    simp only [startsWithUnit, Bool.and_eq_true, List.isPrefixOf_iff_prefix] at hstarts
    dsimp only
    rw [List.drop_append_of_le_length hstarts.1.length_le]

theorem number_append_end (cs : List Char) :
    number (cs ++ e) = ((number cs).1, (number cs).2.1, (number cs).2.2 ++ e) := by
  simp only [number, span_append_end he (p := (·.isDigit)) (by decide), fraction_append_end he,
    exponent_append_end he, timeUnit_append_end he]

theorem word_append_end (cs : List Char) :
    word (cs ++ e) = ((word cs).1, (word cs).2.1, (word cs).2.2 ++ e) := by
  simp only [word, span_append_end he (p := isWordChar) (by decide)]

theorem atWord_append_end (cs : List Char) :
    atWord (cs ++ e) = ((atWord cs).1, (atWord cs).2.1, (atWord cs).2.2 ++ e) := by
  simp only [atWord, span_append_end he (p := isWordChar) (by decide)]
  split <;> rfl

theorem punctuation?_append_end (cs : List Char) :
    punctuation? (cs ++ e) = (punctuation? cs).map fun r => (r.1, r.2.1, r.2.2 ++ e) := by
  have hspellings : ∀ p ∈ punctuation, '\n' ∉ p.1 := by decide
  have hfind : (punctuation.find? fun p => p.1.isPrefixOf (cs ++ e)) =
      punctuation.find? fun p => p.1.isPrefixOf cs :=
    List.find?_congr fun p hp => isPrefixOf_append_end he (hspellings p hp) cs
  unfold punctuation?
  rw [hfind]
  cases hp : punctuation.find? fun p => p.1.isPrefixOf cs with
  | none => rfl
  | some p =>
    have hprefix := List.find?_some hp
    simp only [List.isPrefixOf_iff_prefix] at hprefix
    simp [List.drop_append_of_le_length hprefix.length_le]

end

/-! ## Comments -/

/-- A comment that has its end. -/
theorem blockComment_append_of_closed {taken cs : List Char} (h : (blockComment taken cs).1 = true)
    (e : List Char) : blockComment taken (cs ++ e) =
      (true, (blockComment taken cs).2.1, (blockComment taken cs).2.2 ++ e) := by
  fun_induction blockComment taken cs with
  | case1 taken rest => rfl
  | case2 taken c rest hopen ih =>
    have hnext : blockComment taken (c :: rest ++ e) = blockComment (c :: taken) (rest ++ e) := by
      rw [List.cons_append, blockComment]
      rintro more rfl hmore
      cases rest with
      | nil => cases h
      | cons d ds => exact hopen ds rfl (by simpa using (List.cons.inj hmore).1 ▸ rfl)
    rw [hnext, ih h]
  | case3 taken => cases h

/-! ## The front of a text -/

namespace Front

/-- The same front of a text that goes on with `e`. -/
def extend (e : List Char) : Front → Front
  | .trivia kind closed taken rest => .trivia kind closed taken (rest ++ e)
  | .token kind taken rest => .token kind taken (rest ++ e)
  | .quote mark rest => .quote mark (rest ++ e)
  | .stray c rest => .stray c (rest ++ e)

theorem extend_nil (front : Front) : front.extend [] = front := by
  cases front <;> simp [extend]

/-- Nothing lacks its end, as far as the front tells. -/
def IsClosed : Front → Prop
  | .trivia _ closed _ _ => closed = true
  | _ => True

/-- A front is the same whether or not another line follows. -/
theorem of_append {e : List Char} (he : AtLineEnd e) {c : Char} {cs : List Char}
    (h : (Front.of c cs).IsClosed) : Front.of c (cs ++ e) = (Front.of c cs).extend e := by
  rw [Front.of, Front.of.eq_def c cs]
  simp only [← List.cons_append, head?_append_end he (c := '/') (by decide),
    head?_append_end he (c := '*') (by decide), apply_ite (extend e)]
  refine ite_congr rfl (fun _ => ?_) fun hblank => ?_
  · rw [span_append_end he (by decide)]
    rfl
  refine ite_congr rfl (fun _ => rfl) fun hfeed => ?_
  refine ite_congr rfl (fun _ => ?_) fun hline => ?_
  · rw [span_append_end he (by decide)]
    rfl
  refine ite_congr rfl (fun hblock => ?_) fun _ => ?_
  · rw [Front.of, if_neg hblank, if_neg hfeed, if_neg hline, if_pos hblock] at h
    obtain ⟨ds, rfl⟩ := List.head?_eq_some_iff.1 hblock.2
    have hclosed : (blockComment ['*', '/'] ds).1 = true := h
    simp only [List.cons_append, List.tail_cons, blockComment_append_of_closed hclosed, hclosed]
    rfl
  refine ite_congr rfl (fun _ => rfl) fun _ => ?_
  refine ite_congr rfl (fun _ => ?_) fun _ => ?_
  · rw [number_append_end he]
    rfl
  refine ite_congr rfl (fun _ => ?_) fun _ => ?_
  · rw [word_append_end he]
    rfl
  refine ite_congr rfl (fun _ => ?_) fun _ => ?_
  · rw [atWord_append_end he]
    rfl
  · rw [punctuation?_append_end he]
    cases punctuation? (c :: cs) with
    | none => rfl
    | some r => rfl

end Front

/-! ## String text -/

theorem opensInterpolation_append {mark : Char} {cs : List Char}
    (h : opensInterpolation mark cs = true) (e : List Char) :
    opensInterpolation mark (cs ++ e) = true := by
  obtain ⟨c, hc, hopens⟩ := List.any_eq_true.1 h
  refine List.any_eq_true.2 ⟨c, ?_, hopens⟩
  rw [List.takeWhile_append]
  split
  · exact List.mem_append_left _ ((List.takeWhile_sublist _).subset hc)
  · exact hc

/-- A character that is no backslash. -/
theorem stretchFrom_cons {c : Char} (hc : c ≠ '\x5c') (mark : Char)
    (taken value rest : List Char) :
    stretchFrom mark taken value (c :: rest) =
      if c = mark then ⟨.closed, (c :: taken).reverse, value.reverse, rest⟩
      else if c = '\x7b' && opensInterpolation mark rest then
        ⟨.opened, (c :: taken).reverse, value.reverse, rest⟩
      else stretchFrom mark (c :: taken) (c :: value) rest := by
  rw [stretchFrom] <;> simp [hc]

/-- Text of digits, commas and spaces ends no string. -/
theorem stretchFrom_ending_of_bare {mark : Char} {cs : List Char}
    (h : ∀ c ∈ cs, c ≠ mark ∧ (c.isDigit || c = ',' || c = ' ') = true) (taken value : List Char) :
    (stretchFrom mark taken value cs).ending = .missing := by
  induction cs generalizing taken value with
  | nil => rfl
  | cons c cs ih =>
    obtain ⟨hc, hbare⟩ := h c List.mem_cons_self
    have hslash : c ≠ '\x5c' := by rintro rfl; cases hbare
    have hbrace : c ≠ '\x7b' := by rintro rfl; cases hbare
    rw [stretchFrom_cons hslash, if_neg hc, if_neg (by simp [hbrace])]
    exact ih (fun d hd => h d (List.mem_cons_of_mem _ hd)) ..

/-- Whether a brace opens an interpolation is seen before the end of the string. -/
theorem opensInterpolation_append_of_ending {mark : Char} {taken value cs : List Char}
    (h : (stretchFrom mark taken value cs).ending ≠ .missing) (e : List Char) :
    opensInterpolation mark (cs ++ e) = opensInterpolation mark cs := by
  cases hopens : opensInterpolation mark cs with
  | true => exact opensInterpolation_append hopens e
  | false =>
    have hbare : ∀ c ∈ cs.takeWhile fun c => c ≠ '\x7d' && c ≠ mark,
        (c.isDigit || c = ',' || c = ' ') = true := by
      intro c hc
      simpa only [Bool.not_eq_true', Bool.not_eq_false] using List.any_eq_false.1 hopens c hc
    rw [← hopens, opensInterpolation, opensInterpolation, List.takeWhile_append, if_neg]
    -- otherwise the text has only such characters, and no end
    intro hlength
    have hall := (List.takeWhile_prefix _).eq_of_length hlength
    refine h (stretchFrom_ending_of_bare (fun c hc => ?_) taken value)
    rw [← hall] at hc
    have hstop := List.mem_takeWhile_imp hc
    simp only [Bool.and_eq_true, decide_eq_true_eq] at hstop
    exact ⟨hstop.2, hbare c hc⟩

theorem ne_backslash {c : Char} {rest : List Char} (hnil : c = '\x5c' → rest = [] → False)
    (hcons : ∀ d ds, c = '\x5c' → rest = d :: ds → False) : c ≠ '\x5c' := by
  intro hc
  cases rest with
  | nil => exact hnil hc rfl
  | cons d ds => exact hcons d ds hc rfl

/-- A stretch of a text that goes on with `e`. -/
def Stretch.extend (e : List Char) (piece : Stretch) : Stretch :=
  { piece with rest := piece.rest ++ e }

/-- A stretch that has its end. -/
theorem stretchFrom_append {mark : Char} {taken value cs : List Char}
    (h : (stretchFrom mark taken value cs).ending ≠ .missing) (e : List Char) :
    stretchFrom mark taken value (cs ++ e) = (stretchFrom mark taken value cs).extend e := by
  fun_induction stretchFrom mark taken value cs with
  | case1 taken value => exact absurd rfl h
  | case2 taken value => exact absurd rfl h
  | case3 taken value c rest ih =>
    rw [List.cons_append, List.cons_append, stretchFrom, ih h]
  | case4 taken value rest hslash hslash' =>
    have hne := ne_backslash hslash hslash'
    rw [List.cons_append, stretchFrom_cons hne, if_pos rfl]
    rfl
  | case5 taken value c rest hslash hslash' hmark hopens =>
    obtain ⟨hbrace, hopens⟩ := Bool.and_eq_true_iff.1 hopens
    have hne := ne_backslash hslash hslash'
    rw [List.cons_append, stretchFrom_cons hne, if_neg hmark, hbrace,
      opensInterpolation_append hopens]
    rfl
  | case6 taken value c rest hslash hslash' hmark hopens ih =>
    have hne := ne_backslash hslash hslash'
    rw [List.cons_append, stretchFrom_cons hne, if_neg hmark,
      opensInterpolation_append_of_ending h, if_neg hopens, ih h]

theorem interpolationFrom_append {mark : Char} {depth : Nat} {inner cs text rest : List Char}
    (h : interpolationFrom mark depth inner cs = some (text, rest)) (e : List Char) :
    interpolationFrom mark depth inner (cs ++ e) = some (text, rest ++ e) := by
  fun_induction interpolationFrom mark depth inner cs with
  | case1 => cases h
  | case2 depth inner cs ih => exact ih h
  | case3 inner cs hopen =>
    cases h
    rfl
  | case4 inner cs depth hopen ih => exact ih h
  | case5 => cases h
  | case6 depth inner c cs hopen hclose hmark ih =>
    rw [List.cons_append, interpolationFrom.eq_def]
    dsimp only
    rw [if_neg hopen, if_neg hclose, if_neg hmark, ih h]

/-- An interpolation that has its end. -/
theorem interpolation?_append {mark : Char} {cs inner rest : List Char}
    (h : interpolation? mark cs = some (inner, rest)) (e : List Char) :
    interpolation? mark (cs ++ e) = some (inner, rest ++ e) :=
  interpolationFrom_append h e

end LimitSyntax.Token
