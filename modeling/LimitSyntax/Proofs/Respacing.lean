import LimitSyntax.Proofs.Numerals
import LimitSyntax.Proofs.Origins
import LimitSyntax.Proofs.StringLiterals

/-!
# Tokens with spaces between them

A token that is no part of a string with interpolations is read from its text alone
(`Token.Alone`): what stood behind it in the source does not matter. So the texts of such tokens
with spaces between them are scanned as the same tokens again (`Scan.scan_respaced`).
-/

namespace LimitSyntax

namespace Token

/-! ## Fronts that are read alone -/

/-- What a text starts with that is neither trivia nor a string. -/
def Front.solid (c : Char) (cs : List Char) : Front :=
  if c.isDigit then .ofToken (number (c :: cs))
  else if isWordStart c then .ofToken (word (c :: cs))
  else if c = '@' then .ofToken (atWord cs)
  else match punctuation? (c :: cs) with
    | some r => .ofToken r
    | none => .stray c cs

theorem Front.ofToken_eq {r : Kind × List Char × List Char} {kind : Kind} {taken rest : List Char}
    (h : Front.ofToken r = .token kind taken rest) : r = (kind, taken, rest) := by
  obtain ⟨rfl, rfl, rfl⟩ := Front.token.inj h
  rfl

/-- The text `c :: cs` starts with neither trivia nor a string. -/
structure IsSolid (c : Char) (cs : List Char) : Prop where
  blank : isBlank c = false
  feed : c ≠ '\n'
  quote : isQuote c = false
  comment : c = '/' → cs.head? ≠ some '/' ∧ cs.head? ≠ some '*'

theorem IsSolid.of_eq {c : Char} {cs : List Char} (h : IsSolid c cs) :
    Front.of c cs = Front.solid c cs := by
  have hline : ¬ (c = '/' ∧ cs.head? = some '/') := fun hc => (h.comment hc.1).1 hc.2
  have hblock : ¬ (c = '/' ∧ cs.head? = some '*') := fun hc => (h.comment hc.1).2 hc.2
  rw [Front.of, if_neg (by simp [h.blank]), if_neg h.feed, if_neg hline, if_neg hblock,
    if_neg (by simp [h.quote])]
  rfl

theorem isSolid_of_eq_token {c : Char} {cs taken rest : List Char} {kind : Kind}
    (h : Front.of c cs = .token kind taken rest) : IsSolid c cs := by
  unfold Front.of at h
  split at h
  next => cases h
  next hblank =>
  split at h
  next => cases h
  next hfeed =>
  split at h
  next => cases h
  next hline =>
  split at h
  next => cases h
  next hblock =>
  split at h
  next => cases h
  next hquote =>
    refine ⟨Bool.eq_false_iff.2 hblank, hfeed, Bool.eq_false_iff.2 hquote, fun hc => ⟨?_, ?_⟩⟩
    · exact fun hhead => hline ⟨hc, hhead⟩
    · exact fun hhead => hblock ⟨hc, hhead⟩

section
variable {e : List Char} (he : ∀ d ∈ e.head?, d = ' ')
include he

/-- A word ends in front of a space. -/
theorem span_isWordChar {cs : List Char} (hcs : ∀ d ∈ cs, isWordChar d = true) :
    (cs ++ e).span isWordChar = (cs, e) := by
  refine span_append_of_head hcs fun d hd => ?_
  obtain rfl := he d hd
  rfl

variable {c : Char} {cs own rest : List Char} {kind : Kind}

theorem number_alone (hdigit : c.isDigit = true) (h : number (c :: cs) = (kind, c :: own, rest)) :
    number (c :: (own ++ e)) = (kind, c :: own, e) := by
  have hnumeral := numeral_number hdigit cs
  rw [h] at hnumeral
  exact hnumeral.number_append he

theorem word_alone (h : word (c :: cs) = (kind, c :: own, rest)) :
    word (c :: (own ++ e)) = (kind, c :: own, e) := by
  simp only [word, List.span_eq_takeWhile_dropWhile, Prod.mk.injEq] at h
  obtain ⟨hkind, htaken, -⟩ := h
  have hword : ∀ d ∈ c :: own, isWordChar d = true := by
    rw [← htaken]
    exact fun d hd => List.mem_takeWhile_imp hd
  have hspan := span_isWordChar he hword
  rw [List.cons_append] at hspan
  rw [htaken] at hkind
  simp only [word, hspan, hkind]

/-- An at sign takes the word behind it if that is an annotation, and else no more than itself. -/
theorem atWord_alone (h : atWord cs = (kind, '@' :: own, rest)) :
    atWord (own ++ e) = (kind, '@' :: own, e) := by
  simp only [atWord, List.span_eq_takeWhile_dropWhile] at h
  split at h
  next kind' hannotation =>
    simp only [Prod.mk.injEq, List.cons.injEq, true_and] at h
    obtain ⟨rfl, rfl, -⟩ := h
    simp only [atWord, span_isWordChar he fun d hd => List.mem_takeWhile_imp hd, hannotation]
  next =>
    simp only [Prod.mk.injEq, List.cons.injEq, true_and] at h
    obtain ⟨rfl, rfl, -⟩ := h
    have hspan : ([] ++ e).span isWordChar = ([], e) := span_isWordChar he fun d hd => absurd hd List.not_mem_nil
    rw [List.nil_append] at hspan ⊢
    have hnone : Kind.ofAnnotation? (String.ofList []) = none := by decide
    simp only [atWord, hspan, hnone]

theorem punctuation?_alone (h : punctuation? cs = some (kind, own, rest)) :
    punctuation? (own ++ e) = some (kind, own, e) := by
  obtain ⟨p, hp, hr⟩ := Option.map_eq_some_iff.1 h
  obtain ⟨rfl, rfl, -⟩ : p.2 = kind ∧ p.1 = own ∧ _ := by simpa using hr
  have hspellings : ∀ q ∈ punctuation, ' ' ∉ q.1 := by decide
  have hown : ∀ p ∈ punctuation, (punctuation.find? fun q => q.1.isPrefixOf p.1) = some p := by
    decide
  have hfind : (punctuation.find? fun q => q.1.isPrefixOf (p.1 ++ e)) = some p := by
    rw [← hown p (List.mem_of_find?_eq_some hp)]
    refine List.find?_congr fun q hq => isPrefixOf_append_of_head (fun d hd => ?_) p.1
    exact he d hd ▸ hspellings q hq
  simp [punctuation?, hfind]

end

section
variable {c : Char} {cs own rest : List Char} {kind : Kind}

/-- A token is read alone: what stands behind its text does not matter. -/
theorem Front.solid_alone (h : Front.solid c cs = .token kind (c :: own) rest) {e : List Char}
    (he : ∀ d ∈ e.head?, d = ' ') : Front.solid c (own ++ e) = .token kind (c :: own) e := by
  unfold Front.solid at h ⊢
  split at h
  next hdigit =>
    rw [if_pos hdigit, number_alone he hdigit (Front.ofToken_eq h)]
    rfl
  next hdigit =>
  rw [if_neg hdigit]
  split at h
  next hstart =>
    rw [if_pos hstart, word_alone he (Front.ofToken_eq h)]
    rfl
  next hstart =>
  rw [if_neg hstart]
  split at h
  next hat =>
    subst hat
    rw [if_pos rfl, atWord_alone he (Front.ofToken_eq h)]
    rfl
  next hat =>
  rw [if_neg hat]
  split at h
  next r hr =>
    rw [Front.ofToken_eq h] at hr
    have hread := punctuation?_alone he hr
    rw [List.cons_append] at hread
    rw [hread]
    rfl
  next => cases h

/-- A slash is a token on its own or with an equals sign. -/
theorem Front.solid_slash (h : Front.solid '/' cs = .token kind ('/' :: own) rest) :
    own = [] ∨ own = ['='] := by
  have hsolid : Front.solid '/' cs = match punctuation? ('/' :: cs) with
    | some r => .ofToken r
    | none => .stray '/' cs := rfl
  rw [hsolid] at h
  split at h
  next r hr =>
    rw [Front.ofToken_eq h] at hr
    obtain ⟨p, hp, hp'⟩ := Option.map_eq_some_iff.1 hr
    obtain ⟨-, htext, -⟩ : _ ∧ p.1 = '/' :: own ∧ _ := by simpa using hp'
    have hslash : ∀ p ∈ punctuation, p.1.head? = some '/' → p.1.tail = [] ∨ p.1.tail = ['='] := by
      decide
    simpa [htext] using hslash p (List.mem_of_find?_eq_some hp)
  next => cases h

end

theorem Front.of_alone {c : Char} {cs taken rest : List Char} {kind : Kind}
    (h : Front.of c cs = .token kind taken rest) : ∃ own, taken = c :: own ∧ isBlank c = false ∧
      ∀ e, (∀ d ∈ e.head?, d = ' ') → Front.of c (own ++ e) = .token kind taken e := by
  have hsolid := isSolid_of_eq_token h
  have hdivides := Front.of_divides c cs
  rw [h] at hdivides
  obtain ⟨hne, htaken, -⟩ := hdivides
  obtain ⟨d, own, rfl⟩ := List.exists_cons_of_ne_nil hne
  obtain rfl : d = c := (List.cons.inj htaken).1
  rw [hsolid.of_eq] at h
  refine ⟨own, rfl, hsolid.blank, fun e he => ?_⟩
  have hsolid' : IsSolid d (own ++ e) := by
    refine ⟨hsolid.blank, hsolid.feed, hsolid.quote, fun hc => ?_⟩
    rcases Front.solid_slash (hc ▸ h) with rfl | rfl
    · rw [List.nil_append]
      exact ⟨fun hd => absurd (he _ hd) (by decide), fun hd => absurd (he _ hd) (by decide)⟩
    · exact ⟨nofun, nofun⟩
  rw [hsolid'.of_eq, Front.solid_alone h he]

/-! ## Strings that are read alone -/

/-- A string that is closed has what it needs in its own text. -/
theorem stretchFrom_own {mark : Char} {taken value cs text meaning rest : List Char}
    (h : stretchFrom mark taken value cs = ⟨.closed, text, meaning, rest⟩) :
    ∃ own, cs = own ++ rest ∧ stretchFrom mark taken value own = ⟨.closed, text, meaning, []⟩ := by
  fun_induction stretchFrom mark taken value cs with
  | case1 | case2 => cases h
  | case3 taken value c cs ih =>
    obtain ⟨own, rfl, hown⟩ := ih h
    refine ⟨'\x5c' :: c :: own, rfl, ?_⟩
    rw [stretchFrom, hown]
  | case4 taken value cs hslash hslash' =>
    cases h
    refine ⟨[mark], rfl, ?_⟩
    rw [stretchFrom_cons (ne_backslash hslash hslash'), if_pos rfl]
  | case5 => cases h
  | case6 taken value c cs hslash hslash' hmark hopens ih =>
    obtain ⟨own, rfl, hown⟩ := ih h
    refine ⟨c :: own, rfl, ?_⟩
    -- the mark that closes the string ends the search for an interpolation
    have hclosed : (stretchFrom mark (c :: taken) (c :: value) own).ending ≠ .missing := by
      rw [hown]
      intro h
      cases h
    rw [opensInterpolation_append_of_ending hclosed] at hopens
    rw [stretchFrom_cons (ne_backslash hslash hslash'), if_neg hmark, if_neg hopens, hown]

theorem Front.of_mark {mark : Char} (hmark : isQuote mark = true) (cs : List Char) :
    Front.of mark cs = .quote mark cs := by
  simp only [isQuote, Bool.or_eq_true, decide_eq_true_eq] at hmark
  obtain rfl | rfl := hmark <;> rfl

/-! ## Tokens that are read alone -/

/-- A token that is read from its text, with a space or nothing behind it, wherever that stands. -/
inductive Alone (t : Token) : Prop where
  | front {c : Char} {cs : List Char} (hlexeme : t.lexeme.toList = c :: cs)
      (hblank : isBlank c = false) (hvalue : t.value = none)
      (hfront : ∀ e, (∀ d ∈ e.head?, d = ' ') →
        Front.of c (cs ++ e) = .token t.kind t.lexeme.toList e)
  | string {mark : Char} {cs value : List Char} (hlexeme : t.lexeme.toList = mark :: cs)
      (hmark : isQuote mark = true) (hkind : t.kind = .string)
      (hvalue : t.value = some (String.ofList value))
      (hstretch : ∀ e, stretchFrom mark [mark] [] (cs ++ e) =
        ⟨.closed, t.lexeme.toList, value, e⟩)

/-- A token is read alone if no interpolation stands among the tokens around it. -/
theorem Traced.alone {src : Source} {ts : List Token} {t : Token} (h : t.Traced src ts)
    (hkind : t.kind ≠ .error ∧ t.kind ≠ .interpolationStart ∧ t.kind ≠ .interpolationEnd)
    (hts : ∀ u ∈ ts, u.kind ≠ .interpolationEnd) : t.Alone := by
  cases h with
  | front hfront hvalue =>
    obtain ⟨own, hlexeme, hblank, halone⟩ := Front.of_alone hfront
    exact .front hlexeme hblank hvalue halone
  | @string mark text value rest hmark hstretch hstring hvalue =>
    obtain ⟨own, -, hown⟩ := stretchFrom_own hstretch
    have hlexeme : t.lexeme.toList = mark :: own := by
      simpa [hown] using (stretchFrom_divides mark [mark] [] own).split
    refine .string hlexeme hmark hstring hvalue fun e => ?_
    rw [stretchFrom_append (by rw [hown]; nofun), hown]
    rfl
  | before hstart => exact absurd hstart hkind.2.1
  | behind hu hend => exact absurd hend (hts _ hu)
  | other hother =>
    rcases hother with ⟨hend, -⟩ | herror
    · exact absurd hend hkind.2.2
    · exact absurd herror hkind.1

theorem Alone.isBlank_head {t : Token} (h : t.Alone) :
    ∃ c cs, t.lexeme.toList = c :: cs ∧ isBlank c = false := by
  cases h with
  | front hlexeme hblank => exact ⟨_, _, hlexeme, hblank⟩
  | string hlexeme hmark =>
    refine ⟨_, _, hlexeme, ?_⟩
    simp only [isQuote, Bool.or_eq_true, decide_eq_true_eq] at hmark
    obtain rfl | rfl := hmark <;> rfl

/-- The texts of some tokens, each with a space behind it. -/
def spaced (ts : List Token) : List Char := ts.flatMap fun t => t.lexeme.toList ++ [' ']

theorem spaced_cons (t : Token) (ts : List Token) :
    spaced (t :: ts) = t.lexeme.toList ++ ' ' :: spaced ts := by
  simp [spaced]

/-- A space in front of such tokens. -/
theorem Front.of_space {ts : List Token} (h : ∀ t ∈ ts, t.Alone) :
    Front.of ' ' (spaced ts) = .trivia .blank true [' '] (spaced ts) := by
  have hstop : ∀ d ∈ (spaced ts).head?, isBlank d = false := by
    cases ts with
    | nil => nofun
    | cons t ts =>
      obtain ⟨c, cs, hlexeme, hblank⟩ := (h t List.mem_cons_self).isBlank_head
      rw [spaced_cons, hlexeme]
      rintro _ ⟨⟩
      exact hblank
  have hspan : ([' '] ++ spaced ts).span isBlank = ([' '], spaced ts) :=
    span_append_of_head (List.forall_mem_singleton.2 rfl) hstop
  rw [Front.of, if_pos (by decide), ← List.singleton_append, hspan]
  rfl

/-- The texts of some tokens with a space between any two of them. -/
def respaced (ts : List Token) : String := " ".intercalate (ts.map Token.lexeme)

/-- If the last token has no text, then a space stands behind each of the others. -/
theorem toList_respaced (ts : List Token) {t : Token} (ht : t.lexeme = "") :
    (respaced (ts ++ [t])).toList = spaced ts := by
  rw [respaced, String.toList_intercalate, spaced]
  induction ts with
  | nil => simp [ht]
  | cons u us ih =>
    rw [List.flatMap_cons, ← ih]
    cases us <;> simp [List.intercalate, List.intersperse]

end Token

namespace Scan

namespace State

variable (src : Source) (mode : Mode) {s : State}

/-- A token that is read alone. -/
theorem step?_alone {t : Token} (ht : t.Alone) {e : List Char} (he : ∀ d ∈ e.head?, d = ' ')
    (hrest : s.rest = t.lexeme.toList ++ e) :
    s.step? src mode = some (s.token t.kind t.lexeme.toList e t.value) := by
  cases ht with
  | @front c cs hlexeme hblank hvalue hfront =>
    have hread : s.rest = c :: (cs ++ e) := by rw [hrest, hlexeme, List.cons_append]
    simp only [step?, hread, hfront e he, lexeme, hvalue]
  | @string mark cs value hlexeme hmark hkind hvalue hstretch =>
    have hread : s.rest = mark :: (cs ++ e) := by rw [hrest, hlexeme, List.cons_append]
    simp only [step?, hread, Token.Front.of_mark hmark, lexeme, hstretch e, stretch, hkind, hvalue]

/-- Tokens that are read alone, with spaces between them. -/
theorem steps_spaced {ts : List Token} (hts : ∀ t ∈ ts, t.Alone)
    (hrest : s.rest = Token.spaced ts) :
    ∃ t, Steps src .lossy s t ∧ t.rest = [] ∧ t.waiting = s.waiting ∧ t.errors = s.errors ∧
      t.tokens.map Token.form = (ts.map Token.form).reverse ++ s.tokens.map Token.form := by
  induction ts generalizing s with
  | nil => exact ⟨s, .refl, hrest, rfl, rfl, rfl⟩
  | cons u us ih =>
    obtain ⟨hu, hus⟩ := List.forall_mem_cons.1 hts
    have hsplit : s.rest = u.lexeme.toList ++ (' ' :: Token.spaced us) := by
      rw [hrest, Token.spaced_cons]
    have hread := step?_alone src .lossy hu (by simp) hsplit
    set v := s.token u.kind u.lexeme.toList (' ' :: Token.spaced us) u.value
    have hskip : v.step? src .lossy = some (v.advance [' '] (Token.spaced us)) := by
      have hspace : v.rest = ' ' :: Token.spaced us := rfl
      simp only [step?, hspace, Token.Front.of_space hus]
      rfl
    obtain ⟨t, hsteps, hend, hwaiting, herrors, htokens⟩ :=
      ih (s := v.advance [' '] (Token.spaced us)) hus rfl
    refine ⟨t, .head hread (.head hskip hsteps), hend, hwaiting, herrors, htokens.trans ?_⟩
    simp [v, State.advance, State.token, Token.form]

end State

/-- If there are neither errors nor interpolations among the tokens of a source, then their texts
with spaces between them are scanned without a report as the same tokens. -/
theorem scan_respaced (src : Source) (errors : Diagnostic.Collector)
    (h : ∀ t ∈ (scan src .lossy errors).1.tokens,
      t.kind ≠ .error ∧ t.kind ≠ .interpolationStart ∧ t.kind ≠ .interpolationEnd)
    (file : String) (fresh : Diagnostic.Collector) :
    (scan ⟨Token.respaced (scan src .lossy errors).1.tokens, file⟩ .lossy fresh).1.tokens.map
        Token.form = (scan src .lossy errors).1.tokens.map Token.form ∧
      (scan ⟨Token.respaced (scan src .lossy errors).1.tokens, file⟩ .lossy fresh).2 = fresh := by
  have htraced := traced_atEnd src .lossy errors
  have hscan := tokens_scan src .lossy errors
  generalize hts : (State.atEnd src .lossy errors).tokens.reverse = ts at hscan
  rw [hscan] at h ⊢
  have halone : ∀ t ∈ ts, t.Alone := by
    intro t ht
    have hkind := h t (List.mem_append_left _ ht)
    refine (htraced t (List.mem_reverse.1 (hts ▸ ht))).alone hkind fun u hu => ?_
    exact (h u (List.mem_append_left _ (hts ▸ List.mem_reverse.2 hu))).2.2
  generalize hagain : (⟨Token.respaced (ts ++ _), file⟩ : Source) = again
  have htext : again.text.toList = Token.spaced ts := by
    rw [← hagain]
    exact Token.toList_respaced ts rfl
  obtain ⟨t, hsteps, hrest, hwaiting, herrors, htokens⟩ :=
    State.steps_spaced again (s := { rest := again.text.toList, errors := fresh }) halone
      htext
  have hend : State.atEnd again .lossy fresh = t := by
    refine State.run_eq_of_steps hsteps ?_ (Nat.le_of_eq ?_)
    · simp only [State.step?, hrest, hwaiting]
    · simp [State.remaining]
  rw [tokens_scan, errors_scan, hend]
  refine ⟨?_, herrors⟩
  rw [List.map_append, List.map_reverse, htokens]
  simp [Token.form, State.eof, Token.eof]

/-- A number whose exponent has no digits, a string with braces in it, and a comment without end. -/
theorem scan_respaced_backoff :
    (∀ t ∈ (scan ⟨"1e+em 'a\x7b0\x7d' /* x", "a"⟩ .lossy {}).1.tokens,
      t.kind ≠ .error ∧ t.kind ≠ .interpolationStart ∧ t.kind ≠ .interpolationEnd) ∧
    (scan ⟨"1 e + em 'a\x7b0\x7d' ", "a"⟩ .lossy {}).1.tokens.map Token.form =
      (scan ⟨"1e+em 'a\x7b0\x7d' /* x", "a"⟩ .lossy {}).1.tokens.map Token.form := by
  have hplain : ∀ t ∈ (scan ⟨"1e+em 'a\x7b0\x7d' /* x", "a"⟩ .lossy {}).1.tokens,
      t.kind ≠ .error ∧ t.kind ≠ .interpolationStart ∧ t.kind ≠ .interpolationEnd := by
    decide +kernel
  have htext : Token.respaced (scan ⟨"1e+em 'a\x7b0\x7d' /* x", "a"⟩ .lossy {}).1.tokens =
      "1 e + em 'a\x7b0\x7d' " := by
    decide +kernel
  have hforms := (scan_respaced _ {} hplain "a" {}).1
  rw [htext] at hforms
  exact ⟨hplain, hforms⟩

end Scan

end LimitSyntax
