import LimitSyntax.Proofs.Brackets
import LimitSyntax.Proofs.ByteMoves

/-!
# Rules over bytes

A rule for bytes leads the cursor to where the steps of the scanner over texts come to
(`Scan.Lands`). The scanner over texts adds trivia to the last token lexeme by lexeme, the cursor
when it makes the token: so the two meet where no trivia of that kind is left (`Scan.State.Settled`).
-/

namespace LimitSyntax.Scan

open Text

/-! ## Where rules lead -/

namespace State

/-- The end of the range. -/
def stop (s : State) : Nat := s.offset + byteLength s.rest

/-- The range goes on with what belongs to the token before it. -/
def TrailsOn (s : State) : Prop :=
  ∃ c cs, s.rest = c :: cs ∧ (Token.isBlank c = true ∨ c = '/' ∧ cs.head? = some '/')

/-- All trivia that belongs to the last token was added to it. -/
def Settled (mode : Mode) (s : State) : Prop :=
  mode = .lossless → s.trailing = true → ¬ s.TrailsOn

theorem settled_of_trailing {mode : Mode} {s : State} (h : s.trailing = false) :
    s.Settled mode := by
  intro _ htrailing
  rw [h] at htrailing
  cases htrailing

variable {src : Source} {mode : Mode} {s : State} {c : Char} {cs : List Char}

theorem step?_of_rest (h : s.rest = c :: cs) :
    s.step? src mode = some (s.lexeme src mode (.of c cs)) := by
  rw [step?, h]

theorem stop_advance {taken rest : List Char} (h : s.rest = taken ++ rest) :
    (s.advance taken rest).stop = s.stop := by
  rw [stop, stop, h, byteLength_append, ← Nat.add_assoc]
  rfl

@[simp] theorem rest_trivia {kind : Trivia.Kind} {taken rest : List Char} :
    (s.trivia mode kind taken rest).rest = rest := by
  cases mode with
  | lossy => rfl
  | lossless =>
    simp only [trivia]
    split <;> rfl

@[simp] theorem offset_trivia {kind : Trivia.Kind} {taken rest : List Char} :
    (s.trivia mode kind taken rest).offset = s.offset + byteLength taken := by
  cases mode with
  | lossy => rfl
  | lossless =>
    simp only [trivia]
    split <;> rfl

theorem stop_trivia {kind : Trivia.Kind} {taken rest : List Char} (h : s.rest = taken ++ rest) :
    (s.trivia mode kind taken rest).stop = s.stop := by
  rw [← stop_advance h, stop, rest_trivia, offset_trivia]
  rfl

theorem trailing_trivia {kind : Trivia.Kind} (taken rest : List Char)
    (h : (s.trailing && (kind == .blank || kind == .lineComment)) = true) :
    (s.trivia .lossless kind taken rest).trailing = true := by
  simp only [trivia, h, if_true]
  exact (Bool.and_eq_true_iff.1 h).1

theorem stop_token {kind : Token.Kind} {taken rest : List Char} {value : Option String}
    (h : s.rest = taken ++ rest) : (s.token kind taken rest value).stop = s.stop :=
  stop_advance h

end State

variable {src : Source} {mode : Mode} {c d : Cursor src} {s t home : State}
  {taken rest : List Char} {kind : Token.Kind} {value : Option String} {least : Nat}

/-- The cursor stands where the scanner over texts is. -/
abbrev At (mode : Mode) (c : Cursor src) (s : State) : Prop := Past mode c s [] s.rest

/-- Steps from `s` lead to where the cursor stands, at least at the byte `least` and in the range of
`home`. -/
def Lands (mode : Mode) (home : State) (least : Nat) (s : State) (c : Cursor src) : Prop :=
  ∃ s', State.Steps src mode s s' ∧ At mode c s' ∧ s'.Settled mode ∧ s'.waiting = home.waiting ∧
    s'.stop = home.stop ∧ least ≤ s'.offset

namespace Lands

theorem of_steps (h : Lands mode home least t c) (hsteps : State.Steps src mode s t) :
    Lands mode home least s c := by
  obtain ⟨s', hsteps', hrest⟩ := h
  exact ⟨s', hsteps.trans hsteps', hrest⟩

theorem mono (h : Lands mode home least s c) {least' : Nat} (hle : least' ≤ least) :
    Lands mode home least' s c := by
  obtain ⟨s', hsteps, hat, hsettled, hwaiting, hstop, hleast⟩ := h
  exact ⟨s', hsteps, hat, hsettled, hwaiting, hstop, Nat.le_trans hle hleast⟩

/-- Another state in the same range. -/
theorem of_home (h : Lands mode home least s c) (home' : State)
    (hwaiting : home.waiting = home'.waiting) (hstop : home.stop = home'.stop) :
    Lands mode home' least s c := by
  obtain ⟨s', hsteps, hat, hsettled, hwaiting', hstop', hleast⟩ := h
  exact ⟨s', hsteps, hat, hsettled, hwaiting'.trans hwaiting, hstop'.trans hstop, hleast⟩

end Lands

/-! ## Tokens and trivia -/

namespace Past

theorem stop_eq (h : Past mode c s taken rest) : c.stop = s.stop := by
  rw [h.stop, h.pos, State.stop, h.rest_eq, byteLength_append, Nat.add_assoc]

theorem pos_le {more rest' : List Char} (h : Past mode c s taken rest)
    (hd : Past mode d s (taken ++ more) rest') : c.pos ≤ d.pos := by
  rw [h.pos, hd.pos, byteLength_append, ← Nat.add_assoc]
  exact Nat.le_add_right _ _

/-- What was passed may be counted as read. -/
theorem advance (h : Past mode c s taken rest) : At mode c (s.advance taken rest) := by
  obtain ⟨before, hsplit, hoffset⟩ := h.split
  have hremaining :
      before ++ s.remaining = before ++ taken ++ (s.advance taken rest).remaining := by
    rw [(State.behind_advance h.rest_eq).1, List.append_assoc]
  have hlength : byteLength (before ++ taken) = (s.advance taken rest).offset := by
    rw [byteLength_append, hoffset]
    rfl
  exact { h with
    rest_eq := rfl, split := ⟨before ++ taken, hsplit.trans hremaining, hlength⟩ }

/-- The cursor behind a token to which nothing was added. -/
theorem keepToken (h : Past mode c s taken rest) (kind : Token.Kind) (value : Option String) :
    At mode (c.keepToken kind (String.ofList taken) s.offset s.line value)
      (s.token kind taken rest value) := by
  have htokens := h.tokens
  have hpending := h.pending
  have hpos := h.pos
  exact { h.advance with
    tokens := by rw [Cursor.keepToken, htokens, hpos, hpending]; rfl
    pending := rfl
    sound := ⟨h.sound.lexemes, h.sound.ranges⟩ }

theorem push_bare (h : Past mode c s taken rest)
    (hkind : mode = .lossy ∨ kind = .interpolationStart ∨ kind = .interpolationEnd) :
    Yields (c.push mode kind s.offset s.line value) fun d =>
      At mode d (s.token kind taken rest value) := by
  rw [Cursor.push, h.cut_taken]
  exact ⟨_, if_pos hkind, h.keepToken kind value⟩

theorem piece (h : Past mode c s taken rest) (kind : Trivia.Kind) : c.piece kind s.offset =
    .ok ⟨kind, String.ofList taken, ⟨s.offset, (s.advance taken rest).offset⟩⟩ := by
  rw [Cursor.piece, h.cut_taken, h.pos]
  rfl

/-- Trivia that belongs to the next token, or to none. -/
theorem trivia (h : Past mode c s taken rest) {kind : Trivia.Kind}
    (hkind : mode = .lossless → (s.trailing && (kind == .blank || kind == .lineComment)) = false) :
    Yields (c.trivia mode kind s.offset) fun d => At mode d (s.trivia mode kind taken rest) ∧
      (s.trivia mode kind taken rest).Settled mode := by
  cases mode with
  | lossy => exact .pure ⟨h.advance, nofun⟩
  | lossless =>
    have hpending := h.pending
    rw [Cursor.trivia, h.piece, State.trivia]
    simp only [hkind rfl]
    refine ⟨_, rfl, ?_, State.settled_of_trailing rfl⟩
    exact { h.advance with
      pending := by rw [hpending]; rfl
      sound := ⟨h.sound.lexemes, h.sound.ranges⟩ }

/-- The cursor behind trivia that belongs to the next token, or to none. -/
theorem trivia_solid (h : Past mode c s taken rest) (hne : taken ≠ []) {kind : Trivia.Kind}
    (hkind : mode = .lossless → (s.trailing && (kind == .blank || kind == .lineComment)) = false) :
    Yields (c.trivia mode kind s.offset)
      (Lands mode s (s.offset + 1) (s.trivia mode kind taken rest)) := by
  refine (h.trivia hkind).mono fun d ⟨hat, hsettled⟩ => ⟨_, .refl, hat, hsettled,
    State.waiting_trivia, State.stop_trivia h.rest_eq, ?_⟩
  rw [State.offset_trivia]
  exact Nat.add_le_add_left (byteLength_pos hne) _

/-- Trivia that belongs to the last token. -/
theorem attach (h : Past .lossless c s taken rest) {kind : Trivia.Kind}
    (hkind : (s.trailing && (kind == .blank || kind == .lineComment)) = true) :
    Yields (c.attach kind s.offset) fun d =>
      At .lossless d (s.trivia .lossless kind taken rest) := by
  have htokens := h.tokens
  rw [Cursor.attach, h.piece, State.trivia]
  simp only [hkind]
  refine ⟨_, rfl, ?_⟩
  exact { h.advance with
    tokens := by rw [htokens]; rfl
    sound := ⟨h.sound.lexemes, h.sound.ranges⟩ }

/-! ### Trivia behind a token -/

theorem pos_eq (h : At mode c s) : c.pos = s.offset := h.pos

theorem line_eq (h : At mode c s) : c.line = s.line := h.line

theorem atComment {x : Char} {xs : List Char} (h : Past mode c s taken (x :: xs)) {b : Char}
    (hb : IsAscii b) : c.atComment b = decide (x = '/' ∧ xs.head? = some b) := by
  rw [Cursor.atComment, h.sees_zero_eq (by decide)]
  by_cases hx : x = '/'
  · subst hx
    rw [h.sees_one_eq (by decide) hb]
    simp
  · simp [hx]

/-- A run of trivia that belongs to the last token. -/
theorem attachRun {p : Char → Bool} {kind : Trivia.Kind} {x : Char} {xs : List Char}
    (h : At .lossless c s) (htrailing : s.trailing = true)
    (hkind : (kind == .blank || kind == .lineComment) = true) (hrest : s.rest = x :: xs)
    (hx : p x = true) (hp : Uniform p) (hline : p '\n' = false)
    (hfront : Token.Front.of x xs = .ofRun kind ((x :: xs).span p)) :
    Yields (c.attachRun kind p) fun d => ∃ t, s.step? src .lossless = some t ∧
      At .lossless d t ∧ t.trailing = true ∧ t.waiting = s.waiting ∧ t.stop = s.stop ∧
      s.offset < t.offset := by
  have hsplit : s.rest = s.rest.takeWhile p ++ s.rest.dropWhile p :=
    List.takeWhile_append_dropWhile.symm
  have hne : s.rest.takeWhile p ≠ [] := by
    rw [hrest, List.takeWhile_cons_of_pos hx]
    exact List.cons_ne_nil _ _
  have htrails : (s.trailing && (kind == .blank || kind == .lineComment)) = true := by
    rw [htrailing, hkind]
    rfl
  have hstep : s.step? src .lossless =
      some (s.trivia .lossless kind (s.rest.takeWhile p) (s.rest.dropWhile p)) := by
    rw [State.step?_of_rest hrest, hfront, hrest, List.span_eq_takeWhile_dropWhile]
    rfl
  refine (h.skipWhile hp hline).bind fun d hd => ?_
  rw [h.pos_eq]
  refine (hd.attach htrails).mono fun e he => ⟨_, hstep, he, ?_⟩
  refine ⟨State.trailing_trivia _ _ htrails, State.waiting_trivia, State.stop_trivia hsplit, ?_⟩
  rw [State.offset_trivia]
  exact Nat.lt_add_of_pos_right (byteLength_pos hne)

theorem trailing {n : Nat} (h : At .lossless c s) (htrailing : s.trailing = true)
    (hn : byteLength s.rest < n) :
    Yields (Cursor.trailing n c) (Lands .lossless s s.offset s) := by
  induction n generalizing c s with
  | zero => omega
  | succ n ih =>
    have hturn {d : Cursor src} (hd : ∃ t, s.step? src .lossless = some t ∧ At .lossless d t ∧
        t.trailing = true ∧ t.waiting = s.waiting ∧ t.stop = s.stop ∧ s.offset < t.offset) :
        Yields (Cursor.trailing n d) (Lands .lossless s s.offset s) := by
      obtain ⟨t, hstep, hat, htrailing, hwaiting, hstop, hoffset⟩ := hd
      have hshorter : byteLength t.rest < n := by
        rw [State.stop, State.stop] at hstop
        omega
      refine (ih hat htrailing hshorter).mono fun e he => ?_
      exact ((he.of_home s hwaiting hstop).of_steps (.single hstep)).mono (Nat.le_of_lt hoffset)
    rw [Cursor.trailing, h.sees_zero Token.uniform_isBlank]
    have hdone (hnot : ¬ s.TrailsOn) : Yields (.ok c) (Lands .lossless s s.offset s) :=
      .pure ⟨s, .refl, h, fun _ _ => hnot, rfl, rfl, Nat.le_refl _⟩
    cases hrest : s.rest with
    | nil =>
      have hcomment : c.atComment '/' = false := by
        rw [Cursor.atComment, h.sees_zero_eq (by decide), hrest]
        rfl
      rw [hcomment]
      exact hdone fun ⟨_, _, hcons, _⟩ => nomatch hrest.symm.trans hcons
    | cons x xs =>
      have hat : Past .lossless c s [] (x :: xs) := hrest ▸ h
      rw [hat.atComment (by decide), List.head?_cons, Option.any_some]
      split
      next hblank =>
        refine (h.attachRun htrailing rfl hrest hblank Token.uniform_isBlank (by decide) ?_).bind
          fun _ => hturn
        rw [Token.Front.of, if_pos hblank]
      next hblank =>
        split
        next hcomment =>
          have hslash := of_decide_eq_true hcomment
          refine (h.attachRun htrailing rfl hrest (by simp [hslash.1]) (.ne (by decide))
            (by decide) ?_).bind fun _ => hturn
          rw [Token.Front.of, if_neg hblank, if_neg (by simp [hslash.1]), if_pos hslash]
        next hcomment =>
          refine hdone fun ⟨_, _, hcons, htrails⟩ => ?_
          cases hrest.symm.trans hcons
          rcases htrails with htrails | htrails
          · exact hblank htrails
          · exact hcomment (decide_eq_true htrails)

/-- The cursor behind a token and what belongs to it. -/
theorem push (h : Past mode c s taken rest) (kind : Token.Kind) (value : Option String) :
    Yields (c.push mode kind s.offset s.line value)
      (Lands mode s c.pos (s.token kind taken rest value)) := by
  have hstop : (s.token kind taken rest value).stop = s.stop := State.stop_token h.rest_eq
  have hoffset : c.pos ≤ (s.token kind taken rest value).offset := Nat.le_of_eq h.pos
  by_cases hkind : mode = .lossy ∨ kind = .interpolationStart ∨ kind = .interpolationEnd
  · refine (h.push_bare hkind).mono fun d hd => ⟨_, .refl, hd, ?_, rfl, hstop, hoffset⟩
    rcases hkind with rfl | rfl | rfl
    · exact nofun
    · exact State.settled_of_trailing rfl
    · exact State.settled_of_trailing rfl
  · obtain ⟨hmode, hstart, hend⟩ : mode ≠ .lossy ∧ kind ≠ .interpolationStart ∧
        kind ≠ .interpolationEnd := by
      rwa [not_or, not_or] at hkind
    obtain rfl : mode = .lossless := by
      cases mode with
      | lossy => exact absurd rfl hmode
      | lossless => rfl
    have hat := h.keepToken kind value
    have htrailing : (s.token kind taken rest value).trailing = true := by
      simp [State.token, hstart, hend]
    have hlength : byteLength (s.token kind taken rest value).rest <
        (c.keepToken kind (String.ofList taken) s.offset s.line value).range.length + 1 := by
      rw [hat.range_eq, length_bytes]
      exact Nat.lt_succ_self _
    rw [Cursor.push, h.cut_taken]
    show Yields (ite _ _ _) _
    rw [if_neg hkind]
    refine (hat.trailing htrailing hlength).mono fun d hd => ?_
    exact (hd.of_home s rfl hstop).mono hoffset

/-- The cursor behind a token that has text. -/
theorem push_solid (h : Past mode c s taken rest) (hne : taken ≠ []) (kind : Token.Kind) :
    Yields (c.push mode kind s.offset s.line none)
      (Lands mode s (s.offset + 1) (s.lexeme src mode (.token kind taken rest))) := by
  refine (h.push kind none).mono fun d hd => hd.mono ?_
  rw [h.pos]
  exact Nat.add_le_add_left (byteLength_pos hne) _

/-! ### Words and numbers -/

theorem word (h : At mode c s) (hne : (Token.word s.rest).2.1 ≠ []) : Yields (c.word mode)
    (Lands mode s (s.offset + 1) (s.lexeme src mode (.ofToken (Token.word s.rest)))) := by
  have hword : Token.word s.rest = (Token.wordKind (s.rest.takeWhile Token.isWordChar),
      s.rest.takeWhile Token.isWordChar, s.rest.dropWhile Token.isWordChar) := by
    rw [Token.word, List.span_eq_takeWhile_dropWhile]
  rw [hword] at hne ⊢
  refine (h.skipWhile Token.uniform_isWordChar (by decide)).bind fun d hd => ?_
  rw [List.nil_append] at hd
  rw [h.pos_eq, hd.cut_taken, ok_bind, String.toList_ofList, h.line_eq]
  exact hd.push_solid hne _

theorem annotation {cs : List Char} (h : At mode c s) (hrest : s.rest = '@' :: cs) :
    Yields (c.annotation mode)
      (Lands mode s (s.offset + 1) (s.lexeme src mode (.ofToken (Token.atWord cs)))) := by
  have hat : Past mode c s [] ('@' :: cs) := hrest ▸ h
  refine (hat.moveOne (by decide) (by decide)).bind fun name hname => ?_
  refine (hname.skipWhile Token.uniform_isWordChar (by decide)).bind fun d hd => ?_
  rw [hname.cut_between hd, ok_bind, Token.atWord, List.span_eq_takeWhile_dropWhile, h.pos_eq,
    h.line_eq]
  dsimp only
  cases Token.Kind.ofAnnotation? (String.ofList (cs.takeWhile Token.isWordChar)) with
  | some kind => exact hd.push_solid (by simp) kind
  | none =>
    have hline := Token.newline_not_mem_takeWhile (p := Token.isWordChar) (by decide) cs
    exact (hname.back hd hline).bind fun e he => he.push_solid (by simp) .atSign

private theorem isEmpty_takeWhile (p : Char → Bool) (cs : List Char) :
    (cs.takeWhile p).isEmpty = !cs.head?.any p := by
  cases cs with
  | nil => rfl
  | cons c cs =>
    rw [List.head?_cons, Option.any_some]
    cases hc : p c <;> simp [hc]

theorem fraction (h : Past mode c s taken rest) : Yields c.fraction fun r =>
    r.1 = !(Token.fraction rest).1.isEmpty ∧
      Past mode r.2 s (taken ++ (Token.fraction rest).1) (Token.fraction rest).2 := by
  rw [Cursor.fraction, h.sees_zero_eq (by decide)]
  by_cases hpoint : rest.head? = some '.'
  · obtain ⟨cs, rfl⟩ := List.head?_eq_some_iff.1 hpoint
    have hdigits : Token.fraction ('.' :: cs) = if cs.head?.any Char.isDigit then
        ('.' :: cs.takeWhile Char.isDigit, cs.dropWhile Char.isDigit) else ([], '.' :: cs) := by
      simp only [Token.fraction, List.span_eq_takeWhile_dropWhile, isEmpty_takeWhile]
      cases cs.head?.any Char.isDigit <;> rfl
    rw [h.sees_one (by decide) Token.uniform_isDigit, hdigits]
    cases cs.head?.any Char.isDigit with
    | false => exact .pure ⟨rfl, by simpa using h⟩
    | true =>
      refine (h.moveOne (by decide) (by decide)).bind fun d hd => ?_
      refine (hd.skipWhile Token.uniform_isDigit (by decide)).bind fun e he => .pure ⟨rfl, ?_⟩
      rw [List.append_assoc] at he
      exact he
  · have hfraction : Token.fraction rest = ([], rest) := by
      unfold Token.fraction
      split
      · exact absurd rfl hpoint
      · rfl
    rw [hfraction, decide_eq_false hpoint]
    exact .pure ⟨rfl, by simpa using h⟩

theorem sign (h : Past mode c s taken rest) : Yields c.sign fun d =>
    Past mode d s (taken ++ (Token.sign rest).1) (Token.sign rest).2 := by
  have hsees : c.sees 0 (fun b => b = '+' || b = '-') =
      rest.head?.any fun b => b = '+' || b = '-' :=
    h.sees_zero ((Uniform.eq (by decide)).or (.eq (by decide)))
  rw [Cursor.sign, hsees]
  fun_cases Token.sign rest with
  | case1 cs => exact h.moveOne (by decide) (by decide)
  | case2 cs => exact h.moveOne (by decide) (by decide)
  | case3 cs hplus hminus =>
    have hnone : rest.head?.any (fun b => b = '+' || b = '-') = false := by
      cases rest with
      | nil => rfl
      | cons x xs => simpa using ⟨fun hx => hplus xs (hx ▸ rfl), fun hx => hminus xs (hx ▸ rfl)⟩
    rw [hnone]
    exact .pure (by simpa using h)

theorem exponent (h : Past mode c s taken rest) : Yields c.exponent fun r =>
    r.1 = !(Token.exponent rest).1.isEmpty ∧
      Past mode r.2 s (taken ++ (Token.exponent rest).1) (Token.exponent rest).2 := by
  have hsees : c.sees 0 (fun b => b = 'e' || b = 'E') =
      rest.head?.any fun b => b = 'e' || b = 'E' :=
    h.sees_zero ((Uniform.eq (by decide)).or (.eq (by decide)))
  rw [Cursor.exponent, hsees]
  cases rest with
  | nil => exact .pure ⟨rfl, by simpa [Token.exponent] using h⟩
  | cons x xs =>
    rw [List.head?_cons, Option.any_some]
    by_cases hx : x = 'e' ∨ x = 'E'
    · have hdigits : Token.exponent (x :: xs) = if (Token.sign xs).2.head?.any Char.isDigit then
          (x :: ((Token.sign xs).1 ++ (Token.sign xs).2.takeWhile Char.isDigit),
            (Token.sign xs).2.dropWhile Char.isDigit) else ([], x :: xs) := by
        simp only [Token.exponent, if_pos hx, List.span_eq_takeWhile_dropWhile, isEmpty_takeWhile]
        cases (Token.sign xs).2.head?.any Char.isDigit <;> rfl
      have hascii : IsAscii x := by rcases hx with rfl | rfl <;> decide
      have hline : '\n' ≠ x := by rcases hx with rfl | rfl <;> decide
      have hmark : '\n' ∉ [x] ++ (Token.sign xs).1 := by
        simpa using ⟨hline, Token.newline_not_mem_sign xs⟩
      rw [if_pos (by simpa using hx), hdigits]
      refine (h.moveOne hascii hline).bind fun d hd => hd.sign.bind fun e he => ?_
      rw [he.sees_zero Token.uniform_isDigit]
      rw [List.append_assoc] at he
      cases (Token.sign xs).2.head?.any Char.isDigit with
      | false => exact (h.back he hmark).bind fun f hf => .pure ⟨rfl, by simpa using hf⟩
      | true =>
        refine (he.skipWhile Token.uniform_isDigit (by decide)).bind fun f hf => .pure ⟨rfl, ?_⟩
        simpa using hf
    · have hexponent : Token.exponent (x :: xs) = ([], x :: xs) := by
        simp only [Token.exponent, if_neg hx]
      rw [if_neg (by simpa using hx), hexponent]
      exact .pure ⟨rfl, by simpa using h⟩

theorem timeUnit (h : Past mode c s taken rest) : Yields c.timeUnit fun d =>
    Past mode d s (taken ++ (Token.timeUnit rest).1) (Token.timeUnit rest).2 := by
  have hascii : ∀ unit ∈ Token.timeUnits, ∀ x ∈ unit, IsAscii x := by
    simp only [Token.timeUnits, List.forall_mem_cons, List.not_mem_nil, false_implies,
      implies_true, and_true]
    decide
  have hunits : Token.timeUnits.find? (Token.startsWithUnit · c.range) =
      Token.timeUnits.find? (Token.startsWithUnit · rest) := by
    rw [h.range_eq, ← List.head?_filter, ← List.head?_filter, List.filter_congr fun unit hunit =>
      Token.startsWithUnit_bytes (hascii unit hunit) rest]
  have happend := Token.timeUnit_append rest
  have hline := Token.newline_not_mem_timeUnit rest
  rw [Cursor.timeUnit, hunits]
  unfold Token.timeUnit at happend hline ⊢
  cases hfind : Token.timeUnits.find? (Token.startsWithUnit · rest) with
  | some unit =>
    rw [hfind] at happend hline
    rw [← happend] at h
    refine h.move _ hline ?_
    exact (byteLength_of_isAscii (hascii unit (List.mem_of_find?_eq_some hfind))).symm
  | none => exact .pure (by simpa using h)

theorem number (h : At mode c s) (hne : (Token.number s.rest).2.1 ≠ []) : Yields (c.number mode)
    (Lands mode s (s.offset + 1) (s.lexeme src mode (.ofToken (Token.number s.rest)))) := by
  simp only [Token.number, List.span_eq_takeWhile_dropWhile] at hne ⊢
  refine (h.skipWhile Token.uniform_isDigit (by decide)).bind fun d hd => ?_
  refine hd.fraction.bind fun r hr => ?_
  obtain ⟨fractional, e⟩ := r
  obtain ⟨hfractional, he⟩ := hr
  refine he.exponent.bind fun r hr => ?_
  obtain ⟨scientific, f⟩ := r
  obtain ⟨hscientific, hf⟩ := hr
  refine hf.timeUnit.bind fun g hg => ?_
  dsimp only at hfractional hscientific
  rw [h.pos_eq, h.line_eq, hscientific, hfractional]
  exact hg.push_solid hne _

end Past

/-! ### Operators -/

/-- The kind that a text makes of an operator before it, the characters that belong to the operator
then, at most `n` of them, and the text behind them. -/
def extended : Nat → Token.Kind → List Char → Token.Kind × List Char × List Char
  | 0, kind, cs => (kind, [], cs)
  | n + 1, kind, cs =>
    match (Cursor.longer kind).find? fun p => cs.head? = some p.1 with
    | some (x, kind) =>
      let (kind, taken, rest) := extended n kind cs.tail
      (kind, x :: taken, rest)
    | none => (kind, [], cs)

/-- The spellings of an operator that starts with `front` and of those that it may become, with at
most `n` more characters; longer ones come first. -/
def spellings : Nat → List Char → Token.Kind → List (List Char × Token.Kind)
  | 0, front, kind => [(front, kind)]
  | n + 1, front, kind =>
    (Cursor.longer kind).flatMap (fun p => spellings n (front ++ [p.1]) p.2) ++ [(front, kind)]

theorem punctuation_eq :
    Token.punctuation = Cursor.operators.flatMap fun p => spellings 2 ([] ++ [p.1]) p.2 := rfl

theorem prefix_of_mem_spellings {n : Nat} {front text : List Char} {kind kind' : Token.Kind}
    (h : (text, kind') ∈ spellings n front kind) : front <+: text := by
  induction n generalizing front kind with
  | zero =>
    cases List.mem_singleton.1 h
    exact List.prefix_refl _
  | succ n ih =>
    rcases List.mem_append.1 h with h | h
    · obtain ⟨p, -, hp⟩ := List.mem_flatMap.1 h
      exact (List.prefix_append front [p.1]).trans (ih hp)
    · cases List.mem_singleton.1 h
      exact List.prefix_refl _

/-- The first spelling that fits is the one of the operator to which the text leads. -/
def Leads (n : Nat) : Prop :=
  ∀ (front cs : List Char) (kind : Token.Kind),
    (spellings n front kind).find? (fun p => p.1.isPrefixOf (front ++ cs)) =
      some (front ++ (extended n kind cs).2.1, (extended n kind cs).1)

theorem Leads.find?_flatMap {n : Nat} (h : Leads n) (front cs : List Char)
    (table : List (Char × Token.Kind)) :
    (table.flatMap fun p => spellings n (front ++ [p.1]) p.2).find?
        (fun p => p.1.isPrefixOf (front ++ cs)) =
      (table.find? fun p => cs.head? = some p.1).map fun p =>
        (front ++ p.1 :: (extended n p.2 cs.tail).2.1, (extended n p.2 cs.tail).1) := by
  induction table with
  | nil => rfl
  | cons p table ih =>
    rw [List.flatMap_cons, List.find?_append, ih]
    by_cases hp : cs.head? = some p.1
    · obtain ⟨ds, rfl⟩ := List.head?_eq_some_iff.1 hp
      have hfirst := h (front ++ [p.1]) ds p.2
      rw [List.append_assoc, List.singleton_append] at hfirst
      rw [hfirst, List.find?_cons_of_pos (by simp)]
      simp
    · have hnone : (spellings n (front ++ [p.1]) p.2).find?
          (fun p => p.1.isPrefixOf (front ++ cs)) = none := by
        rw [List.find?_eq_none]
        intro q hq hfits
        have hprefix := (prefix_of_mem_spellings hq).trans (List.isPrefixOf_iff_prefix.1 hfits)
        obtain ⟨ds, rfl⟩ := (List.prefix_append_right_inj front).1 hprefix
        exact hp rfl
      rw [hnone, List.find?_cons_of_neg (by simpa using hp)]
      rfl

theorem leads (n : Nat) : Leads n := by
  induction n with
  | zero =>
    intro front cs kind
    simp [spellings, extended]
  | succ n ih =>
    intro front cs kind
    rw [spellings, List.find?_append, ih.find?_flatMap, extended]
    cases (Cursor.longer kind).find? fun p => cs.head? = some p.1 with
    | some p => rfl
    | none => simp

theorem extended_append (n : Nat) (kind : Token.Kind) (cs : List Char) :
    (extended n kind cs).2.1 ++ (extended n kind cs).2.2 = cs := by
  fun_induction extended n kind cs with
  | case1 => rfl
  | case2 n kind cs x kind' hfind _ _ _ heq ih =>
    rw [heq] at ih
    have hhead := List.find?_some hfind
    obtain ⟨ds, rfl⟩ := List.head?_eq_some_iff.1 (of_decide_eq_true hhead)
    exact congrArg (x :: ·) ih
  | case3 => rfl

/-- The punctuation at the front of a text is that of its first character, made as long as the text
behind it allows. -/
theorem punctuation?_cons (x : Char) (xs : List Char) :
    Token.punctuation? (x :: xs) = (Cursor.operators.find? fun p => p.1 = x).map fun p =>
      ((extended 2 p.2 xs).1, p.1 :: (extended 2 p.2 xs).2.1, (extended 2 p.2 xs).2.2) := by
  have hlead := (leads 2).find?_flatMap [] (x :: xs) Cursor.operators
  have hfirst : (fun p : Char × Token.Kind => decide ((x :: xs).head? = some p.1)) =
      fun p => decide (p.1 = x) := by
    funext p
    simp [eq_comm]
  rw [← punctuation_eq, hfirst] at hlead
  rw [Token.punctuation?, ← List.nil_append (x :: xs), hlead, Option.map_map]
  have hdrop (kind : Token.Kind) :
      xs.drop (extended 2 kind xs).2.1.length = (extended 2 kind xs).2.2 :=
    (congrArg (List.drop _) (extended_append 2 kind xs).symm).trans List.drop_left
  congr 1
  funext p
  simp [hdrop]

theorem longer_isAscii (kind : Token.Kind) :
    ∀ p ∈ Cursor.longer kind, IsAscii p.1 ∧ '\n' ≠ p.1 := by
  unfold Cursor.longer
  split
  all_goals decide

namespace Past

theorem extend {n : Nat} (h : Past mode c s taken rest) (kind : Token.Kind) :
    Yields (Cursor.extend n kind c) fun r => r.1 = (extended n kind rest).1 ∧
      Past mode r.2 s (taken ++ (extended n kind rest).2.1) (extended n kind rest).2.2 := by
  induction n generalizing c taken rest kind with
  | zero => exact .pure ⟨rfl, by simpa [extended] using h⟩
  | succ n ih =>
    have hfind : (Cursor.longer kind).find? (fun p => c.sees 0 (· = p.1)) =
        (Cursor.longer kind).find? fun p => rest.head? = some p.1 := by
      rw [← List.head?_filter, ← List.head?_filter, List.filter_congr fun p hp =>
        h.sees_zero_eq (longer_isAscii kind p hp).1]
    rw [Cursor.extend, hfind, extended]
    cases hlonger : (Cursor.longer kind).find? fun p => rest.head? = some p.1 with
    | none => exact .pure ⟨rfl, by simpa using h⟩
    | some p =>
      obtain ⟨hascii, hline⟩ := longer_isAscii kind p (List.mem_of_find?_eq_some hlonger)
      have hhead := List.find?_some hlonger
      obtain ⟨ds, rfl⟩ := List.head?_eq_some_iff.1 (of_decide_eq_true hhead)
      refine (h.moveOne hascii hline).bind fun d hd => (ih hd p.2).mono fun r hr => ?_
      simpa using hr

theorem operator {x : Char} {xs : List Char} (h : At mode c s) (hrest : s.rest = x :: xs) :
    Yields (c.operator mode) (Lands mode s (s.offset + 1) (s.lexeme src mode
      (match Token.punctuation? (x :: xs) with | some r => .ofToken r | none => .stray x xs))) := by
  have hat : Past mode c s [] (x :: xs) := hrest ▸ h
  rw [punctuation?_cons]
  refine hat.bumpChar.bind fun (ch, d) ⟨hch, hd⟩ => ?_
  cases hch
  dsimp only
  cases hfind : Cursor.operators.find? fun p => p.1 = x with
  | some p =>
    have hp := List.find?_some hfind
    obtain rfl := of_decide_eq_true hp
    refine (hd.extend p.2).bind fun (kind, e) ⟨hkind, he⟩ => ?_
    cases hkind
    rw [h.pos_eq, h.line_eq]
    exact he.push_solid (by simp) _
  | none =>
    have hreport := hd.report ("Unexpected character '" ++ String.singleton x ++ "'") s.offset
      s.line (String.singleton x)
    rw [h.pos_eq, h.line_eq]
    cases mode with
    | lossless => exact hreport.push_solid (by simp) .error
    | lossy =>
      refine .pure ⟨_, .refl, hreport.advance, nofun, rfl, State.stop_advance hreport.rest_eq, ?_⟩
      exact Nat.add_le_add_left (byteLength_pos (by simp)) _

/-! ### Block comments -/

private theorem commentEnd_cons {b : Char} {bs : List Char} (hstar : b = '*' → bs.head? ≠ some '/')
    (hline : b ≠ '\n') (c : Cursor src) :
    Cursor.commentEnd (b :: bs) c = c.move 1 >>= Cursor.commentEnd bs := by
  rw [Cursor.commentEnd.eq_def]
  split
  next heq =>
    cases heq
    exact absurd rfl (hstar rfl)
  next heq =>
    cases heq
    exact absurd rfl hline
  next heq =>
    cases heq
    rfl
  next heq => cases heq

private theorem commentEnd_append {front bs : List Char} (hfront : ∀ b ∈ front, ¬ IsAscii b)
    (c : Cursor src) : Cursor.commentEnd (front ++ bs) c =
      c.move front.length >>= Cursor.commentEnd bs := by
  induction front generalizing c with
  | nil =>
    rw [List.length_nil, Cursor.move_zero]
    rfl
  | cons b front ih =>
    rw [List.forall_mem_cons] at hfront
    have hstar : b ≠ '*' := fun hb => hfront.1 (hb ▸ by decide)
    have hline : b ≠ '\n' := fun hb => hfront.1 (hb ▸ by decide)
    rw [List.cons_append, commentEnd_cons (fun hb => absurd hb hstar) hline, List.length_cons,
      Nat.add_comm, ← Cursor.move_move, bind_assoc]
    exact congrArg (c.move 1 >>= ·) (funext (ih hfront.2))

theorem commentEnd (read : List Char) (h : Past mode c s read.reverse rest) :
    Yields (Cursor.commentEnd (bytes rest) c) fun r => r.1 = (Token.blockComment read rest).1 ∧
      Past mode r.2 s (Token.blockComment read rest).2.1 (Token.blockComment read rest).2.2 := by
  fun_induction Token.blockComment read rest generalizing c with
  | case1 read rest =>
    rw [bytes_cons_of_isAscii (by decide), bytes_cons_of_isAscii (by decide)]
    refine (h.move ['*', '/'] (by decide) rfl).bind fun d hd => .pure ⟨rfl, ?_⟩
    simpa using hd
  | case2 read x rest hno ih =>
    rw [List.reverse_cons] at ih
    by_cases hascii : IsAscii x
    · rw [bytes_cons_of_isAscii hascii]
      by_cases hline : x = '\n'
      · subst hline
        rw [Cursor.commentEnd]
        exact h.newline.bind fun d hd => ih hd
      · have hstar : x = '*' → (bytes rest).head? ≠ some '/' := by
          rintro rfl hslash
          rw [head?_bytes_eq_some_iff (by decide)] at hslash
          obtain ⟨ds, rfl⟩ := List.head?_eq_some_iff.1 hslash
          exact hno ds rfl rfl
        rw [commentEnd_cons hstar hline]
        exact (h.moveOne hascii (Ne.symm hline)).bind fun d hd => ih hd
    · have hline : '\n' ≠ x := fun hx => hascii (hx ▸ by decide)
      rw [bytes_cons, commentEnd_append fun b => not_isAscii_of_mem_charBytes hascii]
      exact (h.move [x] (by simpa using hline) (by simp)).bind fun d hd => ih hd
  | case3 read => exact .pure ⟨rfl, h⟩

theorem blockComment {cs : List Char} (h : At mode c s) (hrest : s.rest = '/' :: '*' :: cs) :
    Yields (c.blockComment mode) (Lands mode s (s.offset + 1) (s.lexeme src mode
      (.trivia .blockComment (Token.blockComment ['*', '/'] cs).1
        (Token.blockComment ['*', '/'] cs).2.1 (Token.blockComment ['*', '/'] cs).2.2))) := by
  have hat : Past mode c s [] ('/' :: '*' :: cs) := hrest ▸ h
  refine (hat.move ['/', '*'] (by decide) rfl).bind fun d hd => ?_
  rw [hd.range_eq]
  refine (hd.commentEnd ['*', '/']).bind fun (closed, e) ⟨hclosed, he⟩ => ?_
  dsimp only at hclosed he ⊢
  have hne : (Token.blockComment ['*', '/'] cs).2.1 ≠ [] :=
    Token.blockComment_ne_nil (List.cons_ne_nil _ _)
  have hkind {s' : State} : (s'.trailing && (Trivia.Kind.blockComment == .blank ||
      Trivia.Kind.blockComment == .lineComment)) = false := Bool.and_false _
  rw [h.pos_eq, h.line_eq, ← hclosed]
  cases closed with
  | true => exact he.trivia_solid hne fun _ => hkind
  | false =>
    exact (he.report "Unterminated comment." s.offset s.line "/*").trivia_solid hne fun _ => hkind

end Past

end LimitSyntax.Scan
