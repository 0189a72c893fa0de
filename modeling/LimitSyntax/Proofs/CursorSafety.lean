import LimitSyntax.Proofs.ByteStrings

/-!
# Scanning by bytes is safe

A scanner that reads a source by bytes makes of it what the scanner over texts does
(`Scan.cursor_safe`). It never faults: no place is outside of its range, no slice outside of the
source or inside of a character. Every call of the rule for a lexeme moves on within an unchanged
range, and every range is read exactly to its end.
-/

namespace LimitSyntax.Scan

open Text

variable {src : Source} {mode : Mode} {c d : Cursor src} {s s' : State}
  {inner : Cursor src → Except Fault (Cursor src)} {bound : Nat}

/-! ## One lexeme -/

namespace Past

/-- Blanks and line comments at a settled place belong to the next token. -/
private theorem not_trailing (hsettled : s.Settled mode) (htrails : s.TrailsOn) (b : Bool) :
    mode = .lossless → (s.trailing && b) = false := by
  intro hmode
  cases htrailing : s.trailing with
  | false => rfl
  | true => exact absurd htrails (hsettled hmode htrailing)

/-- A run of trivia. -/
theorem run (h : At mode c s) (hsettled : s.Settled mode) (htrails : s.TrailsOn)
    {p : Char → Bool} (hp : Uniform p) (hline : p '\n' = false) (hne : s.rest.takeWhile p ≠ [])
    (kind : Trivia.Kind) :
    Yields (c.skipWhile p >>= fun d => d.trivia mode kind c.pos)
      (Lands mode s (s.offset + 1) (s.lexeme src mode (.ofRun kind (s.rest.span p)))) := by
  rw [h.pos_eq, List.span_eq_takeWhile_dropWhile]
  refine (h.skipWhile hp hline).bind fun d hd => ?_
  exact hd.trivia_solid hne (not_trailing hsettled htrails _)

theorem newlineTrivia {cs : List Char} (h : At mode c s) (hrest : s.rest = '\n' :: cs) :
    Yields (c.newline >>= fun d => d.trivia mode .newline c.pos)
      (Lands mode s (s.offset + 1) (s.lexeme src mode (.trivia .newline true ['\n'] cs))) := by
  have hat : Past mode c s [] ('\n' :: cs) := hrest ▸ h
  rw [h.pos_eq]
  exact hat.newline.bind fun d hd => hd.trivia_solid (List.cons_ne_nil _ _) fun _ =>
    Bool.and_false _

theorem quote (hinner : ReadsRanges mode bound inner) (h : At mode c s) {mark : Char}
    {cs : List Char} (hmark : Token.isQuote mark = true) (hrest : s.rest = mark :: cs)
    (hbound : byteLength s.rest ≤ bound) :
    Yields (c.move 1 >>= Cursor.string inner mode mark (c.range.length + 1) c.pos c.line [])
      (Lands mode s (s.offset + 1) (s.lexeme src mode (.quote mark cs))) := by
  have hat : Past mode c s [] (mark :: cs) := hrest ▸ h
  have hascii := Token.isAscii_of_isQuote hmark
  have hline : '\n' ≠ mark := by
    rintro rfl
    cases hmark
  have hlength : byteLength s.rest = byteLength cs + 1 := by
    rw [hrest, byteLength_cons_of_isAscii hascii]
  rw [h.range_eq, length_bytes, h.pos_eq, h.line_eq]
  refine (hat.moveOne hascii hline).bind fun d hd => ?_
  have hread : Past mode d s [mark].reverse cs := hd
  refine (hread.string hinner hmark (by omega) (by omega)).mono fun e he => he.mono ?_
  rw [hd.pos, List.nil_append, byteLength_cons_of_isAscii hascii]
  rfl

theorem lexeme (hinner : ReadsRanges mode bound inner) (h : At mode c s)
    (hsettled : s.Settled mode) {x : Char} {xs : List Char} (hrest : s.rest = x :: xs)
    (hbound : byteLength s.rest ≤ bound) :
    Yields (Cursor.lexeme inner mode c)
      (Lands mode s (s.offset + 1) (s.lexeme src mode (.of x xs))) := by
  have hat : Past mode c s [] (x :: xs) := hrest ▸ h
  obtain ⟨b, hb, hpeek⟩ := hat.exists_peekAt
  have hclass {p : Char → Bool} (hp : Uniform p) : p b = p x := hp.of_mem_charBytes hb
  have hdivides := Token.Front.of_divides x xs
  -- Both scanners ask the same questions in the same order, the one about the first character and the
  -- other about its first byte: no class has a byte of a longer character.
  rw [Cursor.lexeme, hpeek]
  dsimp only
  unfold Token.Front.of at hdivides ⊢
  by_cases hblank : Token.isBlank x = true
  · rw [if_pos hblank, ← hrest]
    rw [if_pos ((hclass Token.uniform_isBlank).trans hblank)]
    exact h.run hsettled ⟨x, xs, hrest, .inl hblank⟩ Token.uniform_isBlank (by decide)
      (by simp [hrest, hblank]) .blank
  rw [if_neg hblank] at hdivides ⊢
  rw [if_neg (hclass Token.uniform_isBlank ▸ hblank)]
  by_cases hfeed : x = '\n'
  · subst hfeed
    rw [if_pos rfl, if_pos ((eq_iff_of_mem_charBytes hb (by decide)).2 rfl)]
    exact h.newlineTrivia hrest
  rw [if_neg hfeed] at hdivides ⊢
  rw [if_neg fun hbf => hfeed ((eq_iff_of_mem_charBytes hb (by decide)).1 hbf),
    hat.atComment (by decide)]
  by_cases hcomment : x = '/' ∧ xs.head? = some '/'
  · rw [if_pos hcomment, ← hrest, if_pos (decide_eq_true hcomment)]
    exact h.run hsettled ⟨x, xs, hrest, .inr hcomment⟩ (.ne (by decide)) (by decide)
      (by simp [hrest, hfeed]) .lineComment
  rw [if_neg hcomment] at hdivides ⊢
  rw [if_neg (by simpa using hcomment), hat.atComment (by decide)]
  by_cases hopen : x = '/' ∧ xs.head? = some '*'
  · rw [if_pos hopen, if_pos (decide_eq_true hopen)]
    obtain ⟨rfl, hstar⟩ := hopen
    obtain ⟨ys, rfl⟩ := List.head?_eq_some_iff.1 hstar
    exact h.blockComment hrest
  rw [if_neg hopen] at hdivides ⊢
  rw [if_neg (by simpa using hopen)]
  by_cases hquote : Token.isQuote x = true
  · obtain rfl : b = x :=
      (eq_iff_of_mem_charBytes hb (Token.isAscii_of_isQuote hquote)).2 rfl
    rw [if_pos hquote, if_pos hquote]
    exact h.quote hinner hquote hrest hbound
  rw [if_neg hquote] at hdivides ⊢
  rw [if_neg (hclass Token.uniform_isQuote ▸ hquote)]
  by_cases hdigit : x.isDigit = true
  · rw [if_pos hdigit, ← hrest] at hdivides ⊢
    rw [if_pos ((hclass Token.uniform_isDigit).trans hdigit)]
    exact h.number hdivides.1
  rw [if_neg hdigit] at hdivides ⊢
  rw [if_neg (hclass Token.uniform_isDigit ▸ hdigit)]
  by_cases hword : Token.isWordStart x = true
  · rw [if_pos hword, ← hrest] at hdivides ⊢
    rw [if_pos ((hclass Token.uniform_isWordStart).trans hword)]
    exact h.word hdivides.1
  rw [if_neg hword, if_neg (hclass Token.uniform_isWordStart ▸ hword)]
  by_cases hsign : x = '@'
  · subst hsign
    rw [if_pos rfl, if_pos ((eq_iff_of_mem_charBytes hb (by decide)).2 rfl)]
    exact h.annotation hrest
  rw [if_neg hsign, if_neg fun hbs => hsign ((eq_iff_of_mem_charBytes hb (by decide)).1 hbs)]
  exact h.operator hrest

end Past

/-! ## Ranges -/

/-- A call of the rule for a lexeme that comes to a later place of the range. -/
theorem At.keepLexeme (h : At mode c s) (hat : At mode d s') (hstop : s'.stop = s.stop)
    (hlater : s.offset + 1 ≤ s'.offset) : At mode (Cursor.keepLexeme c d) s' := by
  have hend : d.stop = c.stop := by rw [hat.stop_eq, h.stop_eq, hstop]
  have hmoved : c.pos < d.pos := by
    rw [h.pos_eq, hat.pos_eq]
    exact hlater
  have hreads : (⟨c.toPlace, d.toPlace⟩ : Call src).Reads := {
    started := Nat.lt_of_lt_of_le hmoved (hend ▸ d.pos_le_stop)
    moved := hmoved
    stop_eq := hend
    valid := by
      simp only [List.forall_mem_cons, List.not_mem_nil, false_implies, implies_true, and_true]
      exact ⟨h.isValid_pos, h.isValid_stop, hat.isValid_pos, hat.isValid_stop⟩ }
  exact { hat with sound := ⟨List.forall_mem_cons.2 ⟨hreads, hat.sound.lexemes⟩, hat.sound.ranges⟩ }

/-- A call of the loop over a range that comes to the end of the range. -/
theorem Ends.keepRange (h : At mode c s) (hd : Ends mode s d) :
    Ends mode s (Cursor.keepRange c d) := by
  obtain ⟨s', hsteps, hat, hrest, hwaiting, hstop⟩ := hd
  have hend : d.stop = c.stop := by rw [hat.stop_eq, h.stop_eq, hstop]
  have hpos : d.pos = d.stop := by
    rw [hat.stop, hrest]
    rfl
  have hfinishes : (⟨c.toPlace, d.toPlace⟩ : Call src).Finishes := ⟨hpos.trans hend, hend⟩
  refine ⟨s', hsteps, ?_, hrest, hwaiting, hstop⟩
  exact { hat with
    sound := ⟨hat.sound.lexemes, List.forall_mem_cons.2 ⟨hfinishes, hat.sound.ranges⟩⟩ }

/-- The loop comes to the end of its range, if it may take a turn for each byte and one more. -/
theorem loop_ends {n : Nat} (h : At mode c s) (hsettled : s.Settled mode)
    (hn : byteLength s.rest < n) : Yields (Cursor.loop mode n c) (Ends mode s) := by
  induction n generalizing c s with
  | zero => omega
  | succ n ih =>
    rw [Cursor.loop]
    have hstop := h.stop
    cases hrest : s.rest with
    | nil =>
      rw [hrest, byteLength_nil] at hstop
      rw [if_neg (by omega)]
      exact .pure ⟨s, .refl, h, hrest, rfl, rfl⟩
    | cons x xs =>
      have hpos : 0 < byteLength s.rest := byteLength_pos (by simp [hrest])
      -- What is left of the fuel is enough for the range of an interpolation: it is shorter than the
      -- range around it, which begins with the quotation mark.
      have hinner : ReadsRanges mode n fun e : Cursor src => do
          return Cursor.keepRange e (← Cursor.loop mode n e) := fun hat hset hlt =>
        (ih hat hset hlt).bind fun f hf => .pure (hf.keepRange hat)
      rw [if_pos (by omega)]
      refine (h.lexeme hinner hsettled hrest (by omega)).bind fun d hd => ?_
      obtain ⟨s', hsteps, hat, hset, hwaiting, hend, hlater⟩ := hd
      have hshorter : byteLength s'.rest < n := by
        rw [State.stop, State.stop] at hend
        omega
      refine (ih (At.keepLexeme h hat hend hlater) hset hshorter).mono fun e he => ?_
      obtain ⟨t, hsteps', hlast, htrest, htwaiting, htstop⟩ := he
      have hfirst : State.Steps src mode s s' := .head (State.step?_of_rest hrest) hsteps
      exact ⟨t, hfirst.trans hsteps', hlast, htrest, htwaiting.trans hwaiting, htstop.trans hend⟩

/-! ## Sources -/

theorem at_start (src : Source) (mode : Mode) (errors : Diagnostic.Collector) :
    At mode (Cursor.start src errors) { rest := src.text.toList, errors } where
  rest_eq := rfl
  split := ⟨[], by simp [State.remaining], rfl⟩
  pos := rfl
  stop := src.utf8ByteSize_text.trans (Nat.zero_add _).symm
  line := rfl
  tokens := rfl
  pending := rfl
  errors := rfl
  sound := ⟨nofun, nofun⟩

theorem result_eq {errors : Diagnostic.Collector}
    (h : At mode c (State.atEnd src mode errors)) : c.result mode = scan src mode errors := by
  rw [Cursor.result, h.tokens, h.pending, h.errors, h.line_eq, src.utf8ByteSize_text]
  rfl

/-- The lexeme of the end of an interpolation. -/
theorem lexeme_of_interpolationEnd {errors : Diagnostic.Collector} {t : Token}
    (ht : t ∈ (scan src mode errors).1.tokens) (hkind : t.kind = .interpolationEnd) :
    t.lexeme = "\x7d" := by
  rcases traced_scan ht with htraced | rfl
  · cases htraced with
    | @front c cs rest hfront =>
      have hdivides := Token.Front.of_divides c cs
      rw [hfront, hkind] at hdivides
      cases hdivides.2.2
    | string _ _ hstring => cases hkind.symm.trans hstring
    | before hstart => cases hkind.symm.trans hstart
    | behind _ _ hstring => cases hkind.symm.trans hstring
    | other hother =>
      rcases hother with ⟨-, hlexeme⟩ | herror
      · exact String.toList_inj.1 hlexeme
      · cases hkind.symm.trans herror
  · cases hkind

/-- Reading by bytes is safe, and it makes no difference: the scanner comes to the end of every
source without a fault and with the tokens and the reports of a scan. Each of its calls for a lexeme
moves on within its range and leaves the range as it is, from a place between characters to another;
each range is read to its end, where an interpolation has its closing brace. -/
theorem cursor_safe (src : Source) (mode : Mode) (errors : Diagnostic.Collector) :
    ∃ c, Cursor.run src mode errors = .ok c ∧ c.result mode = scan src mode errors ∧
      c.pos = src.text.utf8ByteSize ∧ (∀ call ∈ c.lexemes, call.Reads) ∧
      (∀ call ∈ c.ranges, call.Finishes) ∧
      ∀ t ∈ (scan src mode errors).1.tokens, t.kind = .interpolationEnd → t.lexeme = "\x7d" := by
  have hstart := at_start src mode errors
  have hfuel : byteLength src.text.toList < src.text.utf8ByteSize + 1 := by
    rw [src.utf8ByteSize_text]
    exact Nat.lt_succ_self _
  have hrun : Yields (Cursor.run src mode errors) (Ends mode { rest := src.text.toList, errors }) :=
    (loop_ends hstart (State.settled_of_trailing rfl) hfuel).bind fun d hd =>
      .pure (hd.keepRange hstart)
  obtain ⟨c, hrun, s', hsteps, hat, hrest, hwaiting, hstop⟩ := hrun
  have hend : s'.step? src mode = none := by
    rw [State.step?, hrest, hwaiting]
  have heq : State.atEnd src mode errors = s' :=
    State.run_eq_of_steps hsteps hend (by simp [State.remaining])
  have hpos : c.pos = c.stop := by
    rw [hat.stop, hrest]
    rfl
  have hsize : c.stop = src.text.utf8ByteSize := by
    rw [hat.stop_eq, hstop, ← hstart.stop_eq]
    rfl
  exact ⟨c, hrun, result_eq (heq ▸ hat), hpos.trans hsize, hat.sound.lexemes, hat.sound.ranges,
    fun t => lexeme_of_interpolationEnd⟩

end LimitSyntax.Scan
