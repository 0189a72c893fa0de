import LimitSyntax.Proofs.ByteRules
import LimitSyntax.Proofs.Lookahead

/-!
# Strings over bytes

The rule for strings reads an interpolation by a whole scan of the range inside of it. So the rules
are those of `Scan.Lands` if that scan is: this is what is assumed of it here (`Scan.ReadsRanges`).
-/

namespace LimitSyntax.Scan

open Text

variable {src : Source} {mode : Mode} {c d : Cursor src} {s : State}
  {read taken rest value : List Char} {mark : Char}
  {inner : Cursor src → Except Fault (Cursor src)} {bound : Nat}

/-- Steps from `s` lead to where the cursor stands, at the end of the range. -/
def Ends (mode : Mode) (s : State) (c : Cursor src) : Prop :=
  ∃ s', State.Steps src mode s s' ∧ At mode c s' ∧ s'.rest = [] ∧ s'.waiting = s.waiting ∧
    s'.stop = s.stop

/-- The computation reads every range of fewer than `bound` bytes to its end. -/
def ReadsRanges (mode : Mode) (bound : Nat) (inner : Cursor src → Except Fault (Cursor src)) :
    Prop :=
  ∀ {c : Cursor src} {s : State}, At mode c s → s.Settled mode → byteLength s.rest < bound →
    Yields (inner c) (Ends mode s)

namespace Past

/-! ## Parts of a string -/

theorem unterminated (h : Past mode c s taken rest) (description : String) :
    Yields (c.unterminated mode description s.offset s.line)
      (Lands mode s c.pos (s.unterminated src description s.rest)) := by
  have hreport := h.report description s.offset s.line
    (String.ofList (firstLine s.rest))
  rw [Cursor.unterminated, h.cut_range, ok_bind, String.toList_ofList]
  refine hreport.skipToEnd.bind fun d hd => ?_
  refine (hd.push .error none).mono fun e he => ?_
  rw [← h.rest_eq] at he
  have hle : c.pos ≤ d.pos := (h.report description s.offset s.line _).pos_le hd
  exact he.mono hle

theorem escape {x : Char} (h : Past mode c s taken ('\x5c' :: x :: rest)) (value : List Char) :
    Yields (c.escape value) fun r => r.1 = (Token.unescape x).reverse ++ value ∧
      Past mode r.2 s (taken ++ ['\x5c', x]) rest := by
  refine (h.moveOne (by decide) (by decide)).bind fun d hd => ?_
  refine hd.bumpChar.bind fun (ch, e) ⟨hch, he⟩ => ?_
  cases hch
  exact .pure ⟨rfl, by simpa using he⟩

theorem escape_nil (h : Past mode c s taken ['\x5c']) (value : List Char) :
    Yields (c.escape value) fun r => r.1 = '\x5c' :: value ∧
      Past mode r.2 s (taken ++ ['\x5c']) [] := by
  refine (h.moveOne (by decide) (by decide)).bind fun d hd => ?_
  rw [hd.bumpChar_nil]
  exact .pure ⟨rfl, hd⟩

theorem opensInterpolation {x : Char} (h : Past mode c s taken (x :: rest)) (hmark : IsAscii mark) :
    c.opensInterpolation mark = .ok (x = '{' && Token.opensInterpolation mark rest) := by
  rw [Cursor.opensInterpolation, h.sees_zero_eq (by decide)]
  by_cases hx : x = '{'
  · subst hx
    obtain ⟨d, hmove, hd⟩ := h.moveOne (by decide) (by decide)
    rw [hmove, ok_bind, hd.range_eq, Token.opensInterpolation_bytes hmark]
    simp
    rfl
  · simp [hx]
    rfl

/-- The cursor with another division of the unread text. -/
theorem divide (h : At mode c s) {rest : List Char} {waiting : List Waiting}
    (hremaining : ({ s with rest, waiting } : State).remaining = s.remaining) {stop : Nat}
    (hstop : stop = s.offset + byteLength rest) :
    Yields (c.place c.pos stop) fun d => At mode d { s with rest, waiting } := by
  obtain ⟨before, hsplit, hoffset⟩ := h.split
  have hpos := h.pos_eq
  have hsize : stop ≤ src.text.utf8ByteSize := by
    rw [hstop, src.utf8ByteSize_text, hsplit, ← hremaining, State.remaining, byteLength_append,
      byteLength_append, hoffset, ← Nat.add_assoc]
    exact Nat.le_add_right _ _
  have hbehind : stop = c.pos + byteLength rest := hpos ▸ hstop
  rw [Cursor.place, dif_pos ⟨by omega, hsize⟩]
  exact .pure { h with
    rest_eq := rfl, split := ⟨before, hremaining ▸ hsplit, hoffset⟩
    stop := hbehind, sound := ⟨h.sound.lexemes, h.sound.ranges⟩ }

/-! ## Interpolations -/

theorem interpolation_open (h : At mode c s) (hmark : IsAscii mark)
    (hnone : Token.interpolation? mark s.rest = none) :
    Yields (c.interpolation inner mode mark) fun r => r.1 = false ∧ Lands mode s s.offset
      (s.unterminated src "Unterminated string interpolation." s.rest) r.2 := by
  rw [Cursor.interpolation, h.range_eq, Token.interpolation?_bytes hmark, hnone]
  dsimp only [Option.map_none]
  rw [h.pos_eq, h.line_eq]
  refine (h.unterminated _).bind fun d hd => .pure ⟨rfl, ?_⟩
  rw [← h.pos_eq]
  exact hd

/-- Behind the end of an interpolation the string goes on. -/
theorem interpolation_closed (hinner : ReadsRanges mode bound inner) (h : At mode c s)
    (hmark : IsAscii mark) (hbound : byteLength s.rest ≤ bound) (htrailing : s.trailing = false)
    {text : List Char} (hsome : Token.interpolation? mark s.rest = some (text, rest)) :
    Yields (c.interpolation inner mode mark) fun r => r.1 = true ∧ ∃ t,
      State.Steps src mode { s with rest := text, waiting := ⟨mark, rest⟩ :: s.waiting }
        (t.stretch src mark (Token.stretchFrom mark [] [] rest)) ∧
      At mode r.2 t ∧ t.rest = rest ∧ t.waiting = s.waiting ∧ t.stop = s.stop ∧
      s.offset ≤ t.offset := by
  have hdivides := Token.interpolation?_divides hsome
  have hlength := congrArg byteLength hdivides
  rw [byteLength_append, byteLength_cons_of_isAscii (by decide)] at hlength
  rw [Cursor.interpolation, h.range_eq, Token.interpolation?_bytes hmark, hsome]
  dsimp only [Option.map_some]
  have hopen : ({ s with rest := text, waiting := ⟨mark, rest⟩ :: s.waiting } : State).remaining =
      s.remaining := by
    simp [State.remaining, ← hdivides]
  have hstop : c.pos + (bytes text).length = s.offset + byteLength text := by
    rw [h.pos_eq, length_bytes]
  refine (h.divide hopen hstop).bind fun d hd => ?_
  have hshorter : byteLength text < bound := by omega
  refine (hinner hd (State.settled_of_trailing htrailing) hshorter).bind fun e he => ?_
  obtain ⟨s', hsteps, hat, hrest, hwaiting, hend⟩ := he
  have hclose : ({ s' with rest := '}' :: rest, waiting := s.waiting } : State).remaining =
      s'.remaining := by
    simp [State.remaining, hrest, hwaiting]
  have hoffset : s'.offset = s.offset + byteLength text := by
    simpa [State.stop, hrest] using hend
  have hback : c.stop = s'.offset + byteLength ('}' :: rest) := by
    rw [h.stop, h.pos_eq, byteLength_cons_of_isAscii (by decide)]
    omega
  refine (hat.divide hclose hback).bind fun f hf => ?_
  refine (hf.moveOne (by decide) (by decide)).bind fun g hg => ?_
  rw [hf.pos_eq, hf.line_eq]
  refine (hg.push_bare (.inr (.inr rfl))).bind fun k hk => .pure ⟨rfl, _, ?_, hk, rfl, rfl, ?_, ?_⟩
  · have hleave : s'.step? src mode = some (s'.leave src ⟨mark, rest⟩ s.waiting) := by
      rw [State.step?, hrest, hwaiting]
    exact hsteps.tail hleave
  · rw [State.stop_token hg.rest_eq, State.stop, State.stop,
      byteLength_cons_of_isAscii (by decide)]
    dsimp only
    omega
  · exact Nat.le_trans (hoffset ▸ Nat.le_add_right _ _) (Nat.le_add_right _ _)

/-- A string up to an interpolation, the interpolation, and the string behind it. -/
theorem interpolated (hinner : ReadsRanges mode bound inner) (hmark : IsAscii mark)
    {after : Cursor src → Except Fault (Cursor src)}
    (h : Past mode c s read.reverse ('{' :: rest)) (hbound : byteLength rest ≤ bound)
    (hafter : ∀ {d : Cursor src} {t : State}, At mode d t → byteLength t.rest ≤ byteLength rest →
      Yields (after d)
        (Lands mode t d.pos (t.stretch src mark (Token.stretchFrom mark [] [] t.rest)))) :
    Yields (c.interpolated inner after mode mark s.offset s.line value) (Lands mode s c.pos
      (s.stretch src mark ⟨.opened, ('{' :: read).reverse, value.reverse, rest⟩)) := by
  refine (h.moveOne (by decide) (by decide)).bind fun d hd => ?_
  have hle : c.pos ≤ d.pos := h.pos_le hd
  rw [← List.reverse_cons] at hd
  have hstop : (s.token .interpolationStart ('{' :: read).reverse rest
      (some (String.ofList value.reverse))).stop = s.stop := State.stop_token hd.rest_eq
  refine (hd.push_bare (.inr (.inl rfl))).bind fun e he => ?_
  have hoffset : c.pos ≤ (s.token .interpolationStart ('{' :: read).reverse rest
      (some (String.ofList value.reverse))).offset := Nat.le_trans hle (Nat.le_of_eq hd.pos)
  cases hinside : Token.interpolation? mark rest with
  | none =>
    refine (he.interpolation_open hmark hinside).bind fun (closed, f) ⟨hclosed, hf⟩ => ?_
    cases hclosed
    simp only [State.stretch, hinside]
    exact .pure ((hf.of_home s rfl hstop).mono hoffset)
  | some r =>
    obtain ⟨text, behind⟩ := r
    have hbehind : byteLength behind ≤ byteLength rest := by
      rw [← Token.interpolation?_divides hinside, byteLength_append, byteLength_cons]
      omega
    refine (he.interpolation_closed hinner hmark hbound rfl hinside).bind
      fun (closed, f) ⟨hclosed, t, hsteps, hf, hrest, hwaiting, hend, hlast⟩ => ?_
    cases hclosed
    simp only [State.stretch, hinside]
    have hgo := hafter hf (hrest ▸ hbehind)
    rw [hrest] at hgo
    refine hgo.mono fun g hg => .of_steps ?_ hsteps
    refine (hg.of_home s hwaiting (hend.trans hstop)).mono ?_
    exact Nat.le_trans hoffset (Nat.le_trans hlast (Nat.le_of_eq hf.pos_eq.symm))

/-! ## Strings -/

theorem string (hinner : ReadsRanges mode bound inner) (hmark : Token.isQuote mark = true) {n : Nat}
    (h : Past mode c s read.reverse rest) (hbound : byteLength rest ≤ bound)
    (hn : byteLength rest < n) :
    Yields (Cursor.string inner mode mark n s.offset s.line value c) (Lands mode s c.pos
      (s.stretch src mark (Token.stretchFrom mark read value rest))) := by
  have hascii := Token.isAscii_of_isQuote hmark
  induction n generalizing c s read value rest with
  | zero => omega
  | succ n ih =>
    rw [Cursor.string.eq_def]
    dsimp only
    cases rest with
    | nil =>
      have hrest : s.rest = read.reverse := h.rest_eq.trans (List.append_nil _)
      have hend := h.unterminated "Unterminated string."
      rw [hrest] at hend
      rw [h.peekAt_nil]
      exact hend
    | cons x xs =>
      obtain ⟨b, hb, hpeek⟩ := h.exists_peekAt
      have hshorter : byteLength xs < byteLength (x :: xs) := by
        rw [byteLength_cons]
        exact Nat.lt_add_of_pos_left x.utf8Size_pos
      have hgo {d : Cursor src} (more : List Char) {rest' value' : List Char}
          (hd : Past mode d s (more ++ read).reverse rest')
          (hlt : byteLength rest' < byteLength (x :: xs)) :
          Yields (Cursor.string inner mode mark n s.offset s.line value' d) (Lands mode s c.pos
            (s.stretch src mark (Token.stretchFrom mark (more ++ read) value' rest'))) := by
        refine (ih hd (by omega) (by omega)).mono fun e he => he.mono ?_
        rw [List.reverse_append] at hd
        exact h.pos_le hd
      rw [hpeek]
      dsimp only
      by_cases hclosed : x = mark
      · subst hclosed
        have hline : '\n' ≠ x := by rintro rfl; cases hmark
        have hslash : x ≠ '\x5c' := by rintro rfl; cases hmark
        rw [if_pos ((eq_iff_of_mem_charBytes hb hascii).2 rfl),
          Token.stretchFrom_cons hslash, if_pos rfl, List.reverse_cons]
        refine (h.moveOne hascii hline).bind fun d hd => ?_
        exact (hd.push .string _).mono fun e he => he.mono (h.pos_le hd)
      rw [if_neg fun hbm => hclosed ((eq_iff_of_mem_charBytes hb hascii).1 hbm)]
      by_cases hslash : x = '\x5c'
      · subst hslash
        rw [if_pos ((eq_iff_of_mem_charBytes hb (by decide)).2 rfl)]
        cases xs with
        | nil =>
          refine (h.escape_nil value).bind fun (value', d) ⟨hvalue, hd⟩ => ?_
          cases hvalue
          rw [← List.reverse_cons] at hd
          exact hgo ['\x5c'] hd hshorter
        | cons y ys =>
          refine (h.escape value).bind fun (value', d) ⟨hvalue, hd⟩ => ?_
          cases hvalue
          have hread : (y :: '\x5c' :: read).reverse = read.reverse ++ ['\x5c', y] := by simp
          refine hgo [y, '\x5c'] (hread ▸ hd) (Nat.lt_trans ?_ hshorter)
          rw [byteLength_cons]
          exact Nat.lt_add_of_pos_left y.utf8Size_pos
      rw [if_neg fun hbs => hslash ((eq_iff_of_mem_charBytes hb (by decide)).1 hbs),
        h.opensInterpolation hascii, ok_bind, Token.stretchFrom_cons hslash, if_neg hclosed]
      cases hopen : (decide (x = '{') && Token.opensInterpolation mark xs) with
      | true =>
        rw [Bool.and_eq_true, decide_eq_true_eq] at hopen
        obtain ⟨rfl, -⟩ := hopen
        rw [if_pos rfl, if_pos rfl]
        refine h.interpolated hinner hascii (by omega) fun {d t} hd ht => ?_
        have hempty : Past mode d t ([] : List Char).reverse t.rest := hd
        have hstring : Yields (Cursor.string inner mode mark n t.offset t.line [] d) _ :=
          ih hempty (by omega) (by omega)
        rw [← hd.pos_eq, ← hd.line_eq] at hstring
        exact hstring
      | false =>
        refine h.bumpChar.bind fun (ch, d) ⟨hch, hd⟩ => ?_
        cases hch
        rw [← List.reverse_cons] at hd
        exact hgo [x] hd hshorter

end Past

end LimitSyntax.Scan
