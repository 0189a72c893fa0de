import LimitSyntax.Proofs.Places

/-!
# Where tokens come from

A token of a scan is the front of the range in which it stands, a string, or a part of a string with
interpolations (`Token.Traced`). So whatever holds of all fronts of texts holds of the tokens of all
sources (`Scan.traced_scan`), inside of interpolations as well.
-/

namespace LimitSyntax

/-- The text stands behind `offset` bytes of the source, in front of its end or a closing brace. -/
def Source.Ranges (src : Source) (offset : Nat) (text : List Char) : Prop :=
  ∃ before after, src.text.toList = before ++ text ++ after ∧ Text.byteLength before = offset ∧
    ∀ c ∈ after.head?, c = '}'

namespace Token

/-- How a token was read that stands among the tokens `ts`, in any order. -/
inductive Traced (src : Source) (ts : List Token) (t : Token) : Prop where
  /-- It is the front of a range. -/
  | front {c : Char} {cs rest : List Char}
      (hfront : Front.of c cs = .token t.kind t.lexeme.toList rest) (hvalue : t.value = none)
      (hrange : src.Ranges t.span.start (c :: cs))
  /-- It is a string, and there is no interpolation in it. -/
  | string {mark : Char} {text value rest : List Char} (hmark : isQuote mark = true)
      (hstretch : stretchFrom mark [mark] [] text = ⟨.closed, t.lexeme.toList, value, rest⟩)
      (hkind : t.kind = .string) (hvalue : t.value = some (String.ofList value))
  /-- It is the text of a string in front of an interpolation. -/
  | before (hkind : t.kind = .interpolationStart) (hvalue : t.value.isSome = true)
  /-- It is the text of a string behind its last interpolation. -/
  | behind {u : Token} (hu : u ∈ ts) (hend : u.kind = .interpolationEnd) (hkind : t.kind = .string)
      (hvalue : t.value.isSome = true)
  /-- It is the end of an interpolation, or an error. -/
  | other (hkind : (t.kind = .interpolationEnd ∧ t.lexeme.toList = ['}']) ∨ t.kind = .error)
      (hvalue : t.value = none)

namespace Traced

variable {src : Source} {ts us : List Token} {t : Token}

/-- The tokens around it may be others of the same kinds. -/
theorem mono (h : t.Traced src ts) (hsub : ∀ u ∈ ts, ∃ v ∈ us, v.kind = u.kind) :
    t.Traced src us := by
  cases h with
  | front hfront hvalue hrange => exact .front hfront hvalue hrange
  | string hmark hstretch hkind hvalue => exact .string hmark hstretch hkind hvalue
  | before hkind hvalue => exact .before hkind hvalue
  | behind hu hend hkind hvalue =>
    obtain ⟨v, hv, hsame⟩ := hsub _ hu
    exact .behind hv (hsame.trans hend) hkind hvalue
  | other hkind hvalue => exact .other hkind hvalue

/-- What stands behind a token as trivia does not matter. -/
theorem attach (h : t.Traced src ts) (trailing : List Trivia) :
    ({ t with trailing } : Token).Traced src ts := by
  cases h with
  | front hfront hvalue hrange => exact .front hfront hvalue hrange
  | string hmark hstretch hkind hvalue => exact .string hmark hstretch hkind hvalue
  | before hkind hvalue => exact .before hkind hvalue
  | behind hu hend hkind hvalue => exact .behind hu hend hkind hvalue
  | other hkind hvalue => exact .other hkind hvalue

end Traced

theorem Front.isQuote_of_eq_quote {c mark : Char} {cs rest : List Char}
    (h : Front.of c cs = .quote mark rest) : isQuote mark = true := by
  unfold Front.of at h
  iterate 4
    split at h
    next => cases h
  split at h
  next hquote =>
    cases h
    exact hquote
  iterate 4
    split at h
    next => cases h
  cases h

end Token

namespace Scan

namespace State

variable {src : Source} {mode : Mode} {s s' : State}

theorem mem_attach {p : Trivia} {ts : List Token} {t : Token} (h : t ∈ attach p ts) :
    ∃ u ∈ ts, ∃ trailing, t = { u with trailing } := by
  cases ts with
  | nil => cases h
  | cons u us =>
    rcases List.mem_cons.1 h with rfl | h
    · exact ⟨u, List.mem_cons_self, _, rfl⟩
    · exact ⟨t, List.mem_cons_of_mem _ h, t.trailing, rfl⟩

theorem exists_mem_attach {p : Trivia} {ts : List Token} {u : Token} (h : u ∈ ts) :
    ∃ t ∈ attach p ts, t.kind = u.kind := by
  cases ts with
  | nil => cases h
  | cons v vs =>
    rcases List.mem_cons.1 h with rfl | h
    · exact ⟨_, List.mem_cons_self, rfl⟩
    · exact ⟨u, List.mem_cons_of_mem _ h, rfl⟩

/-- The range is a text that stands in the source. -/
theorem Reached.ranges (h : s.Reached src) : src.Ranges s.offset s.rest := by
  obtain ⟨read, hread, hoffset, -⟩ := h
  refine ⟨read, _, hread.trans (List.append_assoc ..).symm, hoffset, fun c hc => ?_⟩
  cases hwaiting : s.waiting with
  | nil =>
    rw [hwaiting] at hc
    cases hc
  | cons w outer =>
    rw [hwaiting] at hc
    cases hc
    rfl

/-- All tokens read so far are traced. -/
def Traced (src : Source) (s : State) : Prop := ∀ t ∈ s.tokens, t.Traced src s.tokens

namespace Traced

theorem token (h : s.Traced src) {kind : Token.Kind} {taken rest : List Char}
    {value : Option String} (hnew : ∀ t : Token, t.kind = kind → t.lexeme.toList = taken → t.value = value →
      t.span.start = s.offset → t.Traced src (t :: s.tokens)) :
    (s.token kind taken rest value).Traced src := by
  refine List.forall_mem_cons.2 ⟨hnew _ rfl String.toList_ofList rfl rfl, fun t ht => ?_⟩
  exact (h t ht).mono fun u hu => ⟨u, List.mem_cons_of_mem _ hu, rfl⟩

theorem error (h : s.Traced src) (taken rest : List Char) :
    (s.token .error taken rest none).Traced src :=
  h.token fun _ hkind _ hvalue _ => .other (.inr hkind) hvalue

theorem unterminated (h : s.Traced src) (description : String) (text : List Char) :
    (s.unterminated src description text).Traced src :=
  error (s := s.report ..) h text []

theorem trivia (h : s.Traced src) (kind : Trivia.Kind) (taken rest : List Char) :
    (s.trivia mode kind taken rest).Traced src := by
  cases mode with
  | lossy => exact h
  | lossless =>
    simp only [State.trivia]
    split
    · intro t ht
      obtain ⟨u, hu, trailing, rfl⟩ := mem_attach ht
      exact ((h u hu).attach trailing).mono fun v hv => exists_mem_attach hv
    · exact h

theorem stretch (h : s.Traced src) {mark : Char} {piece : Token.Stretch}
    (hclosed : piece.ending = .closed → ∀ t : Token, t.kind = .string →
      t.lexeme.toList = piece.taken → t.value = some (String.ofList piece.value) →
        t.Traced src (t :: s.tokens)) : (s.stretch src mark piece).Traced src := by
  unfold State.stretch
  dsimp only
  split
  next hending =>
    exact h.token fun t hkind hlexeme hvalue _ => hclosed hending t hkind hlexeme hvalue
  next => exact h.unterminated _ _
  next =>
    have hstart : (s.token .interpolationStart piece.taken piece.rest
        (some (String.ofList piece.value))).Traced src :=
      h.token fun t hkind _ hvalue _ => .before hkind (hvalue ▸ rfl)
    split
    · exact hstart
    · exact hstart.unterminated _ _

/-- The string around an interpolation goes on. -/
theorem leave (h : s.Traced src) (w : Waiting) (outer : List Waiting) :
    (s.leave src w outer).Traced src := by
  have hbrace :
      ({ s with waiting := outer }.token .interpolationEnd ['}'] w.rest none).Traced src :=
    token (s := { s with waiting := outer }) h fun _ hkind hlexeme hvalue _ =>
      .other (.inl ⟨hkind, hlexeme⟩) hvalue
  refine hbrace.stretch fun _ t hkind _ hvalue => ?_
  exact .behind (List.mem_cons_of_mem _ List.mem_cons_self) rfl hkind (hvalue ▸ rfl)

theorem lexeme (h : s.Traced src) {c : Char} {cs : List Char}
    (hrange : src.Ranges s.offset (c :: cs)) :
    (s.lexeme src mode (.of c cs)).Traced src := by
  cases hfront : Token.Front.of c cs with
  | trivia kind closed taken rest =>
    cases closed with
    | true => exact h.trivia kind taken rest
    | false => exact trivia (s := s.report ..) h kind taken rest
  | token kind taken rest =>
    refine h.token fun t hkind hlexeme hvalue hstart => ?_
    have hread : Token.Front.of c cs = .token t.kind t.lexeme.toList rest := by
      rw [hkind, hlexeme, hfront]
    exact .front hread hvalue (hstart ▸ hrange)
  | quote mark rest =>
    have hmark := Token.Front.isQuote_of_eq_quote hfront
    refine h.stretch fun hending t hkind hlexeme hvalue => ?_
    have hstretch : Token.stretchFrom mark [mark] [] rest = ⟨.closed, t.lexeme.toList,
        (Token.stretchFrom mark [mark] [] rest).value,
        (Token.stretchFrom mark [mark] [] rest).rest⟩ := by
      rw [hlexeme, ← hending]
    exact .string hmark hstretch hkind hvalue
  | stray c rest =>
    cases mode with
    | lossy => exact h
    | lossless => exact error (s := s.report ..) h [c] rest

theorem step? (h : s.Traced src) (hreached : s.Reached src) (hstep : s.step? src mode = some s') :
    s'.Traced src := by
  unfold State.step? at hstep
  split at hstep
  next c cs hrest =>
    cases hstep
    exact h.lexeme (hrest ▸ hreached.ranges)
  next w outer _ hwaiting =>
    cases hstep
    exact h.leave w outer
  next => cases hstep

theorem run (h : s.Traced src) (hplaced : s.Placed src) (fuel : Nat) :
    (State.run src mode fuel s).Traced src := by
  induction fuel generalizing s with
  | zero => exact h
  | succ fuel ih =>
    rw [State.run]
    split
    next s' hstep =>
      exact ih (h.step? hplaced.reached hstep) (hplaced.moves (step?_reads hstep).moves)
    next => exact h

end Traced

end State

theorem traced_atEnd (src : Source) (mode : Mode) (errors : Diagnostic.Collector) :
    (State.atEnd src mode errors).Traced src := by
  refine State.Traced.run ?_ ?_ _
  · exact List.forall_mem_nil _
  · exact ⟨⟨[], by simp [State.remaining], rfl, rfl⟩, by simp, by simp, .nil, by simp⟩

/-- Every token of a scan but its end is traced. -/
theorem traced_scan {src : Source} {mode : Mode} {errors : Diagnostic.Collector} {t : Token}
    (ht : t ∈ (scan src mode errors).1.tokens) :
    t.Traced src (scan src mode errors).1.tokens ∨ t = (State.atEnd src mode errors).eof src := by
  rw [tokens_scan] at ht ⊢
  rcases List.mem_append.1 ht with ht | ht
  · have htraced := traced_atEnd src mode errors t (List.mem_reverse.1 ht)
    exact .inl (htraced.mono fun u hu => ⟨u, List.mem_append_left _ (List.mem_reverse.2 hu), rfl⟩)
  · exact .inr (List.mem_singleton.1 ht)

end Scan

end LimitSyntax
