import LimitSyntax.Proofs.Origins
import Mathlib.Data.List.TakeWhile

/-!
# What a scan reports

Words, numbers and punctuation stand on one line (`Token.Front.newline_not_mem`). What a scan says
of a text that cannot be divided into tokens stands on one line as well, and so does what it shows
of that text (`Scan.explained_scan`). An error token goes over several lines only if a string is
reported as cut off (`Scan.accounted_scan`).
-/

namespace LimitSyntax

open Diagnostic

/-! ## Lexemes of one line -/

namespace Token

theorem newline_not_mem_takeWhile {p : Char → Bool} (hp : p '\n' = false) (cs : List Char) :
    '\n' ∉ cs.takeWhile p := by
  intro hmem
  rw [List.mem_takeWhile_imp hmem] at hp
  cases hp

theorem newline_not_mem_fraction (cs : List Char) : '\n' ∉ (fraction cs).1 := by
  unfold fraction
  split
  · simp only [List.span_eq_takeWhile_dropWhile]
    split
    · exact List.not_mem_nil
    · simp [newline_not_mem_takeWhile]
  · exact List.not_mem_nil

theorem newline_not_mem_sign (cs : List Char) : '\n' ∉ (sign cs).1 := by
  unfold sign
  split <;> simp

theorem newline_not_mem_exponent (cs : List Char) : '\n' ∉ (exponent cs).1 := by
  unfold exponent
  split
  next c cs =>
    simp only [List.span_eq_takeWhile_dropWhile]
    split
    next hmark =>
      have hc : '\n' ≠ c := by
        rintro rfl
        exact absurd hmark (by decide)
      split
      · exact List.not_mem_nil
      · simp [hc, newline_not_mem_sign, newline_not_mem_takeWhile]
    next => exact List.not_mem_nil
  next => exact List.not_mem_nil

theorem newline_not_mem_timeUnit (cs : List Char) : '\n' ∉ (timeUnit cs).1 := by
  have hunits : ∀ unit ∈ timeUnits, '\n' ∉ unit := by decide
  unfold timeUnit
  split
  next unit hfind => exact hunits unit (List.mem_of_find?_eq_some hfind)
  next => exact List.not_mem_nil

theorem newline_not_mem_number (cs : List Char) : '\n' ∉ (number cs).2.1 := by
  simp only [number, List.span_eq_takeWhile_dropWhile, List.mem_append, not_or]
  exact ⟨⟨⟨newline_not_mem_takeWhile (by decide) _, newline_not_mem_fraction _⟩,
    newline_not_mem_exponent _⟩, newline_not_mem_timeUnit _⟩

theorem newline_not_mem_word (cs : List Char) : '\n' ∉ (word cs).2.1 := by
  simp only [word, List.span_eq_takeWhile_dropWhile]
  exact newline_not_mem_takeWhile (by decide) cs

theorem newline_not_mem_atWord (cs : List Char) : '\n' ∉ (atWord cs).2.1 := by
  simp only [atWord, List.span_eq_takeWhile_dropWhile]
  split
  · simpa using newline_not_mem_takeWhile (by decide) cs
  · simp

theorem newline_not_mem_punctuation {cs taken rest : List Char} {kind : Kind}
    (h : punctuation? cs = some (kind, taken, rest)) : '\n' ∉ taken := by
  have hall : ∀ p ∈ punctuation, '\n' ∉ p.1 := by decide
  obtain ⟨p, hfind, heq⟩ := Option.map_eq_some_iff.1 h
  cases heq
  exact hall p (List.mem_of_find?_eq_some hfind)

/-- A front that is neither trivia nor a string has no line feed in it. -/
def Front.OneLine : Front → Prop
  | .token _ taken _ => '\n' ∉ taken
  | .stray c _ => c ≠ '\n'
  | _ => True

theorem Front.of_oneLine (c : Char) (cs : List Char) : (Front.of c cs).OneLine := by
  unfold Front.of
  split
  next => trivial
  split
  next => trivial
  next hfeed =>
    split
    next => trivial
    split
    next => trivial
    split
    next => trivial
    split
    next => exact newline_not_mem_number _
    split
    next => exact newline_not_mem_word _
    split
    next => exact newline_not_mem_atWord _
    split
    next r hr => exact newline_not_mem_punctuation hr
    next => exact hfeed

/-- A token stands on one line unless it is a string, its beginning, or an error. -/
theorem Traced.oneLine {src : Source} {ts : List Token} {t : Token} (h : t.Traced src ts) :
    Text.OneLine t.lexeme ∨ t.kind = .string ∨ t.kind = .interpolationStart ∨ t.kind = .error := by
  cases h with
  | @front c cs _ hfront =>
    have hline := Front.of_oneLine c cs
    rw [hfront] at hline
    exact .inl hline
  | string _ _ hkind | behind _ _ hkind => exact .inr (.inl hkind)
  | before hkind => exact .inr (.inr (.inl hkind))
  | other hkind =>
    rcases hkind with ⟨-, hlexeme⟩ | hkind
    · refine .inl ?_
      rw [Text.OneLine, hlexeme]
      decide
    · exact .inr (.inr (.inr hkind))

end Token

namespace Scan

/-- A token of a scan stands on one line unless it is a string, its beginning, or an error. -/
theorem oneLine_scan {src : Source} {mode : Mode} {errors : Collector} {t : Token}
    (ht : t ∈ (scan src mode errors).1.tokens) :
    Text.OneLine t.lexeme ∨ t.kind = .string ∨ t.kind = .interpolationStart ∨ t.kind = .error := by
  rcases traced_scan ht with htraced | rfl
  · exact htraced.oneLine
  · exact .inl List.not_mem_nil

/-! ## Reports -/

/-- What is said of a text that cannot be divided into tokens. -/
def Reason (description : String) : Prop :=
  description ∈ ["Unterminated string.", "Unterminated string interpolation.",
    "Unterminated comment."] ∨
  ∃ c, c ≠ '\n' ∧ description = "Unexpected character '" ++ String.singleton c ++ "'"

theorem oneLine_singleton {c : Char} (h : c ≠ '\n') : Text.OneLine (String.singleton c) := by
  rw [Text.OneLine, String.toList_singleton, List.mem_singleton]
  exact h.symm

theorem Reason.oneLine {description : String} (h : Reason description) :
    Text.OneLine description := by
  rcases h with h | ⟨c, hc, rfl⟩
  · revert description
    decide
  · exact .append (.append (by decide) (oneLine_singleton hc)) (by decide)

/-- The message is one of a scan. -/
structure Explained (src : Source) (m : Message) : Prop where
  reason : Reason m.description
  file : m.file = src.file
  token : Text.OneLine m.token

namespace State

/-- All that was reported is of that kind. -/
def Explained (src : Source) (s : State) : Prop :=
  ∀ m ∈ s.errors.messages, Scan.Explained src m

namespace Explained

variable {src : Source} {mode : Mode} {s s' : State}

theorem report (h : s.Explained src) {description lexeme : String} (hreason : Reason description)
    (hlexeme : Text.OneLine lexeme) (offset line : Nat) :
    (s.report src description offset line lexeme).Explained src := by
  intro m hm
  rcases Collector.of_mem_report hm with hm | ⟨_, rfl⟩
  · exact h m hm
  · exact ⟨hreason, rfl, hlexeme⟩

theorem trivia (h : s.Explained src) (kind : Trivia.Kind) (taken rest : List Char) :
    (s.trivia mode kind taken rest).Explained src := by
  cases mode with
  | lossy => exact h
  | lossless =>
    simp only [State.trivia]
    split <;> exact h

theorem unterminated (h : s.Explained src) {description : String} (hreason : Reason description)
    (text : List Char) : (s.unterminated src description text).Explained src := by
  have hshown : Text.OneLine (String.ofList (Text.firstLine text)) := by
    rw [Text.OneLine, String.toList_ofList]
    exact Text.not_mem_firstLine text
  exact h.report hreason hshown _ _

theorem stretch (h : s.Explained src) (mark : Char) (piece : Token.Stretch) :
    (s.stretch src mark piece).Explained src := by
  unfold State.stretch
  dsimp only
  split
  next => exact h
  next => exact h.unterminated (.inl (by decide)) _
  next =>
    split
    next => exact h
    next => exact unterminated (s := s.token ..) h (.inl (by decide)) _

theorem lexeme (h : s.Explained src) {front : Token.Front} (hfront : front.OneLine) :
    (s.lexeme src mode front).Explained src := by
  cases front with
  | trivia kind closed taken rest =>
    cases closed with
    | true => exact h.trivia kind taken rest
    | false => exact (h.report (.inl (by decide)) (by decide) _ _).trivia kind taken rest
  | token => exact h
  | quote mark rest => exact h.stretch mark _
  | stray c rest =>
    have hreport := h.report (.inr ⟨c, hfront, rfl⟩) (oneLine_singleton hfront) s.offset s.line
    cases mode with
    | lossy => exact hreport
    | lossless => exact hreport

theorem step? (h : s.Explained src) (hstep : s.step? src mode = some s') : s'.Explained src := by
  unfold State.step? at hstep
  split at hstep
  next =>
    cases hstep
    exact h.lexeme (Token.Front.of_oneLine ..)
  next w outer _ _ =>
    cases hstep
    exact stretch (s := State.token { s with waiting := outer } ..) h _ _
  next => cases hstep

theorem run (h : s.Explained src) (fuel : Nat) : (State.run src mode fuel s).Explained src := by
  induction fuel generalizing s with
  | zero => exact h
  | succ fuel ih =>
    rw [State.run]
    split
    next s' hstep => exact ih (h.step? hstep)
    next => exact h

end Explained

end State

/-- What a scan reports stands on one line, and so does what it shows of the source. -/
theorem explained_scan (src : Source) (mode : Mode) (options : Options) :
    ∀ m ∈ (scan src mode { options }).2.messages, Explained src m := by
  rw [errors_scan]
  exact State.Explained.run (by simp [State.Explained]) _

/-! ## Error tokens -/

/-- What is said of a string that is cut off, in its text or in an interpolation. -/
def cutOff : List String := ["Unterminated string.", "Unterminated string interpolation."]

namespace State

/-- An error token of more than one line is the text of a string that was reported as cut off. -/
def Accounted (s : State) : Prop :=
  ∀ t ∈ s.tokens, t.kind = .error → Text.OneLine t.lexeme ∨ ∃ d ∈ cutOff, s.Reported d

namespace Accounted

variable {src : Source} {mode : Mode} {s s' : State}

theorem report (h : s.Accounted) (description : String) (offset line : Nat) (lexeme : String) :
    (s.report src description offset line lexeme).Accounted := by
  intro t ht hkind
  exact (h t ht hkind).imp_right fun ⟨d, hd, hsaid⟩ => ⟨d, hd, hsaid.report ..⟩

theorem token (h : s.Accounted) {kind : Token.Kind} {taken rest : List Char}
    {value : Option String}
    (hnew : kind = .error → '\n' ∉ taken ∨ ∃ d ∈ cutOff, s.Reported d) :
    (s.token kind taken rest value).Accounted := by
  refine List.forall_mem_cons.2 ⟨fun hkind => ?_, h⟩
  rw [Text.OneLine, String.toList_ofList]
  exact hnew hkind

theorem trivia (h : s.Accounted) (kind : Trivia.Kind) (taken rest : List Char) :
    (s.trivia mode kind taken rest).Accounted := by
  cases mode with
  | lossy => exact h
  | lossless =>
    simp only [State.trivia]
    split
    · intro t ht hkind
      obtain ⟨u, hu, _, rfl⟩ := mem_attach ht
      exact h u hu hkind
    · exact h

theorem unterminated (h : s.Accounted) {description : String} (hcut : description ∈ cutOff)
    (text : List Char) : (s.unterminated src description text).Accounted :=
  token (h.report _ _ _ _) fun _ => .inr ⟨description, hcut, reported_report ..⟩

theorem stretch (h : s.Accounted) (mark : Char) (piece : Token.Stretch) :
    (s.stretch src mark piece).Accounted := by
  unfold State.stretch
  dsimp only
  split
  next => exact h.token nofun
  next => exact h.unterminated (by decide) _
  next =>
    have hstart : (s.token .interpolationStart piece.taken piece.rest
        (some (String.ofList piece.value))).Accounted := h.token nofun
    split
    next => exact hstart
    next => exact hstart.unterminated (by decide) _

theorem lexeme (h : s.Accounted) {front : Token.Front} (hfront : front.OneLine)
    (hdivides : front.Divides s.rest) : (s.lexeme src mode front).Accounted := by
  cases front with
  | trivia kind closed taken rest =>
    cases closed with
    | true => exact h.trivia kind taken rest
    | false => exact (h.report _ _ _ _).trivia kind taken rest
  | token kind taken rest =>
    refine h.token fun hkind => ?_
    have hplain := hdivides.2.2
    rw [hkind] at hplain
    cases hplain
  | quote mark rest => exact h.stretch mark _
  | stray c rest =>
    cases mode with
    | lossy => exact h.report _ _ _ _
    | lossless =>
      refine token (h.report _ _ _ _) fun _ => .inl ?_
      rw [List.mem_singleton]
      exact Ne.symm hfront

theorem step? (h : s.Accounted) (hstep : s.step? src mode = some s') : s'.Accounted := by
  unfold State.step? at hstep
  split at hstep
  next c cs hrest =>
    cases hstep
    exact h.lexeme (Token.Front.of_oneLine c cs) (hrest ▸ Token.Front.of_divides c cs)
  next w outer _ _ =>
    cases hstep
    have hbrace : ({ s with waiting := outer }.token .interpolationEnd ['}'] w.rest none).Accounted :=
      token (s := { s with waiting := outer }) h nofun
    exact hbrace.stretch _ _
  next => cases hstep

theorem run (h : s.Accounted) (fuel : Nat) : (State.run src mode fuel s).Accounted := by
  induction fuel generalizing s with
  | zero => exact h
  | succ fuel ih =>
    rw [State.run]
    split
    next s' hstep => exact ih (h.step? hstep)
    next => exact h

end Accounted

end State

/-- An error token of a scan stands on one line, unless a string is reported as cut off. -/
theorem accounted_scan {src : Source} {mode : Mode} {errors : Collector} {t : Token}
    (ht : t ∈ (scan src mode errors).1.tokens) (hkind : t.kind = .error) :
    Text.OneLine t.lexeme ∨
      ∃ m ∈ (scan src mode errors).2.messages, m.description ∈ cutOff := by
  rw [tokens_scan] at ht
  rw [errors_scan]
  rcases List.mem_append.1 ht with ht | ht
  · have hrun : (State.atEnd src mode errors).Accounted :=
      State.Accounted.run (by simp [State.Accounted]) _
    refine (hrun t (List.mem_reverse.1 ht) hkind).imp_right fun ⟨d, hd, m, hm, hsaid⟩ => ?_
    exact ⟨m, hm, hsaid ▸ hd⟩
  · cases List.mem_singleton.1 ht
    cases hkind

end Scan

end LimitSyntax
