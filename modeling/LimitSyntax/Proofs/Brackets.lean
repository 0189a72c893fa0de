import LimitSyntax.Proofs.ScanLossless
import Mathlib.Data.List.Chain

/-!
# Strings as brackets

The kinds of the tokens of a scan make a sequence (`Scan.Sequence`): plain tokens and strings, where
a string (`Scan.Quoted`) has sequences in its interpolations. While the scanner is inside of
interpolations, what it has read makes a sequence once the strings around it are at their ends
(`Scan.Inside`).
-/

namespace LimitSyntax.Scan

mutual

/-- The kinds of tokens in a row: plain tokens and strings. -/
inductive Sequence : List Token.Kind → Prop where
  | nil : Sequence []
  | plain {kind : Token.Kind} {ks : List Token.Kind} (hkind : kind.isPlain = true)
      (h : Sequence ks) : Sequence (kind :: ks)
  | string {string ks : List Token.Kind} (hstring : Quoted string) (h : Sequence ks) :
      Sequence (string ++ ks)

/-- The kinds of the tokens of a string: interpolations, and then its end or an error. -/
inductive Quoted : List Token.Kind → Prop where
  | closed : Quoted [.string]
  | cut : Quoted [.error]
  /-- The last interpolation has no end. -/
  | unclosed : Quoted [.interpolationStart, .error]
  | interpolation {inner rest : List Token.Kind} (hinner : Sequence inner) (hrest : Quoted rest) :
      Quoted (.interpolationStart :: (inner ++ .interpolationEnd :: rest))

end

theorem Quoted.sequence {ks : List Token.Kind} (h : Quoted ks) : Sequence ks := by
  simpa using Sequence.string h .nil

theorem Sequence.append {ks ls : List Token.Kind} : Sequence ks → Sequence ls → Sequence (ks ++ ls)
  | .nil, hl => hl
  | .plain hkind h, hl => .plain hkind (h.append hl)
  | .string hstring h, hl => by
    rw [List.append_assoc]
    exact .string hstring (h.append hl)

/-- Inside of `n` interpolations: the kinds read so far make a sequence once the innermost
interpolation has its end, then the string around it, and so on. -/
def Inside : Nat → List Token.Kind → Prop
  | 0, ks => Sequence ks
  | n + 1, ks => ∀ inner rest, Sequence inner → Quoted rest →
      Inside n (ks ++ inner ++ .interpolationEnd :: rest)

namespace Inside

variable {n : Nat} {ks : List Token.Kind}

theorem append (h : Inside n ks) {ls : List Token.Kind} (hl : Sequence ls) :
    Inside n (ks ++ ls) := by
  cases n with
  | zero => exact Sequence.append h hl
  | succ n =>
    intro inner rest hinner hrest
    rw [List.append_assoc ks]
    exact h _ rest (hl.append hinner) hrest

/-- One more string may be opened. -/
theorem string (h : Inside n ks) : ∀ rest, Quoted rest → Inside n (ks ++ rest) :=
  fun _ hrest => h.append hrest.sequence

/-- The string around an interpolation goes on behind it. -/
theorem leave (h : Inside (n + 1) ks) :
    ∀ rest, Quoted rest → Inside n (ks ++ [.interpolationEnd] ++ rest) := by
  intro rest hrest
  simpa using h [] rest .nil hrest

/-- An interpolation starts where a string may go on. -/
theorem enter (h : ∀ rest, Quoted rest → Inside n (ks ++ rest)) :
    Inside (n + 1) (ks ++ [.interpolationStart]) := by
  intro inner rest hinner hrest
  simpa using h _ (.interpolation hinner hrest)

end Inside

/-! ## The scanner -/

namespace State

variable {src : Source} {mode : Mode} {s : State}

/-- The kinds of the tokens read so far. -/
def kinds (s : State) : List Token.Kind := s.tokens.reverse.map Token.kind

@[simp] theorem kinds_report {description : String} {offset line : Nat} {lexeme : String} :
    (s.report src description offset line lexeme).kinds = s.kinds := rfl

@[simp] theorem kinds_token {kind : Token.Kind} {taken rest : List Char} {value : Option String} :
    (s.token kind taken rest value).kinds = s.kinds ++ [kind] := by
  simp [kinds, token, advance]

@[simp] theorem kinds_divide {rest : List Char} {waiting : List Waiting} :
    ({ s with rest, waiting } : State).kinds = s.kinds := rfl

@[simp] theorem waiting_report {description : String} {offset line : Nat} {lexeme : String} :
    (s.report src description offset line lexeme).waiting = s.waiting := rfl

@[simp] theorem waiting_token {kind : Token.Kind} {taken rest : List Char}
    {value : Option String} : (s.token kind taken rest value).waiting = s.waiting := rfl

@[simp] theorem kinds_attach {p : Trivia} {tokens : List Token} :
    (attach p tokens).map Token.kind = tokens.map Token.kind := by
  cases tokens <;> rfl

@[simp] theorem kinds_trivia {kind : Trivia.Kind} {taken rest : List Char} :
    (s.trivia mode kind taken rest).kinds = s.kinds := by
  cases mode with
  | lossy => rfl
  | lossless =>
    simp only [trivia]
    split
    · simp [kinds, List.map_reverse, advance]
    · rfl

@[simp] theorem waiting_trivia {kind : Trivia.Kind} {taken rest : List Char} :
    (s.trivia mode kind taken rest).waiting = s.waiting := by
  cases mode with
  | lossy => rfl
  | lossless =>
    simp only [trivia]
    split <;> rfl

/-- The kinds read so far are those inside of the interpolations around the range. -/
def Bracketed (s : State) : Prop := Inside s.waiting.length s.kinds

/-- A stretch of string text, where a string may go on. -/
theorem Bracketed.stretch {mark : Char} {piece : Token.Stretch}
    (h : ∀ rest, Quoted rest → Inside s.waiting.length (s.kinds ++ rest)) :
    (s.stretch src mark piece).Bracketed := by
  unfold State.stretch
  dsimp only
  split
  · simpa [Bracketed] using h _ .closed
  · simpa [Bracketed, unterminated] using h _ .cut
  · split
    · simpa [Bracketed] using Inside.enter h
    · simpa [Bracketed, unterminated] using h _ .unclosed

theorem Bracketed.leave (h : s.Bracketed) {w : Waiting} {outer : List Waiting}
    (hwaiting : s.waiting = w :: outer) : (s.leave src w outer).Bracketed := by
  rw [Bracketed, hwaiting, List.length_cons] at h
  refine Bracketed.stretch fun rest hrest => ?_
  simpa using h.leave rest hrest

theorem Bracketed.lexeme (h : s.Bracketed) {front : Token.Front} (hfront : front.Divides s.rest) :
    (s.lexeme src mode front).Bracketed := by
  cases front with
  | trivia kind closed taken rest =>
    cases closed <;> simpa [State.lexeme, Bracketed] using h
  | token kind taken rest =>
    have hplain : Sequence [kind] := .plain hfront.2.2 .nil
    simpa [State.lexeme, Bracketed] using h.append hplain
  | quote mark rest => exact Bracketed.stretch h.string
  | stray c rest =>
    cases mode with
    | lossy => exact h
    | lossless => simpa [State.lexeme, Bracketed] using h.append Quoted.cut.sequence

theorem Bracketed.step? (h : s.Bracketed) {s' : State} (hstep : s.step? src mode = some s') :
    s'.Bracketed := by
  unfold State.step? at hstep
  split at hstep
  next c cs hrest =>
    cases hstep
    exact h.lexeme (hrest ▸ Token.Front.of_divides c cs)
  next w outer _ hwaiting =>
    cases hstep
    exact h.leave hwaiting
  next => cases hstep

theorem Bracketed.run (h : s.Bracketed) (fuel : Nat) : (State.run src mode fuel s).Bracketed := by
  induction fuel generalizing s with
  | zero => exact h
  | succ fuel ih =>
    rw [State.run]
    split
    next s' hstep => exact ih (h.step? hstep)
    next => exact h

theorem waiting_of_step?_eq_none (h : s.step? src mode = none) : s.waiting = [] := by
  unfold State.step? at h
  split at h
  · cases h
  · cases h
  · assumption

end State

/-- The kinds of the tokens of a scan, the end left out. -/
theorem sequence_scan (src : Source) (mode : Mode) (errors : Diagnostic.Collector) :
    ∃ ts e, (scan src mode errors).1.tokens = ts ++ [e] ∧ e.kind = .eof ∧
      Sequence (ts.map Token.kind) := by
  refine ⟨_, _, tokens_scan src mode errors, rfl, ?_⟩
  have hend : (State.atEnd src mode errors).Bracketed := by
    refine State.Bracketed.run ?_ _
    exact Sequence.nil
  rw [State.Bracketed, State.waiting_of_step?_eq_none (step?_atEnd src mode errors)] at hend
  exact hend

/-! ## What follows an interpolation -/

/-- Kinds in a row: behind the end of an interpolation the string goes on. -/
def Continues (kind next : Token.Kind) : Prop :=
  kind = .interpolationEnd → next = .interpolationStart ∨ next = .string ∨ next = .error

theorem continues_of_ne {kind next : Token.Kind} (h : kind ≠ .interpolationEnd) :
    Continues kind next := fun hkind => absurd hkind h

/-- A string starts with an interpolation, or it has none. -/
theorem Quoted.head {ks : List Token.Kind} (h : Quoted ks) :
    ∃ kind rest, ks = kind :: rest ∧
      (kind = .interpolationStart ∨ kind = .string ∨ kind = .error) := by
  cases h with
  | closed => exact ⟨_, _, rfl, .inr (.inl rfl)⟩
  | cut => exact ⟨_, _, rfl, .inr (.inr rfl)⟩
  | unclosed => exact ⟨_, _, rfl, .inl rfl⟩
  | interpolation => exact ⟨_, _, rfl, .inl rfl⟩

theorem isChain_cons_of_ne {kind : Token.Kind} {ks : List Token.Kind}
    (h : kind ≠ .interpolationEnd) (hks : ks.IsChain Continues) : (kind :: ks).IsChain Continues :=
  List.isChain_cons.2 ⟨fun _ _ => continues_of_ne h, hks⟩

theorem ne_interpolationEnd_of_isPlain {kind : Token.Kind} (h : kind.isPlain = true) :
    kind ≠ .interpolationEnd := by
  rintro rfl
  cases h

mutual

theorem Sequence.isChain {ks rest : List Token.Kind} (hrest : rest.IsChain Continues) :
    Sequence ks → (ks ++ rest).IsChain Continues
  | .nil => hrest
  | .plain hkind h => isChain_cons_of_ne (ne_interpolationEnd_of_isPlain hkind) (h.isChain hrest)
  | .string hstring h => by
    rw [List.append_assoc]
    exact hstring.isChain (h.isChain hrest)

theorem Quoted.isChain {ks rest : List Token.Kind} (hrest : rest.IsChain Continues) :
    Quoted ks → (ks ++ rest).IsChain Continues
  | .closed => isChain_cons_of_ne (by decide) hrest
  | .cut => isChain_cons_of_ne (by decide) hrest
  | .unclosed => isChain_cons_of_ne (by decide) (isChain_cons_of_ne (by decide) hrest)
  | .interpolation hinner htail => by
    rw [List.cons_append, List.append_assoc]
    refine isChain_cons_of_ne (by decide) (hinner.isChain ?_)
    have hnext := htail.isChain hrest
    obtain ⟨kind, more, rfl, hkind⟩ := htail.head
    exact .cons_cons (fun _ => hkind) hnext

end

/-- In a scan a string goes on behind the end of every interpolation. -/
theorem isChain_scan (src : Source) (mode : Mode) (errors : Diagnostic.Collector) :
    ((scan src mode errors).1.tokens.map Token.kind).IsChain Continues := by
  obtain ⟨ts, e, htokens, he, hsequence⟩ := sequence_scan src mode errors
  rw [htokens, List.map_append]
  exact hsequence.isChain (.singleton _)

end LimitSyntax.Scan
