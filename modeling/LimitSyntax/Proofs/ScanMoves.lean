import LimitSyntax.Proofs.Collectors
import LimitSyntax.Proofs.Lexemes
import LimitSyntax.Proofs.Rows
import LimitSyntax.Token.Scan
import Mathlib.Logic.Relation

/-!
# What a step of the scanner does

A step is a row of moves (`Scan.State.Move`): a report, a token or a piece of trivia taken off the
front of the range, a character skipped, or a new division of the unread text into the range and
the texts that wait. Whatever every move keeps is kept by a step (`step?_reads`) and by a scan
(`run_moves`). A step leaves less to read, so that a scan reads everything (`step?_run`).
-/

namespace LimitSyntax

namespace Scan.State

open Relation

/-- The unread text: the range, and behind each closing brace the rest of a string that waits. -/
def remaining (s : State) : List Char := s.rest ++ s.waiting.flatMap fun w => '}' :: w.rest

/-- Something with this description was reported. -/
def Reported (s : State) (description : String) : Prop :=
  ∃ m ∈ s.errors.messages, m.description = description

/-- A change of the scanner from one state to the next. -/
inductive Move (src : Source) (mode : Mode) : State → State → Prop where
  /-- What is shown of the source is the text from here on. -/
  | report (s : State) (description : String) (shown : List Char) (hshown : shown <+: s.rest) :
      Move src mode s (s.report src description s.offset s.line (String.ofList shown))
  /-- Only a string that ends right behind an interpolation leaves a token without text. -/
  | token (s : State) (kind : Token.Kind) (taken rest : List Char) (value : Option String)
      (hrest : s.rest = taken ++ rest) (hkind : kind ≠ .eof)
      (hempty : taken = [] → kind = .error ∧ s.Reported "Unterminated string.") :
      Move src mode s (s.token kind taken rest value)
  | trivia (s : State) (kind : Trivia.Kind) (taken rest : List Char)
      (hrest : s.rest = taken ++ rest) : Move src mode s (s.trivia mode kind taken rest)
  | skip (s : State) (c : Char) (rest : List Char) (hmode : mode = .lossy)
      (hrest : s.rest = c :: rest) : Move src mode s (s.advance [c] rest)
  /-- The unread text is divided anew, at an interpolation that starts or ends. -/
  | divide (s : State) (rest : List Char) (waiting : List Waiting)
      (h : ({ s with rest, waiting } : State).remaining = s.remaining) :
      Move src mode s { s with rest, waiting }

/-- Any number of moves. -/
abbrev Moves (src : Source) (mode : Mode) : State → State → Prop := ReflTransGen (Move src mode)

/-- Any number of steps. -/
abbrev Steps (src : Source) (mode : Mode) : State → State → Prop :=
  ReflTransGen fun s s' => s.step? src mode = some s'

section
variable {src : Source} {mode : Mode} {s s' : State}

/-! ## The unread text -/

/-- The scanner gets from `s` to `s'` past the text `read`. -/
def Behind (s : State) (read : List Char) (s' : State) : Prop :=
  s.remaining = read ++ s'.remaining ∧ s'.offset = s.offset + Text.byteLength read

@[simp] theorem rest_report {description : String} {offset line : Nat} {lexeme : String} :
    (s.report src description offset line lexeme).rest = s.rest := rfl

@[simp] theorem rest_token {kind : Token.Kind} {taken rest : List Char} {value : Option String} :
    (s.token kind taken rest value).rest = rest := rfl

theorem behind_advance {taken rest : List Char} (h : s.rest = taken ++ rest) :
    s.Behind taken (s.advance taken rest) := by
  refine ⟨?_, rfl⟩
  rw [remaining, h, List.append_assoc]
  rfl

theorem behind_token {kind : Token.Kind} {taken rest : List Char} {value : Option String}
    (h : s.rest = taken ++ rest) : s.Behind taken (s.token kind taken rest value) :=
  behind_advance h

theorem behind_trivia {kind : Trivia.Kind} {taken rest : List Char} (h : s.rest = taken ++ rest) :
    s.Behind taken (s.trivia mode kind taken rest) := by
  have hnext := behind_advance h
  cases mode with
  | lossy => exact hnext
  | lossless =>
    simp only [trivia]
    split <;> exact hnext

/-- Moves that read at least `n` characters. -/
structure Reads (src : Source) (mode : Mode) (n : Nat) (s s' : State) : Prop where
  moves : Moves src mode s s'
  length : s'.remaining.length + n ≤ s.remaining.length

namespace Reads

theorem trans {m n : Nat} {s'' : State} (h : Reads src mode m s s') (h' : Reads src mode n s' s'') :
    Reads src mode (m + n) s s'' where
  moves := h.moves.trans h'.moves
  length := by have := h.length; have := h'.length; omega

theorem weaken {m n : Nat} (h : Reads src mode n s s') (hmn : m ≤ n) : Reads src mode m s s' where
  moves := h.moves
  length := by have := h.length; omega

theorem of_move (read : List Char) (h : Move src mode s s') (hb : s.Behind read s') :
    Reads src mode read.length s s' where
  moves := .single h
  length := by rw [hb.1, List.length_append]; omega

theorem report {description : String} (shown : List Char) (h : shown <+: s.rest) :
    Reads src mode 0 s (s.report src description s.offset s.line (String.ofList shown)) :=
  .of_move [] (.report _ _ _ h) ⟨rfl, rfl⟩

theorem token {kind : Token.Kind} {taken rest : List Char} {value : Option String}
    (h : s.rest = taken ++ rest) (hkind : kind ≠ .eof)
    (hempty : taken = [] → kind = .error ∧ s.Reported "Unterminated string.") :
    Reads src mode taken.length s (s.token kind taken rest value) :=
  .of_move taken (.token _ _ _ _ _ h hkind hempty) (behind_token h)

/-- A token that has text. -/
theorem solid {kind : Token.Kind} (taken : List Char) {rest : List Char} {value : Option String}
    (h : s.rest = taken ++ rest) (hkind : kind ≠ .eof) (hne : taken ≠ []) :
    Reads src mode taken.length s (s.token kind taken rest value) :=
  .token h hkind fun hnil => absurd hnil hne

theorem divide {rest : List Char} {waiting : List Waiting}
    (h : ({ s with rest, waiting } : State).remaining = s.remaining) :
    Reads src mode 0 s { s with rest, waiting } :=
  .of_move [] (.divide _ _ _ h) ⟨h.symm, rfl⟩

end Reads

/-! ## One step -/

theorem reported_report (s : State) (src : Source) (description : String) (offset line : Nat)
    (lexeme : String) : (s.report src description offset line lexeme).Reported description :=
  Diagnostic.Collector.exists_mem_report _ _ _

theorem unterminated_reads {description : String} {text : List Char} (h : s.rest = text)
    (hempty : text = [] → description = "Unterminated string.") :
    Reads src mode text.length s (s.unterminated src description text) := by
  rw [← Nat.zero_add text.length]
  have hshown : Text.firstLine text <+: s.rest := h ▸ Text.firstLine_prefix text
  refine (Reads.report _ hshown).trans (.token ?_ (by decide) fun hnil => ?_)
  · simp [h]
  · exact ⟨rfl, hempty hnil ▸ reported_report ..⟩

/-- A stretch of string text is read, and perhaps more. -/
theorem stretch_reads {mark : Char} {piece : Token.Stretch} (hpiece : piece.Divides s.rest) :
    Reads src mode piece.taken.length s (s.stretch src mark piece) := by
  have hrest := hpiece.split.symm
  unfold stretch
  dsimp only
  split
  next h => exact .solid _ hrest (by decide) (hpiece.taken_ne_nil (by simp [h]))
  next h =>
    rw [hpiece.missing h, List.append_nil] at hrest
    exact unterminated_reads hrest fun _ => rfl
  next h =>
    have hstart : Reads src mode piece.taken.length s (s.token .interpolationStart piece.taken
        piece.rest (some (String.ofList piece.value))) :=
      .solid _ hrest (by decide) (hpiece.taken_ne_nil (by simp [h]))
    split
    next inner rest h =>
      refine hstart.trans (n := 0) (.divide ?_)
      simp [remaining, ← Token.interpolation?_divides h]
    next =>
      refine (hstart.trans (unterminated_reads rfl fun hnil => ?_)).weaken (Nat.le_add_right ..)
      exact absurd hnil (hpiece.opened h)

theorem leave_reads {w : Waiting} {outer : List Waiting} (hrest : s.rest = [])
    (hwaiting : s.waiting = w :: outer) : Reads src mode 1 s (s.leave src w outer) := by
  have hdivide : Reads src mode 0 s { s with rest := '}' :: w.rest, waiting := outer } :=
    .divide (by simp [remaining, hrest, hwaiting])
  have hbrace : Reads src mode 1 { s with rest := '}' :: w.rest, waiting := outer }
      ({ s with waiting := outer }.token .interpolationEnd ['}'] w.rest none) :=
    Reads.solid (s := { s with rest := '}' :: w.rest, waiting := outer }) ['}'] rfl
      (by decide) (by simp)
  refine (hdivide.trans hbrace).trans (stretch_reads ?_) |>.weaken ?_
  · exact Token.stretchFrom_divides w.mark [] [] w.rest
  · omega

theorem lexeme_reads {front : Token.Front} (h : front.Divides s.rest) :
    Reads src mode 1 s (s.lexeme src mode front) := by
  cases front with
  | trivia kind closed taken rest =>
    obtain ⟨hne, hrest, hopen⟩ := h
    have hreport : Reads src mode 0 s
        (if closed then s else s.report src "Unterminated comment." s.offset s.line "/*") := by
      cases closed with
      | true => exact ⟨.refl, Nat.le_refl _⟩
      | false => exact .report ['/', '*'] (hopen rfl)
    refine (hreport.trans (.of_move taken (.trivia _ _ _ _ ?_) (behind_trivia ?_))).weaken ?_
    · cases closed <;> exact hrest.symm
    · cases closed <;> exact hrest.symm
    · have := List.length_pos_iff.2 hne
      omega
  | token kind taken rest =>
    obtain ⟨hne, hrest, hplain⟩ := h
    refine (Reads.solid taken hrest.symm ?_ hne).weaken (List.length_pos_iff.2 hne)
    rintro rfl
    cases hplain
  | quote mark rest =>
    refine (stretch_reads ?_).weaken ?_
    · rw [← h]
      exact Token.stretchFrom_divides mark [mark] [] rest
    · exact List.length_pos_iff.2 (Token.stretchFrom_taken_ne_nil (by simp))
  | stray c rest =>
    have hshown : [c] <+: s.rest := ⟨rest, h⟩
    cases mode with
    | lossy =>
      exact (Reads.report [c] hshown).trans
        (.of_move [c] (.skip _ c rest rfl h.symm) (behind_advance h.symm))
    | lossless =>
      refine (Reads.report [c] hshown).trans (n := 1) (Reads.solid [c] h.symm ?_ (by simp))
      decide

theorem step?_reads (h : s.step? src mode = some s') : Reads src mode 1 s s' := by
  unfold step? at h
  split at h
  next c cs hrest =>
    cases h
    exact lexeme_reads (hrest ▸ Token.Front.of_divides c cs)
  next w outer hrest hwaiting =>
    cases h
    exact leave_reads hrest hwaiting
  next => cases h

/-! ## A whole run -/

theorem run_moves (fuel : Nat) (s : State) : Moves src mode s (run src mode fuel s) := by
  induction fuel generalizing s with
  | zero => exact .refl
  | succ fuel ih =>
    rw [run]
    split
    next s' h => exact (step?_reads h).moves.trans (ih s')
    next => exact .refl

theorem ended_of_step? (h : s.step? src mode = none) : s.rest = [] ∧ s.waiting = [] := by
  unfold step? at h
  split at h
  next => cases h
  next => cases h
  next hrest hwaiting => exact ⟨hrest, hwaiting⟩

theorem step?_eq_none (h : s.step? src mode = none) : s.remaining = [] := by
  obtain ⟨hrest, hwaiting⟩ := ended_of_step? h
  simp [remaining, hrest, hwaiting]

/-- With a step for every unread character the scanner comes to its end. -/
theorem step?_run {fuel : Nat} (h : s.remaining.length ≤ fuel) :
    (run src mode fuel s).step? src mode = none := by
  induction fuel generalizing s with
  | zero =>
    rw [run]
    cases hstep : s.step? src mode with
    | none => rfl
    | some s' =>
      have := (step?_reads hstep).length
      omega
  | succ fuel ih =>
    rw [run]
    split
    next s' hstep =>
      have := (step?_reads hstep).length
      exact ih (by omega)
    next hstep => exact hstep

/-- Steps that come to an end are a whole run. -/
theorem run_eq_of_steps (h : Steps src mode s s') (hend : s'.step? src mode = none) {fuel : Nat}
    (hfuel : s.remaining.length ≤ fuel) : run src mode fuel s = s' := by
  induction h using ReflTransGen.head_induction_on generalizing fuel with
  | refl =>
    cases fuel with
    | zero => rfl
    | succ fuel => rw [run, hend]
  | head hstep _ ih =>
    have hless := (step?_reads hstep).length
    cases fuel with
    | zero => omega
    | succ fuel =>
      rw [run, hstep]
      exact ih (by omega)

end

end Scan.State

end LimitSyntax
