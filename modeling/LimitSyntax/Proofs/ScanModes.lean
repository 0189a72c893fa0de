import LimitSyntax.Proofs.Parsers
import LimitSyntax.Proofs.ScanLossless

/-!
# The two scan modes

A lossy and a lossless scan of one source go in step (`Scan.State.Agrees`): they are at the same
place, have reported the same errors, and the tokens of the lossy scan are those of the lossless
one without trivia, some error tokens left out (`Scan.Thinned`). Only characters that start no token
are left out, and each of them is reported (`Scan.agrees_atEnd`).
-/

namespace LimitSyntax

/-! ## Reports -/

namespace Diagnostic

/-- The message is about a character that starts no token. -/
def Message.NamesStray (m : Message) : Prop :=
  "Unexpected character".toList <+: m.description.toList

instance (m : Message) : Decidable m.NamesStray :=
  inferInstanceAs (Decidable (_ <+: _))

end Diagnostic

namespace Scan

/-! ## Tokens without trivia -/

/-- The tokens `us` are the tokens `ts` without trivia, some error tokens left out. -/
inductive Thinned : List Token → List Token → Prop where
  | nil : Thinned [] []
  | keep (t : Token) {ts us : List Token} (h : Thinned ts us) : Thinned (t :: ts) (t.bare :: us)
  | drop {t : Token} (ht : t.kind = .error) {ts us : List Token} (h : Thinned ts us) :
      Thinned (t :: ts) us

/-- Trivia behind the last token makes no difference. -/
theorem Thinned.attach {ts us : List Token} (h : Thinned ts us) (p : Trivia) :
    Thinned (State.attach p ts) us := by
  cases h with
  | nil => exact .nil
  | keep t h => exact .keep { t with trailing := t.trailing ++ [p] } h
  | @drop t ht _ _ h => exact .drop (t := { t with trailing := t.trailing ++ [p] }) ht h

theorem Thinned.sublist {ts us : List Token} (h : Thinned ts us) :
    us.Sublist (ts.map Token.bare) := by
  induction h with
  | nil => exact .slnil
  | keep t _ ih => exact ih.cons_cons t.bare
  | @drop t _ _ _ _ ih => exact ih.cons t.bare

/-- Without the error tokens nothing is left out. -/
theorem Thinned.filter_ne_error {ts us : List Token} (h : Thinned ts us) :
    us.filter (·.kind != .error) = (ts.map Token.bare).filter (·.kind != .error) := by
  induction h with
  | nil => rfl
  | keep t _ ih => rw [List.map_cons, List.filter_cons, List.filter_cons, ih]
  | @drop t ht _ _ _ ih =>
    have herror : (t.bare.kind != .error) = false := by simp [Token.bare, ht]
    rw [List.map_cons, List.filter_cons, herror, if_neg Bool.false_ne_true, ih]

theorem map_bare_attach (p : Trivia) (ts : List Token) :
    (State.attach p ts).map Token.bare = ts.map Token.bare := by
  cases ts with
  | nil => rfl
  | cons t ts => rfl

/-! ## Scans in step -/

namespace State

/-- A lossless scanner `s` and a lossy one are at the same place. As long as no stray character was
reported they have read the same tokens. -/
inductive Agrees (s : State) : State → Prop where
  | intro (us : List Token) (trailing : Bool) (hthin : Thinned s.tokens us)
      (hsame : (∀ m ∈ s.errors.messages, ¬ m.NamesStray) → us = s.tokens.map Token.bare) :
      Agrees s { s with tokens := us, pending := [], trailing }

namespace Agrees

variable {src : Source} {s s' : State}

theorem offset (h : Agrees s s') : s'.offset = s.offset := by cases h; rfl

theorem line (h : Agrees s s') : s'.line = s.line := by cases h; rfl

theorem errors (h : Agrees s s') : s'.errors = s.errors := by cases h; rfl

theorem report (h : Agrees s s') (description : String) (offset line : Nat) (lexeme : String) :
    Agrees (s.report src description offset line lexeme)
      (s'.report src description offset line lexeme) := by
  obtain ⟨us, trailing, hthin, hsame⟩ := h
  refine .intro us trailing hthin fun hnone => ?_
  exact hsame fun m hm => hnone m (Diagnostic.Collector.messages_subset_report _ _ _ m hm)

theorem token (h : Agrees s s') (kind : Token.Kind) (taken rest : List Char)
    (value : Option String) :
    Agrees (s.token kind taken rest value) (s'.token kind taken rest value) := by
  obtain ⟨us, trailing, hthin, hsame⟩ := h
  refine .intro _ _ (.keep _ hthin) fun hnone => ?_
  rw [hsame hnone]
  rfl

theorem trivia (h : Agrees s s') (kind : Trivia.Kind) (taken rest : List Char) :
    Agrees (s.trivia .lossless kind taken rest) (s'.trivia .lossy kind taken rest) := by
  obtain ⟨us, trailing, hthin, hsame⟩ := h
  simp only [State.trivia]
  split
  next =>
    refine .intro us trailing (hthin.attach _) fun hnone => ?_
    rw [map_bare_attach, hsame hnone]
  next => exact .intro us trailing hthin hsame

/-- Both go into the same interpolation. -/
theorem enter (h : Agrees s s') (inner : List Char) (w : Waiting) :
    Agrees { s with rest := inner, waiting := w :: s.waiting }
      { s' with rest := inner, waiting := w :: s'.waiting } := by
  obtain ⟨us, trailing, hthin, hsame⟩ := h
  exact .intro us trailing hthin hsame

/-- A stray character is an error token of one scan and is left out of the other. -/
theorem stray (h : Agrees s s') (c : Char) (rest : List Char) {description : String}
    (hstray : "Unexpected character".toList <+: description.toList) (offset line : Nat)
    (lexeme : String) :
    Agrees ((s.report src description offset line lexeme).token .error [c] rest none)
      ((s'.report src description offset line lexeme).advance [c] rest) := by
  obtain ⟨us, trailing, hthin, hsame⟩ := h
  refine .intro us trailing (.drop rfl hthin) fun hnone => ?_
  obtain ⟨m, hm, hdescription⟩ := Diagnostic.Collector.exists_mem_report s.errors _ (some src.text)
  refine absurd ?_ (hnone m hm)
  rw [Diagnostic.Message.NamesStray, hdescription]
  exact hstray

/-! ## One step -/

theorem unterminated (h : Agrees s s') (description : String) (text : List Char) :
    Agrees (s.unterminated src description text) (s'.unterminated src description text) := by
  simp only [State.unterminated, h.offset, h.line]
  exact (h.report ..).token ..

theorem stretch (h : Agrees s s') (mark : Char) (piece : Token.Stretch) :
    Agrees (s.stretch src mark piece) (s'.stretch src mark piece) := by
  simp only [State.stretch]
  split
  next => exact h.token ..
  next => exact h.unterminated ..
  next =>
    have hstart := h.token .interpolationStart piece.taken piece.rest
      (some (String.ofList piece.value))
    split
    next inner rest _ => exact hstart.enter inner ⟨mark, rest⟩
    next => exact hstart.unterminated ..

theorem leave (h : Agrees s s') (w : Waiting) (outer : List Waiting) :
    Agrees (s.leave src w outer) (s'.leave src w outer) := by
  have houter : Agrees { s with waiting := outer } { s' with waiting := outer } := by
    obtain ⟨us, trailing, hthin, hsame⟩ := h
    exact .intro us trailing hthin hsame
  exact (houter.token ..).stretch ..

theorem lexeme (h : Agrees s s') (front : Token.Front) :
    Agrees (s.lexeme src .lossless front) (s'.lexeme src .lossy front) := by
  cases front with
  | trivia kind closed taken rest =>
    cases closed with
    | true => exact h.trivia kind taken rest
    | false =>
      simp only [State.lexeme, h.offset, h.line]
      exact (h.report ..).trivia kind taken rest
  | token kind taken rest => exact h.token kind taken rest none
  | quote mark rest => exact h.stretch mark _
  | stray c rest =>
    simp only [State.lexeme, h.offset, h.line]
    refine h.stray c rest ?_ _ _ _
    rw [String.toList_append, String.toList_append, List.append_assoc]
    exact .trans (by decide) (List.prefix_append ..)

theorem step? (h : Agrees s s') :
    Option.Rel Agrees (s.step? src .lossless) (s'.step? src .lossy) := by
  have hrest : s'.rest = s.rest := by cases h; rfl
  have hwaiting : s'.waiting = s.waiting := by cases h; rfl
  simp only [State.step?, hrest, hwaiting]
  split
  next => exact .some (h.lexeme _)
  next => exact .some (h.leave ..)
  next => exact .none

/-! ## A whole scan -/

theorem run (h : Agrees s s') (fuel : Nat) :
    Agrees (State.run src .lossless fuel s) (State.run src .lossy fuel s') := by
  induction fuel generalizing s s' with
  | zero => exact h
  | succ fuel ih =>
    have hstep : Option.Rel Agrees (s.step? src .lossless) (s'.step? src .lossy) := h.step?
    rw [State.run, State.run]
    cases hs : s.step? src .lossless <;> cases hs' : s'.step? src .lossy <;> rw [hs, hs'] at hstep
    · exact h
    · cases hstep
    · cases hstep
    · cases hstep with | some hnext => exact ih hnext

end Agrees

end State

theorem agrees_atEnd (src : Source) (errors : Diagnostic.Collector) :
    (State.atEnd src .lossless errors).Agrees (State.atEnd src .lossy errors) :=
  State.Agrees.run (.intro [] false .nil fun _ => rfl) _

/-- Both modes report the same errors. -/
theorem errors_scan_lossy (src : Source) (errors : Diagnostic.Collector) :
    (scan src .lossy errors).2 = (scan src .lossless errors).2 := by
  rw [errors_scan, errors_scan]
  exact (agrees_atEnd src errors).errors

/-- If no stray character is reported, the modes differ in trivia only. -/
theorem tokens_scan_lossy (src : Source) (errors : Diagnostic.Collector)
    (h : ∀ m ∈ (scan src .lossless errors).2.messages, ¬ m.NamesStray) :
    (scan src .lossy errors).1.tokens = (scan src .lossless errors).1.tokens.map Token.bare := by
  have hagrees := agrees_atEnd src errors
  rw [errors_scan] at h
  rw [tokens_scan, tokens_scan]
  generalize State.atEnd src .lossy errors = s' at hagrees ⊢
  obtain ⟨us, trailing, -, hsame⟩ := hagrees
  simp [hsame h, State.eof, Token.bare, Token.eof]

/-- The lossy scan ends with the tokens of the lossless one, some error tokens left out, and both
end at the same place. -/
theorem thinned_scan (src : Source) (errors : Diagnostic.Collector) :
    ∃ ts us eof, (scan src .lossless errors).1.tokens = ts.reverse ++ [eof] ∧
      (scan src .lossy errors).1.tokens = us.reverse ++ [eof.bare] ∧ Thinned ts us := by
  have hagrees := agrees_atEnd src errors
  rw [tokens_scan, tokens_scan]
  generalize State.atEnd src .lossy errors = s' at hagrees ⊢
  obtain ⟨us, trailing, hthin, -⟩ := hagrees
  exact ⟨_, us, _, rfl, rfl, hthin⟩

/-- The two modes agree: the tokens of the lossy scan are, in their order, tokens of the lossless
one without trivia; only error tokens are left out; and both scans report the same. -/
theorem scan_modes_agree (src : Source) (errors : Diagnostic.Collector) :
    (scan src .lossy errors).1.tokens.Sublist
      ((scan src .lossless errors).1.tokens.map Token.bare) ∧
    (scan src .lossy errors).1.tokens.filter (·.kind != .error) =
      ((scan src .lossless errors).1.tokens.map Token.bare).filter (·.kind != .error) ∧
    (scan src .lossy errors).2 = (scan src .lossless errors).2 := by
  obtain ⟨ts, us, eof, hlossless, hlossy, hthin⟩ := thinned_scan src errors
  refine ⟨?_, ?_, errors_scan_lossy src errors⟩
  · rw [hlossless, hlossy, List.map_append, List.map_reverse]
    exact hthin.sublist.reverse.append (List.Sublist.refl _)
  · rw [hlossless, hlossy, List.map_append, List.map_reverse, List.filter_append,
      List.filter_append, List.filter_reverse, List.filter_reverse, hthin.filter_ne_error]
    rfl

end Scan

end LimitSyntax
