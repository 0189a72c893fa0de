import LimitSyntax.Proofs.DeclRules
import LimitSyntax.Proofs.ErrorsReported

/-!
# Excerpts make no difference

How errors are shown decides which excerpt a message is kept with, and nothing else. A scan or a
parse that is run again with other options reads the same tokens, yields the same, and reports the
same apart from the excerpts (`Grammar.Blind`).
-/

namespace LimitSyntax

/-! ## Collectors -/

namespace Diagnostic

/-- The message without its excerpt. -/
def Message.bare (m : Message) : Message := { m with excerpt := [] }

/-- The same was reported, in the same order. -/
def Collector.Like (c c' : Collector) : Prop :=
  c.messages.toList.map Message.bare = c'.messages.toList.map Message.bare

namespace Collector

variable {c c' : Collector}

theorem Like.size (h : c.Like c') : c.size = c'.size := by
  simpa [Collector.size] using congrArg List.length h

theorem Like.seen (h : c.Like c') (m : Message) : c.seen m = c'.seen m := by
  have hbare : ∀ c : Collector,
      c.seen m = (c.messages.toList.map Message.bare).any (·.key == m.key) := by
    intro c
    rw [Collector.seen_eq_any, List.any_map]
    rfl
  rw [hbare, hbare, h]

theorem bare_complete (c : Collector) (m : Message) (source : Option String) :
    (c.complete m source).bare = m.bare := by
  obtain ⟨rows, heq⟩ := c.complete_eq m source
  rw [heq]
  rfl

theorem Like.report (h : c.Like c') (m : Message) (source : Option String) :
    (c.report m source).Like (c'.report m source) := by
  rw [report_eq_ite, report_eq_ite, ← h.seen]
  split
  next => exact h
  next =>
    simp only [Like, add, Array.toList_push, List.map_append, List.map_singleton, bare_complete]
    rw [h]

end Collector

end Diagnostic

open Diagnostic

/-! ## Scans -/

namespace Scan.State

/-- The same place in a scan that has reported the same. -/
inductive Like (s : State) : State → Prop where
  | intro (c : Collector) (h : s.errors.Like c) : Like s { s with errors := c }

namespace Like

variable {src : Source} {mode : Mode} {s s' : State}

theorem report (h : Like s s') (description : String) (lexeme : String) :
    Like (s.report src description s.offset s.line lexeme)
      (s'.report src description s'.offset s'.line lexeme) := by
  obtain ⟨c, h⟩ := h
  exact .intro _ (h.report _ _)

theorem token (h : Like s s') (kind : Token.Kind) (taken rest : List Char)
    (value : Option String) :
    Like (s.token kind taken rest value) (s'.token kind taken rest value) := by
  obtain ⟨c, h⟩ := h
  exact .intro c h

theorem advance (h : Like s s') (taken rest : List Char) :
    Like (s.advance taken rest) (s'.advance taken rest) := by
  obtain ⟨c, h⟩ := h
  exact .intro c h

theorem trivia (h : Like s s') (kind : Trivia.Kind) (taken rest : List Char) :
    Like (s.trivia mode kind taken rest) (s'.trivia mode kind taken rest) := by
  obtain ⟨c, h⟩ := h
  cases mode with
  | lossy => exact .intro c h
  | lossless =>
    simp only [State.trivia]
    split <;> exact .intro c h

theorem unterminated (h : Like s s') (description : String) (text : List Char) :
    Like (s.unterminated src description text) (s'.unterminated src description text) :=
  (h.report description _).token ..

theorem stretch (h : Like s s') (mark : Char) (piece : Token.Stretch) :
    Like (s.stretch src mark piece) (s'.stretch src mark piece) := by
  simp only [State.stretch]
  split
  next => exact h.token ..
  next => exact h.unterminated ..
  next =>
    have hstart := h.token .interpolationStart piece.taken piece.rest
      (some (String.ofList piece.value))
    split
    next inner rest _ =>
      obtain ⟨c, h⟩ := h
      exact .intro c h
    next => exact hstart.unterminated ..

theorem lexeme (h : Like s s') (front : Token.Front) :
    Like (s.lexeme src mode front) (s'.lexeme src mode front) := by
  cases front with
  | trivia kind closed taken rest =>
    cases closed with
    | true => exact h.trivia kind taken rest
    | false => exact (h.report "Unterminated comment." "/*").trivia kind taken rest
  | token kind taken rest => exact h.token kind taken rest none
  | quote mark rest => exact h.stretch mark _
  | stray c rest =>
    let description := "Unexpected character '" ++ String.singleton c ++ "'"
    have hreport : Like (s.report src description s.offset s.line (String.singleton c))
        (s'.report src description s'.offset s'.line (String.singleton c)) := h.report ..
    cases mode with
    | lossy => exact hreport.advance [c] rest
    | lossless => exact hreport.token .error [c] rest none

theorem step? (h : Like s s') : Option.Rel Like (s.step? src mode) (s'.step? src mode) := by
  have hrest : s'.rest = s.rest := by cases h; rfl
  have hwaiting : s'.waiting = s.waiting := by cases h; rfl
  simp only [State.step?, hrest, hwaiting]
  split
  next => exact .some (h.lexeme _)
  next w outer _ _ =>
    have houter : Like { s with waiting := outer } { s' with waiting := outer } := by
      obtain ⟨c, h⟩ := h
      exact .intro c h
    exact .some ((houter.token ..).stretch ..)
  next => exact .none

theorem run (h : Like s s') (fuel : Nat) :
    Like (State.run src mode fuel s) (State.run src mode fuel s') := by
  induction fuel generalizing s s' with
  | zero => exact h
  | succ fuel ih =>
    have hstep : Option.Rel Like (s.step? src mode) (s'.step? src mode) := h.step?
    rw [State.run, State.run]
    cases hs : s.step? src mode <;> cases hs' : s'.step? src mode <;> rw [hs, hs'] at hstep
    · exact h
    · cases hstep
    · cases hstep
    · cases hstep with | some hnext => exact ih hnext

end Like

end Scan.State

/-- A scan reads the same tokens and reports the same. -/
theorem Scan.scan_like {c c' : Collector} (h : c.Like c') (src : Source) (mode : Mode) :
    (scan src mode c).1 = (scan src mode c').1 ∧ (scan src mode c).2.Like (scan src mode c').2 := by
  have hrun : State.Like (State.atEnd src mode c) (State.atEnd src mode c') :=
    State.Like.run (.intro c' h) _
  rw [stream_scan, stream_scan src mode c', tokens_scan, tokens_scan, errors_scan, errors_scan]
  generalize State.atEnd src mode c' = t at hrun ⊢
  obtain ⟨d, hd⟩ := hrun
  exact ⟨rfl, hd⟩

/-! ## Parses -/

namespace Grammar

open Ast

/-- The parser takes no notice of excerpts. -/
def Blind {α : Type} (p : Parse α) : Prop :=
  ∀ (i : Input) (s : State) (c c' : Collector), i.eof.kind = .eof → c.Like c' →
    ∃ (r : Except Unit α) (t : State) (d d' : Collector), d.Like d' ∧
      exec p i (s.withErrors c) = (r, t.withErrors d) ∧
      exec p i (s.withErrors c') = (r, t.withErrors d')

namespace Blind

section
variable {α β : Type} {p : Parse α}

theorem quiet (h : Quiet p) : Blind p := by
  intro i s c c' heof hlike
  obtain ⟨a, t, -, hexec⟩ := h.run i s heof
  exact ⟨.ok a, t, c, c', hlike, hexec c, hexec c'⟩

theorem change {f : State → State} (hblind : ∀ s c, f (s.withErrors c) = (f s).withErrors c) :
    Blind (modify f) := by
  intro i s c c' _ hlike
  exact ⟨.ok (), f s, c, c', hlike, by rw [exec_modify, hblind], by rw [exec_modify, hblind]⟩

theorem get {f : State → Parse α} (hblind : ∀ s c, f (s.withErrors c) = f s)
    (hf : ∀ s, Blind (f s)) : Blind (MonadState.get >>= f) := by
  intro i s c c' heof hlike
  obtain ⟨r, t, d, d', hd, hexec, hexec'⟩ := hf s i s c c' heof hlike
  exact ⟨r, t, d, d', hd, by rw [exec_bind_ok i (exec_get i _), hblind, hexec],
    by rw [exec_bind_ok i (exec_get i _), hblind, hexec']⟩

theorem bind {f : α → Parse β} (hp : Blind p) (hf : ∀ a, Blind (f a)) : Blind (p >>= f) := by
  intro i s c c' heof hlike
  obtain ⟨r, t, d, d', hd, hexec, hexec'⟩ := hp i s c c' heof hlike
  rw [exec_bind, exec_bind, hexec, hexec']
  rcases r with _ | a
  · exact ⟨_, t, d, d', hd, rfl, rfl⟩
  · exact hf a i t d d' heof hd

theorem ite {P : Prop} [Decidable P] {q : Parse α} (hp : Blind p) (hq : Blind q) :
    Blind (if P then p else q) := by
  split
  · exact hp
  · exact hq

theorem giveUp : Blind (giveUp : Parse α) :=
  fun _ s c c' _ hlike => ⟨_, s, c, c', hlike, rfl, rfl⟩

theorem attempt (hp : Blind p) : Blind (attempt p) := by
  intro i s c c' heof hlike
  obtain ⟨r, t, d, d', hd, hexec, hexec'⟩ := hp i s c c' heof hlike
  rw [exec_attempt, exec_attempt, hexec, hexec']
  rcases r with _ | a
  all_goals exact ⟨_, t, d, d', hd, rfl, rfl⟩

theorem concurrently (hp : Blind p) : Blind (concurrently p) := by
  refine .get (fun _ _ => rfl) fun s => .bind (.change fun _ _ => rfl) fun _ =>
    .bind hp.attempt fun a => .bind (.change fun _ _ => rfl) fun _ => ?_
  cases a with
  | none => exact .giveUp
  | some a => exact .quiet (.pure a)

theorem inBody (kind : String) (brace : Token) (hp : Blind p) : Blind (inBody kind brace p) :=
  .bind (.change fun _ _ => rfl) fun _ => .bind hp fun _ => .bind (.change fun _ _ => rfl)
    fun _ => .quiet (.pure _)

end

/-! ### Reports -/

/-- A report is added to both collectors or to neither, and counts the same. -/
theorem State.report_like {c c' : Collector} (h : c.Like c') (s : State) (i : Input)
    (token : Token) (description : String) (block : Option OpenBlock) :
    ∃ (t : State) (d d' : Collector), d.Like d' ∧
      (s.withErrors c).report i token description block = t.withErrors d ∧
      (s.withErrors c').report i token description block = t.withErrors d' := by
  obtain ⟨m, hm⟩ : ∃ m, ∀ c, (s.withErrors c).report i token description block =
      if s.halted || token.kind == .error then { s with
        lastError := some description, errors := c }
      else if c.seen m then { s with lastError := some description, errors := c }
      else if s.reported + 1 < i.limit then { s with
        lastError := some description
        errors := c.report m (some i.source.text)
        reported := s.reported + 1 }
      else { s with
        lastError := some description
        errors := (c.report m (some i.source.text)).report (i.message token tooManyErrors)
          (some i.source.text)
        reported := s.reported + 1
        halted := true } := by
    cases block with
    | none | some b => exact ⟨_, fun _ => State.report_eq_ite ..⟩
  rw [hm, hm, ← h.seen]
  by_cases hskip : (s.halted || token.kind == .error) = true
  · rw [if_pos hskip, if_pos hskip]
    exact ⟨{ s with lastError := some description }, c, c', h, rfl, rfl⟩
  rw [if_neg hskip, if_neg hskip]
  by_cases hseen : c.seen m = true
  · rw [if_pos hseen, if_pos hseen]
    exact ⟨{ s with lastError := some description }, c, c', h, rfl, rfl⟩
  rw [if_neg hseen, if_neg hseen]
  by_cases hmore : s.reported + 1 < i.limit
  · rw [if_pos hmore, if_pos hmore]
    exact ⟨{ s with lastError := some description, reported := s.reported + 1 }, _, _,
      h.report _ _, rfl, rfl⟩
  · rw [if_neg hmore, if_neg hmore]
    exact ⟨{ s with lastError := some description, reported := s.reported + 1, halted := true },
      _, _, (h.report _ _).report _ _, rfl, rfl⟩

theorem reportAt (token : Token) (description : String) : Blind (reportAt token description) := by
  intro i s c c' _ hlike
  obtain ⟨t, d, d', hd, heq, heq'⟩ := State.report_like hlike s i token description none
  exact ⟨.ok (), t, d, d', hd, congrArg (Prod.mk _) heq, congrArg (Prod.mk _) heq'⟩

theorem reportUnclosed (description : String) : Blind (reportUnclosed description) := by
  intro i s c c' _ hlike
  obtain ⟨t, d, d', hd, heq, heq'⟩ :=
    State.report_like hlike s i (i.next s) description s.blocks.head?
  exact ⟨.ok (), t, d, d', hd, congrArg (Prod.mk _) heq, congrArg (Prod.mk _) heq'⟩

theorem closeBlock (description : String) : Blind (closeBlock description) :=
  .bind (.quiet (.eat _)) fun _ => .ite (.quiet (.pure _)) <|
    .bind (.quiet .peek) fun _ => .get (fun _ _ => rfl) fun _ => .ite
      (.bind (.change fun _ _ => rfl) fun _ => .quiet (.pure _))
      (.bind (.change fun _ _ => rfl) fun _ => .bind (.reportUnclosed description) fun _ =>
        .quiet (.pure _))

end Blind

/-- No rule takes notice of excerpts. -/
theorem Reports.blind {α : Type} {o : Option Token} {K : Input → State → Prop} {p : Parse α}
    (h : Reports o K p) : Blind p := by
  induction h with
  | weaken _ _ ih | forget _ ih => exact ih
  | quiet h => exact .quiet h
  | getAt hblind _ ih => exact .get hblind ih
  | note _ hblind => exact .change hblind
  | bindTo _ _ _ _ hp hf | remember _ _ _ _ _ hp hf | keep _ _ _ _ _ hp hf => exact .bind hp hf
  | giveUp => exact .giveUp
  | reportAt t description | reportLate t => exact .reportAt t _
  | reportUnclosed description => exact .reportUnclosed description
  | attempt _ hp => exact .attempt hp
  | concurrently _ hp => exact .concurrently hp
  | body _ _ _ hinside hrest =>
    exact .inBody _ _ (.bind hinside fun a => .bind (.closeBlock _) fun closed => hrest a closed)

/-- A parse yields the same and reports the same. -/
theorem runProgram_like {c c' : Collector} (h : c.Like c') (stream : Scan.Stream)
    (config : Config) : (runProgram stream config c).1 = (runProgram stream config c').1 ∧
      (runProgram stream config c).2.errors.Like (runProgram stream config c').2.errors := by
  obtain ⟨r, t, d, d', hd, hexec, hexec'⟩ :=
    (Twin.topDeclarations stream.tokens.length).reports.blind
      (.of stream config) (.start stream config {}) c c' (endOf_kind stream.tokens) h
  have hleft : exec (topDeclarations (.upTo stream.tokens.length)) (.of stream config)
      (.start stream config c) = (r, t.withErrors d) := hexec
  have hright : exec (topDeclarations (.upTo stream.tokens.length)) (.of stream config)
      (.start stream config c') = (r, t.withErrors d') := hexec'
  rw [runProgram_eq, runProgram_eq, hleft, hright]
  exact ⟨rfl, hd⟩

/-- So do a scan and a parse behind it. -/
theorem parseScanned_like (source : Source) (mode : Scan.Mode) (config : Config)
    (options options' : Options) : (parseScanned source mode config { options }).2.Like
      (parseScanned source mode config { options := options' }).2 := by
  have hnone : Collector.Like { options } { options := options' } := rfl
  obtain ⟨hstream, herrors⟩ := Scan.scan_like hnone source mode
  rw [parseScanned, parseScanned, collector_parse, collector_parse, ← hstream]
  exact (runProgram_like herrors _ config).2

end Grammar

end LimitSyntax
