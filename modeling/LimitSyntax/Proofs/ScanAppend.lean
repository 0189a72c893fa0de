import LimitSyntax.Proofs.Citations
import LimitSyntax.Proofs.Lookahead

/-!
# Scans of texts in a row

The scan of a source that makes up whole lines of another source is found in the scan of the latter,
moved by the bytes and lines before it (`Scan.Lines.Follows`). Every step of the one is a step of
the other, as long as what starts in the lines also ends in them. So a lossy scan of two texts with
a line feed between them is the scan of the one and behind it that of the other
(`Scan.scan_append_newline`).
-/

namespace LimitSyntax

/-! ## Moved tokens -/

/-- A span that is `bytes` further on. -/
def Span.shift (bytes : Nat) (s : Span) : Span := ⟨s.start + bytes, s.stop + bytes⟩

def Trivia.shift (bytes : Nat) (p : Trivia) : Trivia := { p with span := p.span.shift bytes }

/-- A token that is `bytes` and `lines` further on. -/
def Token.shift (bytes lines : Nat) (t : Token) : Token :=
  { t with
    span := t.span.shift bytes
    line := t.line + lines
    leading := t.leading.map (Trivia.shift bytes)
    trailing := t.trailing.map (Trivia.shift bytes) }

/-- What a message says, and where: `lines` further on. -/
def Diagnostic.Message.summary (lines : Nat) (m : Message) : String × Nat × Nat × String :=
  (m.description, m.line + lines, m.column, m.token)

namespace Text

theorem lineFrom_append (line cs ds : List Char) :
    lineFrom line (cs ++ ds) = lineFrom (lineFrom line cs) ds :=
  List.foldl_append

/-- A line feed ends the line. -/
theorem lineFrom_newline (line cs : List Char) : lineFrom line (cs ++ ['\n']) = [] := by
  rw [lineFrom_append]
  rfl

end Text

namespace Scan

open Diagnostic

/-! ## Texts without an end -/

/-- What is reported of a text that starts something and has no end of it. -/
def lacksEnd : List String :=
  ["Unterminated string.", "Unterminated string interpolation.", "Unterminated comment."]

/-- Nothing was found to lack its end. -/
def State.Whole (s : State) : Prop := ∀ m ∈ s.errors.messages, m.description ∉ lacksEnd

theorem State.not_whole_unterminated (s : State) (src : Source) {description : String}
    (h : description ∈ lacksEnd) (text : List Char) :
    ¬ (s.unterminated src description text).Whole := by
  intro hwhole
  obtain ⟨m, hm, hsame⟩ := s.reported_report src description s.offset s.line
    (String.ofList (Text.firstLine text))
  exact hwhole m hm (hsame ▸ h)

/-- A comment without an end is reported. -/
theorem State.Whole.isClosed {s : State} {src : Source} {front : Token.Front}
    (h : (s.lexeme src .lossy front).Whole) : front.IsClosed := by
  cases front with
  | trivia kind closed taken rest =>
    cases closed with
    | true => rfl
    | false =>
      obtain ⟨m, hm, hsame⟩ := s.reported_report src "Unterminated comment." s.offset s.line "/*"
      exact absurd (by rw [hsame]; decide) (h m hm)
  | token | quote | stray => trivial

/-- What is reported stays reported. -/
theorem State.Whole.of_moves {src : Source} {mode : Mode} {s t : State} (h : t.Whole)
    (hmoves : State.Moves src mode s t) : s.Whole := by
  induction hmoves with
  | refl => exact h
  | tail _ hmove ih =>
    refine ih ?_
    cases hmove with
    | report => exact fun m hm => h m (Collector.messages_subset_report _ _ _ m hm)
    | token | skip | divide => exact h
    | trivia kind taken rest hrest =>
      cases mode with
      | lossy => exact h
      | lossless =>
        simp only [State.trivia] at h
        split at h <;> exact h

/-! ## Lines of a source -/

/-- A source that makes up lines of another one, and what is found in the lines before it. -/
structure Lines where
  part : Source
  whole : Source
  before : List Char
  behind : List Char
  split : whole.text.toList = before ++ part.text.toList ++ behind
  starts : Text.lineFrom [] before = []
  ends : Token.AtLineEnd behind
  /-- The tokens before the part, last one first. -/
  tokens : List Token
  messages : List Message
  earlier : ∀ m ∈ messages, m.line ≤ before.count '\n'

namespace Lines

variable (g : Lines)

/-- The number of bytes before the part. -/
def bytes : Nat := Text.byteLength g.before

/-- The number of lines before the part. -/
def lines : Nat := g.before.count '\n'

/-- What follows the range in the whole source but not in the part. -/
def after : List Waiting → List Char
  | [] => g.behind
  | _ :: _ => []

/-- The outermost string that waits goes on in the whole source. -/
def stack : List Waiting → List Waiting
  | [] => []
  | w :: ws => ⟨w.mark, w.rest ++ g.after ws⟩ :: stack ws

/-- The same message about the part and about the whole source. -/
structure Echo (m m' : Message) : Prop where
  description : m'.description = m.description
  line : m'.line = m.line + g.lines
  column : m'.column = m.column
  token : m'.token = m.token
  file : m.file = g.part.file
  file' : m'.file = g.whole.file

/-- Behind the earlier messages the same was reported. -/
def Echoes (c c' : Collector) : Prop :=
  ∃ echoes, c'.messages.toList = g.messages ++ echoes ∧
    List.Forall₂ g.Echo c.messages.toList echoes

/-- A scanner of the whole source does what a scanner of the part does. -/
structure Follows (s s' : State) : Prop where
  reached : s.Reached g.part
  rest : s'.rest = s.rest ++ g.after s.waiting
  waiting : s'.waiting = g.stack s.waiting
  offset : s'.offset = s.offset + g.bytes
  line : s'.line = s.line + g.lines
  tokens : s'.tokens = s.tokens.map (Token.shift g.bytes g.lines) ++ g.tokens
  pending : s.pending = []
  pending' : s'.pending = []
  errors : g.Echoes s.errors s'.errors

variable {g : Lines} {s s' t : State}

theorem atLineEnd_after (ws : List Waiting) : Token.AtLineEnd (g.after ws) := by
  cases ws with
  | nil => exact g.ends
  | cons w ws => exact .inl rfl

/-! ## Reports -/

theorem Echo.key_eq_iff {m m' n n' : Message} (hm : g.Echo m m') (hn : g.Echo n n') :
    m'.key = n'.key ↔ m.key = n.key := by
  simp only [Message.key, Key.mk.injEq, hm.description, hm.line, hm.column, hm.file, hm.file',
    hn.description, hn.line, hn.column, hn.file, hn.file', Nat.add_right_cancel_iff]

theorem Echo.complete {m m' : Message} (h : g.Echo m m') (c c' : Collector)
    (source source' : Option String) : g.Echo (c.complete m source) (c'.complete m' source') := by
  obtain ⟨rows, hrows⟩ := c.complete_eq m source
  obtain ⟨rows', hrows'⟩ := c'.complete_eq m' source'
  rw [hrows, hrows']
  exact ⟨h.description, h.line, h.column, h.token, h.file, h.file'⟩

theorem Echoes.seen {c c' : Collector} {m m' : Message} (h : g.Echoes c c') (hm : g.Echo m m')
    (hpos : 1 ≤ m.line) : c'.seen m' = c.seen m := by
  obtain ⟨echoes, heq, hechoes⟩ := h
  have hearlier : g.messages.any (·.key == m'.key) = false := by
    -- the earlier messages are about earlier lines
    rw [List.any_eq_false]
    intro n hn hsame
    have hle : n.line ≤ g.lines := g.earlier n hn
    have hline : n.line = m'.line := congrArg Key.line (beq_iff_eq.1 hsame)
    rw [hm.line] at hline
    omega
  have hsame : ∀ {xs ys : List Message}, List.Forall₂ g.Echo xs ys →
      ys.any (·.key == m'.key) = xs.any (·.key == m.key) := by
    intro xs ys hxy
    induction hxy with
    | nil => rfl
    | @cons n n' _ _ hn _ ih =>
      have hkey : (n'.key == m'.key) = (n.key == m.key) := by
        rw [Bool.eq_iff_iff, beq_iff_eq, beq_iff_eq, hn.key_eq_iff hm]
      rw [List.any_cons, List.any_cons, hkey, ih]
  rw [Collector.seen_eq_any, Collector.seen_eq_any, heq, List.any_append, hearlier, Bool.false_or,
    hsame hechoes]

theorem Echoes.report {c c' : Collector} {m m' : Message} (h : g.Echoes c c') (hm : g.Echo m m')
    (hpos : 1 ≤ m.line) (source source' : Option String) :
    g.Echoes (c.report m source) (c'.report m' source') := by
  rw [Collector.report_eq_ite, Collector.report_eq_ite, h.seen hm hpos]
  split
  next => exact h
  next =>
    obtain ⟨echoes, heq, hechoes⟩ := h
    rw [Echoes, Collector.add, Collector.add]
    refine ⟨echoes ++ [c'.complete m' source'], ?_, ?_⟩
    · rw [Array.toList_push, heq, List.append_assoc]
    · rw [Array.toList_push]
      exact List.rel_append hechoes (.cons (hm.complete c c' source source') .nil)

namespace Follows

/-- The column is the same in the part and in the whole source. -/
theorem column (h : g.Follows s s') :
    Text.columnAt g.whole.text.toList s'.offset = Text.columnAt g.part.text.toList s.offset := by
  obtain ⟨read, hread, hoffset, -⟩ := h.reached
  have hwhole : g.whole.text.toList = (g.before ++ read) ++ (s.remaining ++ g.behind) := by
    rw [g.split, hread]
    simp
  have hbytes : s'.offset = Text.byteLength (g.before ++ read) := by
    rw [h.offset, Text.byteLength_append, hoffset, bytes, Nat.add_comm]
  rw [hwhole, hbytes, Text.columnAt_append, hread, ← hoffset, Text.columnAt_append,
    Text.lineFrom_append, g.starts]

theorem report (h : g.Follows s s') (description lexeme : String) :
    g.Follows (s.report g.part description s.offset s.line lexeme)
      (s'.report g.whole description s'.offset s'.line lexeme) where
  reached := h.reached
  rest := h.rest
  waiting := h.waiting
  offset := h.offset
  line := h.line
  tokens := h.tokens
  pending := h.pending
  pending' := h.pending'
  errors := by
    obtain ⟨read, -, -, hline⟩ := h.reached
    have hpos : 1 ≤ s.line := by omega
    refine Echoes.report h.errors ?_ hpos ..
    exact ⟨rfl, h.line, h.column, rfl, rfl, rfl⟩

/-! ## Reading -/

theorem advance (h : g.Follows s s') (taken : List Char) {rest : List Char}
    (hrest : s.rest = taken ++ rest) :
    g.Follows (s.advance taken rest) (s'.advance taken (rest ++ g.after s.waiting)) where
  reached := h.reached.advance hrest
  rest := rfl
  waiting := h.waiting
  offset := by
    simp only [State.advance, h.offset]
    omega
  line := by
    simp only [State.advance, h.line]
    omega
  tokens := h.tokens
  pending := h.pending
  pending' := h.pending'
  errors := h.errors

theorem token (h : g.Follows s s') (taken : List Char) {rest : List Char}
    (hrest : s.rest = taken ++ rest) (kind : Token.Kind) (value : Option String) :
    g.Follows (s.token kind taken rest value)
      (s'.token kind taken (rest ++ g.after s.waiting) value) where
  reached := h.reached.advance hrest
  rest := rfl
  waiting := h.waiting
  offset := (h.advance taken hrest).offset
  line := (h.advance taken hrest).line
  tokens := by
    have hstop := (h.advance taken hrest).offset
    simp only [State.token, List.map_cons, List.cons_append, ← h.tokens, Token.shift, Span.shift,
      h.pending, h.pending', ← hstop, ← h.offset, ← h.line, List.reverse_nil, List.map_nil]
  pending := rfl
  pending' := rfl
  errors := h.errors

/-- The unread text is divided anew in both. -/
theorem divide (h : g.Follows s s') {rest rest' : List Char} {waiting waiting' : List Waiting}
    (hsame : ({ s with rest, waiting } : State).remaining = s.remaining)
    (hrest : rest' = rest ++ g.after waiting) (hwaiting : waiting' = g.stack waiting) :
    g.Follows { s with rest, waiting }
      { s' with rest := rest', waiting := waiting' } where
  reached := by
    obtain ⟨read, hread, hplace⟩ := h.reached
    exact ⟨read, hsame ▸ hread, hplace⟩
  rest := hrest
  waiting := hwaiting
  offset := h.offset
  line := h.line
  tokens := h.tokens
  pending := h.pending
  pending' := h.pending'
  errors := h.errors

/-! ## One step -/

theorem unterminated (h : g.Follows s s') (hafter : g.after s.waiting = []) (description : String) :
    g.Follows (s.unterminated g.part description s.rest)
      (s'.unterminated g.whole description s.rest) := by
  have hrest : s.rest = s.rest ++ [] := (List.append_nil _).symm
  have hreport := h.report description (String.ofList (Text.firstLine s.rest))
  have htoken := hreport.token s.rest hrest .error none
  rwa [show g.after (s.report g.part description _ _ _).waiting = [] from hafter] at htoken

/-- Both read a stretch of string text, if it ends in the part. -/
theorem stretch (h : g.Follows s s') {mark : Char} (taken : List Char) {cs : List Char}
    (hrest : s.rest = taken.reverse ++ cs)
    (hwhole : g.after s.waiting = [] ∨
      (s.stretch g.part mark (Token.stretchFrom mark taken [] cs)).Whole) :
    g.Follows (s.stretch g.part mark (Token.stretchFrom mark taken [] cs))
      (s'.stretch g.whole mark
        (Token.stretchFrom mark taken [] (cs ++ g.after s.waiting))) := by
  have hdivides := Token.stretchFrom_divides mark taken [] cs
  rw [← hrest] at hdivides
  have hmissing : (Token.stretchFrom mark taken [] cs).ending = .missing →
      g.after s.waiting = [] := by
    intro hending
    rcases hwhole with hafter | hwhole
    · exact hafter
    · rw [State.stretch, hending] at hwhole
      exact absurd hwhole (State.not_whole_unterminated _ _ (by decide) _)
  have hpiece : Token.stretchFrom mark taken [] (cs ++ g.after s.waiting) =
      (Token.stretchFrom mark taken [] cs).extend (g.after s.waiting) := by
    by_cases hending : (Token.stretchFrom mark taken [] cs).ending = .missing
    · simp [hmissing hending, Token.Stretch.extend]
    · exact Token.stretchFrom_append hending _
  rw [hpiece]
  generalize Token.stretchFrom mark taken [] cs = piece at hdivides hmissing hwhole ⊢
  have hsplit := hdivides.split.symm
  simp only [State.stretch, Token.Stretch.extend] at hwhole ⊢
  split
  next => exact h.token _ hsplit _ _
  next hending =>
    rw [hdivides.missing hending, List.append_nil] at hsplit
    rw [← hsplit]
    exact h.unterminated (hmissing hending) _
  next hending =>
    rw [hending] at hwhole
    have hstart := h.token _ hsplit .interpolationStart (some (String.ofList piece.value))
    cases hinner : Token.interpolation? mark piece.rest with
    | some r =>
      obtain ⟨inner, rest⟩ := r
      rw [Token.interpolation?_append hinner]
      refine hstart.divide ?_ (List.append_nil _).symm ?_
      · simp [State.remaining, ← Token.interpolation?_divides hinner]
      · rw [hstart.waiting]
        rfl
    | none =>
      rw [hinner] at hwhole
      have hafter : g.after s.waiting = [] :=
        hwhole.resolve_right (State.not_whole_unterminated _ _ (by decide) _)
      have hend := hstart.unterminated hafter "Unterminated string interpolation."
      simpa [hafter, hinner] using hend

theorem leave (h : g.Follows s s') {w : Waiting} {outer : List Waiting} (hrest : s.rest = [])
    (hwaiting : s.waiting = w :: outer)
    (hwhole : g.after outer = [] ∨ (s.leave g.part w outer).Whole) :
    g.Follows (s.leave g.part w outer)
      (s'.leave g.whole ⟨w.mark, w.rest ++ g.after outer⟩ (g.stack outer)) := by
  have hdivide : g.Follows { s with rest := '}' :: w.rest, waiting := outer }
      { s' with rest := '}' :: w.rest ++ g.after outer, waiting := g.stack outer } :=
    h.divide (by simp [State.remaining, hrest, hwaiting]) rfl rfl
  have hbrace := hdivide.token ['}'] rfl .interpolationEnd none
  exact hbrace.stretch [] rfl hwhole

theorem lexeme (h : g.Follows s s') {front : Token.Front} (hfront : front.Divides s.rest)
    (hwhole : g.after s.waiting = [] ∨ (s.lexeme g.part .lossy front).Whole) :
    g.Follows (s.lexeme g.part .lossy front)
      (s'.lexeme g.whole .lossy (front.extend (g.after s.waiting))) := by
  cases front with
  | trivia kind closed taken rest =>
    cases closed with
    | true => exact h.advance taken hfront.2.1.symm
    | false => exact (h.report _ _).advance taken hfront.2.1.symm
  | token kind taken rest => exact h.token taken hfront.2.1.symm kind none
  | quote mark rest => exact h.stretch [mark] hfront.symm hwhole
  | stray c rest => exact (h.report _ _).advance [c] hfront.symm

/-- The front of the part is the front of the whole source, if it ends in the part. -/
theorem front (ws : List Waiting) {c : Char} {cs : List Char}
    (hwhole : g.after ws = [] ∨ (s.lexeme g.part .lossy (.of c cs)).Whole) :
    Token.Front.of c (cs ++ g.after ws) = (Token.Front.of c cs).extend (g.after ws) := by
  rcases hwhole with hafter | hwhole
  · rw [hafter, List.append_nil, Token.Front.extend_nil]
  · exact Token.Front.of_append (atLineEnd_after ws) hwhole.isClosed

/-- A step of the scanner of the part is one of the scanner of the whole source, unless the part
ends before something that it starts. -/
theorem step (h : g.Follows s s') (hstep : s.step? g.part .lossy = some t)
    (hwhole : g.behind = [] ∨ t.Whole) :
    ∃ t', s'.step? g.whole .lossy = some t' ∧ g.Follows t t' := by
  have hafter : ∀ ws, g.after ws = [] ∨ t.Whole := by
    intro ws
    cases ws with
    | nil => exact hwhole
    | cons w ws => exact .inl rfl
  have hrest' := h.rest
  have hwaiting' := h.waiting
  unfold State.step? at hstep
  split at hstep
  next c cs hrest =>
    cases hstep
    have hfront := Token.Front.of_divides c cs
    rw [← hrest] at hfront
    rw [hrest, List.cons_append] at hrest'
    refine ⟨_, ?_, h.lexeme hfront (hafter s.waiting)⟩
    simp only [State.step?, hrest', front s.waiting (hafter s.waiting)]
  next w outer hrest hwaiting =>
    cases hstep
    rw [hrest, hwaiting] at hrest'
    rw [hwaiting] at hwaiting'
    refine ⟨_, ?_, h.leave hrest hwaiting (hafter outer)⟩
    simp only [State.step?, hrest', hwaiting', after, stack, List.append_nil]
  next => cases hstep

/-! ## A whole scan -/

/-- When the scanner of the part has come to its end, the scanner of the whole source is behind the
part. -/
theorem run (h : g.Follows s s') (fuel : Nat)
    (hwhole : g.behind = [] ∨ (State.run g.part .lossy fuel s).Whole) :
    ∃ t', State.Steps g.whole .lossy s' t' ∧ g.Follows (State.run g.part .lossy fuel s) t' := by
  induction fuel generalizing s s' with
  | zero => exact ⟨s', .refl, h⟩
  | succ fuel ih =>
    rw [State.run] at hwhole ⊢
    cases hstep : s.step? g.part .lossy with
    | none => exact ⟨s', .refl, h⟩
    | some t =>
      rw [hstep] at hwhole
      obtain ⟨t', hstep', ht⟩ := h.step hstep (hwhole.imp_right (·.of_moves (State.run_moves ..)))
      obtain ⟨u', hsteps, hu⟩ := ih ht hwhole
      exact ⟨u', .head hstep' hsteps, hu⟩

end Follows

/-- Before the part, the scanner of the whole source does what a new scanner does. -/
theorem Follows.start (options : Options) {s' : State}
    (hrest : s'.rest = g.part.text.toList ++ g.behind) (hwaiting : s'.waiting = [])
    (hoffset : s'.offset = g.bytes) (hline : s'.line = g.lines + 1)
    (htokens : s'.tokens = g.tokens) (hpending : s'.pending = [])
    (hmessages : s'.errors.messages.toList = g.messages) :
    g.Follows { rest := g.part.text.toList, errors := { options } } s' where
  reached := ⟨[], by simp [State.remaining], rfl, rfl⟩
  rest := hrest
  waiting := hwaiting
  offset := by rw [hoffset, Nat.zero_add]
  line := by rw [hline, Nat.add_comm]
  tokens := htokens
  pending := rfl
  pending' := hpending
  errors := ⟨[], by rw [hmessages, List.append_nil], .nil⟩

theorem Echoes.summaries {c c' : Collector} (h : g.Echoes c c') :
    c'.messages.toList.map (Message.summary 0) = g.messages.map (Message.summary 0) ++
      c.messages.toList.map (Message.summary g.lines) := by
  obtain ⟨echoes, heq, hechoes⟩ := h
  rw [heq, List.map_append]
  clear heq
  generalize c.messages.toList = messages at hechoes ⊢
  congr 1
  induction hechoes with
  | nil => rfl
  | cons hm _ ih =>
    simp only [List.map_cons, ih, Message.summary, hm.description, hm.line, hm.column, hm.token,
      Nat.add_zero]

/-- A part that nothing follows ends where the whole source ends. -/
theorem Follows.step?_eq_none {options : Options} {s' : State}
    (h : g.Follows (State.atEnd g.part .lossy { options }) s') (hbehind : g.behind = []) :
    s'.step? g.whole .lossy = none := by
  obtain ⟨hend, hwaiting⟩ := State.ended_of_step? (step?_atEnd g.part .lossy { options })
  have hrest' := h.rest
  have hwaiting' := h.waiting
  rw [hend, hwaiting, after, hbehind, List.append_nil] at hrest'
  rw [hwaiting, stack] at hwaiting'
  simp only [State.step?, hrest', hwaiting']

/-- The tokens of such a part are the last ones of the whole source. -/
theorem Follows.tokens_scan {options : Options}
    (h : g.Follows (State.atEnd g.part .lossy { options })
      (State.atEnd g.whole .lossy { options })) (hbehind : g.behind = []) :
    (scan g.whole .lossy { options }).1.tokens = g.tokens.reverse ++
      (scan g.part .lossy { options }).1.tokens.map (Token.shift g.bytes g.lines) := by
  have hbytes : Text.byteLength g.whole.text.toList =
      Text.byteLength g.part.text.toList + g.bytes := by
    rw [g.split, hbehind, List.append_nil, Text.byteLength_append, bytes, Nat.add_comm]
  have heof : (State.atEnd g.whole .lossy { options }).eof g.whole =
      ((State.atEnd g.part .lossy { options }).eof g.part).shift g.bytes g.lines := by
    simp [State.eof, Token.eof, Token.shift, Span.empty, Span.shift, h.pending, h.pending', h.line,
      hbytes]
  rw [Scan.tokens_scan, Scan.tokens_scan, heof, h.tokens]
  simp

/-! ## Two texts and a line feed between them -/

section
variable {src₁ src₂ src : Source} (htext : src.text = src₁.text ++ "\n" ++ src₂.text)

/-- The first text. -/
def first : Lines where
  part := src₁
  whole := src
  before := []
  behind := '\n' :: src₂.text.toList
  split := by simp [htext]
  starts := rfl
  ends := .inr ⟨_, rfl⟩
  tokens := []
  messages := []
  earlier := by simp

/-- The second text, behind the first one and its line feed. -/
def second (tokens : List Token) (messages : List Message)
    (earlier : ∀ m ∈ messages, m.line ≤ (src₁.text.toList ++ ['\n']).count '\n') : Lines where
  part := src₂
  whole := src
  before := src₁.text.toList ++ ['\n']
  behind := []
  split := by simp [htext]
  starts := Text.lineFrom_newline _ _
  ends := .inl rfl
  tokens := tokens
  messages := messages
  earlier := earlier

variable {htext} {options : Options} {t : State}

/-- Where the first text ends there is a line feed, and then the second text. -/
theorem Follows.step_newline
    (h : (first htext).Follows (State.atEnd src₁ .lossy { options }) t) :
    t.step? src .lossy = some (t.advance ['\n'] src₂.text.toList) := by
  obtain ⟨hend, hwaiting⟩ := State.ended_of_step? (step?_atEnd src₁ .lossy { options })
  have hrest := h.rest
  rw [hend, hwaiting] at hrest
  have hfeed : t.rest = '\n' :: src₂.text.toList := hrest
  simp only [State.step?, hfeed]
  rfl

/-- The messages about the first text are those of its own scan. -/
theorem Follows.summaries_first
    (h : (first htext).Follows (State.atEnd src₁ .lossy { options }) t) :
    t.errors.messages.toList.map (Message.summary 0) =
      (scan src₁ .lossy { options }).2.messages.toList.map (Message.summary 0) :=
  h.errors.summaries

/-- They are about lines of the first text. -/
theorem Follows.earlier (h : (first htext).Follows (State.atEnd src₁ .lossy { options }) t) :
    ∀ m ∈ t.errors.messages.toList, m.line ≤ (src₁.text.toList ++ ['\n']).count '\n' := by
  intro m hm
  have hsummary := List.mem_map_of_mem (f := Message.summary 0) hm
  rw [h.summaries_first] at hsummary
  obtain ⟨n, hn, heq⟩ := List.mem_map.1 hsummary
  have hline : n.line = m.line := (Prod.mk.inj (Prod.mk.inj heq).2).1
  obtain ⟨offset, ⟨before, after, hsplit, -, hcount⟩, -⟩ :=
    ((citing_scan src₁ .lossy options).cites n (Array.mem_toList_iff.1 hn)).place
  simp only [hsplit, List.count_append, List.count_singleton_self]
  omega

/-- Behind the line feed a scanner of the whole does what a new scanner of the second text does. -/
theorem Follows.second (h : (first htext).Follows (State.atEnd src₁ .lossy { options }) t) :
    (Lines.second htext t.tokens t.errors.messages.toList h.earlier).Follows
      { rest := src₂.text.toList, errors := { options } }
      (t.advance ['\n'] src₂.text.toList) := by
  obtain ⟨hoffset, hline⟩ := reached_atEnd src₁ .lossy { options }
  obtain ⟨-, hwaiting⟩ := State.ended_of_step? (step?_atEnd src₁ .lossy { options })
  refine .start options (List.append_nil _).symm ?_ ?_ ?_ rfl h.pending' rfl
  · show t.waiting = []
    rw [h.waiting, hwaiting]
    rfl
  · show t.offset + _ = Text.byteLength (src₁.text.toList ++ ['\n'])
    rw [h.offset, ← hoffset, Text.byteLength_append]
    rfl
  · show t.line + _ = (src₁.text.toList ++ ['\n']).count '\n' + 1
    rw [h.line, ← hline, List.count_append]
    rfl

end

end Lines

theorem map_shift_zero (ts : List Token) : ts.map (Token.shift 0 0) = ts := by
  have hspan : Trivia.shift 0 = id := rfl
  have hid : Token.shift 0 0 = id := by
    funext t
    simp [Token.shift, Span.shift, hspan]
  rw [hid, List.map_id]

/-- The second scan goes on where the first one ends. -/
theorem scan_append {src₁ src₂ src : Source} {options : Options}
    (htext : src.text = src₁.text ++ "\n" ++ src₂.text)
    (hwhole : (State.atEnd src₁ .lossy { options }).Whole) :
    (scan src .lossy { options }).1.tokens = (scan src₁ .lossy { options }).1.tokens.dropLast ++
      (scan src₂ .lossy { options }).1.tokens.map (Token.shift
        (Text.byteLength (src₁.text.toList ++ ['\n'])) ((src₁.text.toList ++ ['\n']).count '\n')) ∧
    (scan src .lossy { options }).2.messages.toList.map (Message.summary 0) =
      (scan src₁ .lossy { options }).2.messages.toList.map (Message.summary 0) ++
      (scan src₂ .lossy { options }).2.messages.toList.map
        (Message.summary ((src₁.text.toList ++ ['\n']).count '\n')) := by
  have hstart : (Lines.first htext).Follows { rest := src₁.text.toList, errors := { options } }
      { rest := src.text.toList, errors := { options } } :=
    .start options (by simp [Lines.first, htext]) rfl rfl rfl rfl rfl rfl
  obtain ⟨t, hsteps, ht⟩ := hstart.run src₁.text.toList.length (.inr hwhole)
  obtain ⟨u, hsteps', hu⟩ := (Lines.Follows.second ht).run src₂.text.toList.length (.inl rfl)
  have hend : State.atEnd src .lossy { options } = u :=
    State.run_eq_of_steps ((hsteps.tail (Lines.Follows.step_newline ht)).trans hsteps')
      (hu.step?_eq_none rfl) (by simp [State.remaining])
  subst hend
  have hfirst : t.tokens.reverse = (scan src₁ .lossy { options }).1.tokens.dropLast := by
    rw [tokens_scan, List.dropLast_concat]
    exact congrArg List.reverse (ht.tokens.trans ((List.append_nil _).trans (map_shift_zero _)))
  rw [← hfirst, ← Lines.Follows.summaries_first ht]
  exact ⟨hu.tokens_scan rfl, hu.errors.summaries⟩

/-- The lossy scan of two texts with a line feed between them: the tokens of the first without its
end, and then those of the second, further on by the bytes and lines before them; and the messages
of both in the same way. What starts in the first text must end in it. -/
theorem scan_append_newline (src₁ src₂ src : Source) (options : Options)
    (htext : src.text = src₁.text ++ "\n" ++ src₂.text)
    (hwhole : ∀ m ∈ (scan src₁ .lossy { options }).2.messages, m.description ∉
      ["Unterminated string.", "Unterminated string interpolation.", "Unterminated comment."]) :
    (scan src .lossy { options }).1.tokens = (scan src₁ .lossy { options }).1.tokens.dropLast ++
      (scan src₂ .lossy { options }).1.tokens.map
        (Token.shift (src₁.text.utf8ByteSize + 1) (src₁.text.toList.count '\n' + 1)) ∧
    (scan src .lossy { options }).2.messages.toList.map (Message.summary 0) =
      (scan src₁ .lossy { options }).2.messages.toList.map (Message.summary 0) ++
      (scan src₂ .lossy { options }).2.messages.toList.map
        (Message.summary (src₁.text.toList.count '\n' + 1)) := by
  have hbytes : Text.byteLength (src₁.text.toList ++ ['\n']) = src₁.text.utf8ByteSize + 1 := by
    rw [Text.byteLength_append, ← Text.utf8ByteSize_ofList, String.ofList_toList]
    rfl
  have hlines : (src₁.text.toList ++ ['\n']).count '\n' = src₁.text.toList.count '\n' + 1 := by
    rw [List.count_append, List.count_singleton_self]
  rw [← hbytes, ← hlines]
  exact scan_append htext hwhole

/-- A stray character and an interpolation in the first of two lines. -/
theorem scan_append_newline_stray :
    ((scan ⟨"#\"\x7bx\x7d\"", "a"⟩ .lossy {}).2.messages.toList.map (·.description) =
      ["Unexpected character '#'"]) ∧
    (scan ⟨"#\"\x7bx\x7d\"\ny #", "a"⟩ .lossy {}).1.tokens =
      (scan ⟨"#\"\x7bx\x7d\"", "a"⟩ .lossy {}).1.tokens.dropLast ++
        (scan ⟨"y #", "a"⟩ .lossy {}).1.tokens.map (Token.shift 7 1) ∧
    (scan ⟨"#\"\x7bx\x7d\"\ny #", "a"⟩ .lossy {}).2.messages.toList.map (Message.summary 0) =
      (scan ⟨"#\"\x7bx\x7d\"", "a"⟩ .lossy {}).2.messages.toList.map (Message.summary 0) ++
        (scan ⟨"y #", "a"⟩ .lossy {}).2.messages.toList.map (Message.summary 1) := by
  have hreports : (scan ⟨"#\"\x7bx\x7d\"", "a"⟩ .lossy {}).2.messages.toList.map (·.description) =
      ["Unexpected character '#'"] := by decide +kernel
  have hwhole : ∀ m ∈ (scan ⟨"#\"\x7bx\x7d\"", "a"⟩ .lossy {}).2.messages, m.description ∉
      ["Unterminated string.", "Unterminated string interpolation.", "Unterminated comment."] := by
    decide +kernel
  exact ⟨hreports, scan_append_newline ⟨"#\"\x7bx\x7d\"", "a"⟩ ⟨"y #", "a"⟩
    ⟨"#\"\x7bx\x7d\"\ny #", "a"⟩ {} (by decide) hwhole⟩

end Scan

end LimitSyntax
