import LimitSyntax.Proofs.Renderings

/-!
# Colours are decoration

A rendering in colours is the rendering without them, with control sequences in between: what
`stripControls` leaves of the one is the other.
-/

namespace LimitSyntax.Diagnostic

open Text

/-! ## Control sequences -/

/-- The character that opens a control sequence. -/
def escapeChar : Char := '\x1b'

/-- A text without its control sequences, each of which goes from an escape character and a bracket
to the next `m`. -/
def stripControls : List Char → List Char
  | [] => []
  | c :: cs =>
    if c = escapeChar ∧ cs.head? = some '[' ∧ 'm' ∈ cs then
      stripControls (cs.dropWhile (· ≠ 'm')).tail
    else c :: stripControls cs
termination_by cs => cs.length
decreasing_by
  · have hdrop : (cs.dropWhile (· ≠ 'm')).length ≤ cs.length := (List.dropWhile_sublist _).length_le
    simp only [List.length_tail, List.length_cons]
    omega
  · simp

/-- There is no control sequence in the text, nor the beginning of one. -/
def Unescaped (s : String) : Prop := escapeChar ∉ s.toList

instance (s : String) : Decidable (Unescaped s) := inferInstanceAs (Decidable (_ ∉ _))

theorem Unescaped.append {s t : String} (hs : Unescaped s) (ht : Unescaped t) :
    Unescaped (s ++ t) :=
  not_mem_append.2 ⟨hs, ht⟩

theorem unescaped_toString (n : Nat) : Unescaped (toString n) := not_mem_toString (by decide) n

theorem unescaped_spaces (n : Nat) : Unescaped (spaces n) := not_mem_spaces (by decide) n

/-- A part of a text has no control sequence that the text does not have. -/
theorem Unescaped.of_subset {s : String} (h : Unescaped s) {cs : List Char}
    (hcs : cs ⊆ s.toList) : Unescaped (String.ofList cs) := by
  rw [Unescaped, String.toList_ofList]
  exact fun hmem => h (hcs hmem)

theorem stripControls_append {cs : List Char} (h : escapeChar ∉ cs) (ds : List Char) :
    stripControls (cs ++ ds) = cs ++ stripControls ds := by
  induction cs with
  | nil => rfl
  | cons c cs ih =>
    rw [List.mem_cons, not_or] at h
    rw [List.cons_append, stripControls, if_neg fun hstart => h.1 hstart.1.symm, ih h.2,
      List.cons_append]

/-- The text vanishes with the control sequences, whatever follows. -/
def Silent (cs : List Char) : Prop := ∀ ds, stripControls (cs ++ ds) = stripControls ds

theorem Silent.append {cs ds : List Char} (hcs : Silent cs) (hds : Silent ds) :
    Silent (cs ++ ds) := by
  intro es
  rw [List.append_assoc, hcs, hds]

/-- What stands in a control sequence does not matter as long as there is no `m` in it. -/
theorem silent_control {parameters : List Char} (h : 'm' ∉ parameters) :
    Silent (escapeChar :: '[' :: (parameters ++ ['m'])) := by
  intro ds
  have hend : (parameters ++ 'm' :: ds).dropWhile (· ≠ 'm') = 'm' :: ds := by
    have hinside : ∀ c ∈ parameters, decide (c ≠ 'm') = true := by
      intro c hc
      rw [decide_eq_true_iff]
      rintro rfl
      exact h hc
    rw [List.dropWhile_append_of_pos hinside]
    rfl
  have hskip : ('[' :: (parameters ++ 'm' :: ds)).dropWhile (· ≠ 'm') = 'm' :: ds := by
    rw [List.dropWhile_cons_of_pos (by decide), hend]
  rw [show escapeChar :: '[' :: (parameters ++ ['m']) ++ ds =
      escapeChar :: '[' :: (parameters ++ 'm' :: ds) by simp, stripControls,
    if_pos ⟨rfl, rfl, by simp⟩, hskip, List.tail_cons]

theorem silent_escapeSequence (parameter : Nat) : Silent (escapeSequence parameter).toList := by
  have h := silent_control (not_mem_toString (c := 'm') (by decide) parameter)
  simpa [escapeSequence, escapeChar] using h

theorem silent_escapeSequences (parameters : List Nat) :
    Silent (String.join (parameters.map escapeSequence)).toList := by
  induction parameters with
  | nil => exact fun ds => rfl
  | cons parameter parameters ih =>
    rw [List.map_cons, String.join_cons, String.toList_append]
    exact (silent_escapeSequence parameter).append ih

/-! ## Pieces -/

/-- A piece in its colours is the piece, for whoever does not see control sequences. -/
theorem Piece.stripControls_write {p : Piece} (h : Unescaped p.text) (colors : Bool)
    (ds : List Char) :
    stripControls ((p.write colors).toList ++ ds) = p.text.toList ++ stripControls ds := by
  unfold Piece.write
  split
  · rw [String.toList_append, String.toList_append, List.append_assoc, List.append_assoc,
      silent_escapeSequences, stripControls_append h, silent_escapeSequence]
  · exact stripControls_append h ds

@[simp] theorem unescaped_newline : Unescaped Piece.newline.text := by decide

/-- There is no escape character in any of the pieces. -/
def UnescapedPieces (ps : List Piece) : Prop := ∀ p ∈ ps, Unescaped p.text

namespace UnescapedPieces

@[simp] theorem nil : UnescapedPieces [] := fun _ h => absurd h List.not_mem_nil

@[simp] theorem cons_iff {p : Piece} {ps : List Piece} :
    UnescapedPieces (p :: ps) ↔ Unescaped p.text ∧ UnescapedPieces ps :=
  List.forall_mem_cons

@[simp] theorem append_iff {ps qs : List Piece} :
    UnescapedPieces (ps ++ qs) ↔ UnescapedPieces ps ∧ UnescapedPieces qs :=
  List.forall_mem_append

theorem flatMap {α : Type} {f : α → List Piece} {xs : List α}
    (h : ∀ x ∈ xs, UnescapedPieces (f x)) : UnescapedPieces (xs.flatMap f) := by
  intro p hp
  obtain ⟨x, hx, hp⟩ := List.mem_flatMap.1 hp
  exact h x hx p hp

theorem getD {α : Type} {f : α → List Piece} {x : Option α}
    (h : ∀ a ∈ x, UnescapedPieces (f a)) : UnescapedPieces ((x.map f).getD []) := by
  cases x with
  | none => exact nil
  | some a => exact h a rfl

/-- A row that opens with a title in colour. -/
theorem titled {title text : String} (htitle : Unescaped title) (htext : Unescaped text)
    (ink : Ink) : UnescapedPieces [⟨ink, title⟩, .plain (" " ++ text), .newline] := by
  have hrow : Unescaped (" " ++ text) := .append (by decide) htext
  simp [htitle, hrow]

variable {ps : List Piece}

theorem ite {c : Prop} [Decidable c] (h : UnescapedPieces ps) :
    UnescapedPieces (if c then ps else []) := by
  split
  · exact h
  · exact nil

theorem stripControls_write (h : UnescapedPieces ps) :
    stripControls (writePieces true ps).toList = (writePieces false ps).toList := by
  induction ps with
  | nil => exact stripControls.eq_1
  | cons p ps ih =>
    rw [cons_iff] at h
    rw [toList_writePieces_cons, toList_writePieces_cons, Piece.stripControls_write h.1, ih h.2,
      Piece.write_false]

theorem unescaped_write (h : UnescapedPieces ps) : Unescaped (writePieces false ps) :=
  not_mem_writePieces h

end UnescapedPieces

/-! ## Messages -/

/-- No text of the message holds an escape character. -/
structure Message.Unescaped (m : Message) : Prop where
  description : Diagnostic.Unescaped m.description
  file : Diagnostic.Unescaped m.file
  token : Diagnostic.Unescaped m.token
  excerpt : ∀ row ∈ m.excerpt, Diagnostic.Unescaped row
  hint : ∀ text ∈ m.hint, Diagnostic.Unescaped text
  suggestion : ∀ text ∈ m.suggestion, Diagnostic.Unescaped text
  cause : ∀ text ∈ m.cause, Diagnostic.Unescaped text

theorem unescaped_excerptPieces {row : String} (h : Unescaped row) (limit : Nat) :
    UnescapedPieces (excerptPieces limit row) := by
  have hbar : Unescaped " | " := by decide
  unfold excerptPieces
  split
  next => simp [h]
  next number text hcut =>
    have hrow := cut_eq_some hcut
    have hnumber : Unescaped (String.ofList number) := by
      apply h.of_subset
      rw [hrow]
      exact List.subset_append_left _ _
    have hshown : Unescaped (String.ofList (truncate limit text)) := by
      have htext : escapeChar ∉ text := by
        intro hmem
        apply h
        rw [hrow]
        exact List.mem_append_right _ (List.mem_append_right _ hmem)
      rw [Unescaped, String.toList_ofList]
      exact not_mem_truncate htext (by decide)
    dsimp only
    split
    · simp [hnumber.append hbar, hshown]
    · simp [Piece.plain, hnumber, hbar, hshown]

theorem unescaped_causePieces {cause : String} (h : Unescaped cause) :
    UnescapedPieces (causePieces cause) := by
  have hrows : ∀ row ∈ (lines cause.toList).map String.ofList, Unescaped row := by
    rw [List.forall_mem_map]
    exact fun line hline => h.of_subset fun c hc => (of_mem_lines hline hc).1
  have htitle : Unescaped "Caused by:" := by decide
  unfold causePieces
  split
  next => simp [htitle]
  next first rest heq =>
    rw [heq, List.forall_mem_cons] at hrows
    refine UnescapedPieces.append_iff.2
      ⟨.titled htitle hrows.1 .cause, .flatMap fun row hrow => ?_⟩
    have hindented := (unescaped_spaces 11).append (hrows.2 row hrow)
    simp [causeIndent, hindented]

namespace Message.Unescaped

variable {m : Message}

theorem header (h : m.Unescaped) : Diagnostic.Unescaped m.header := by
  have hlabel : Diagnostic.Unescaped m.label := m.printable_label.not_mem (by decide)
  have htoken := h.token.of_subset ( trim_infix m.token.toList).subset
  rw [m.header_eq]
  refine (hlabel.append h.description).append ?_
  unfold Message.quoted
  dsimp only
  split
  · decide
  · exact (Unescaped.append (by decide) htoken).append (by decide)

theorem location (h : m.Unescaped) : Diagnostic.Unescaped m.location :=
  (((h.file.append (by decide)).append (unescaped_toString m.line)).append (by decide)).append
    (unescaped_toString m.column)

theorem notePieces (h : m.Unescaped) (filePath : Bool) :
    UnescapedPieces (notePieces filePath m) := by
  have hhint : UnescapedPieces
      ((m.hint.map fun text => [⟨.hint, "Hint:"⟩, .plain (" " ++ text), .newline]).getD []) :=
    .getD fun text htext => .titled (by decide) (h.hint text htext) .hint
  have hsuggestion : UnescapedPieces ((m.suggestion.map fun text =>
      [⟨.suggestion, "Suggestion:"⟩, .plain (" " ++ text), .newline]).getD []) :=
    .getD fun text htext => .titled (by decide) (h.suggestion text htext) .suggestion
  have hcause : UnescapedPieces ((m.cause.map causePieces).getD []) :=
    .getD fun text htext => unescaped_causePieces (h.cause text htext)
  have hfile : UnescapedPieces
      (if filePath then [.newline, .plain "File: ", ⟨.path, m.file⟩, .newline] else []) := by
    have htitle : Diagnostic.Unescaped "File: " := by decide
    apply UnescapedPieces.ite
    simp [htitle, h.file]
  simp only [Diagnostic.notePieces, UnescapedPieces.append_iff]
  exact ⟨⟨⟨⟨by simp, hhint⟩, hsuggestion⟩, hcause⟩, hfile⟩

theorem messagePieces (h : m.Unescaped) (o : Options) : UnescapedPieces (messagePieces o m) := by
  have hfront : UnescapedPieces
      [⟨.header, m.header⟩, .newline, ⟨.gutter, "--> "⟩, ⟨.path, m.location⟩, .newline] := by
    have harrow : Diagnostic.Unescaped "--> " := by decide
    simp [h.header, h.location, harrow]
  have hexcerpt : UnescapedPieces (if m.excerpt.isEmpty then [] else
      [⟨.gutter, "   |"⟩, .newline] ++ m.excerpt.flatMap (excerptPieces o.lineWidth)) := by
    split
    · exact UnescapedPieces.nil
    · have hbar : Diagnostic.Unescaped "   |" := by decide
      refine UnescapedPieces.append_iff.2 ⟨by simp [hbar], .flatMap fun row hrow => ?_⟩
      exact unescaped_excerptPieces (h.excerpt row hrow) o.lineWidth
  simp only [Diagnostic.messagePieces, UnescapedPieces.append_iff]
  exact ⟨⟨hfront, hexcerpt⟩, (h.notePieces o.filePath).ite⟩

end Message.Unescaped

theorem unescaped_pieces {messages : List Message} (h : ∀ m ∈ messages, m.Unescaped)
    (o : Options) : UnescapedPieces (pieces o messages) := by
  fun_induction pieces o messages with
  | case1 => exact .nil
  | case2 m => exact (h m List.mem_cons_self).messagePieces o
  | case3 m rest _ ih =>
    rw [List.forall_mem_cons] at h
    exact UnescapedPieces.append_iff.2
      ⟨h.1.messagePieces o, UnescapedPieces.cons_iff.2 ⟨unescaped_newline, ih h.2⟩⟩

/-- What is written does not depend on colours, only how. -/
theorem pieces_colors (o : Options) (colors : Bool) (messages : List Message) :
    pieces { o with colors } messages = pieces o messages := by
  fun_induction pieces o messages with
  | case1 => rfl
  | case2 m => rfl
  | case3 m rest hrest ih =>
    rw [pieces.eq_3 _ m rest hrest, ih]
    rfl

theorem render_colors (o : Options) (colors : Bool) (messages : List Message) :
    render { o with colors } messages = writePieces colors (pieces o messages) := by
  rw [render, pieces_colors]

/-- **Colour is decoration.** Without its control sequences a rendering in colours is the rendering
without colours, which has none. -/
theorem stripControls_render {messages : List Message} (h : ∀ m ∈ messages, m.Unescaped)
    (o : Options) :
    stripControls (render { o with colors := true } messages).toList =
        (render { o with colors := false } messages).toList ∧
      Unescaped (render { o with colors := false } messages) := by
  have hpieces := unescaped_pieces h o
  rw [render_colors, render_colors]
  exact ⟨hpieces.stripControls_write, hpieces.unescaped_write⟩

/-- A message with an excerpt, advice and a cause. -/
def unclosedFunction : Message :=
  (((Message.new .grammar "Expected '\x7d' after block.").locate 3 1).inFile "main.lm").withSource
    "fn f() \x7b\n  var x = 1;\n" 2 1 |>.inBlock ⟨"function", 1, 8, "\x7b"⟩

theorem stripControls_render_unclosedFunction :
    (∀ m ∈ [unclosedFunction, unclosedFunction], m.Unescaped) ∧
      stripControls (render {} [unclosedFunction, unclosedFunction]).toList =
        (render { colors := false } [unclosedFunction, unclosedFunction]).toList := by
  have hclean : unclosedFunction.Unescaped := by
    constructor <;> decide +kernel
  have hall : ∀ m ∈ [unclosedFunction, unclosedFunction], m.Unescaped := by simp [hclean]
  exact ⟨hall, (stripControls_render hall {}).1⟩

end LimitSyntax.Diagnostic
