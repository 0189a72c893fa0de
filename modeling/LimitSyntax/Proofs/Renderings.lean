import LimitSyntax.Diagnostic.Render
import LimitSyntax.Proofs.ExcerptRows

/-!
# The rows of a rendering

A rendering without colours is the text of its pieces one after another, so that its rows are those
of its parts as long as a part ends a row.
-/

namespace LimitSyntax.Diagnostic

open Text (splitLines OneLine)

/-! ## Pieces -/

theorem Piece.write_false (p : Piece) : p.write false = p.text := rfl

@[simp] theorem Piece.text_plain (text : String) : (plain text).text = text := rfl

theorem toList_writePieces_cons (colors : Bool) (p : Piece) (ps : List Piece) :
    (writePieces colors (p :: ps)).toList =
      (p.write colors).toList ++ (writePieces colors ps).toList := by
  rw [writePieces, List.map_cons, String.join_cons, String.toList_append]
  rfl

theorem toList_writePieces_append (colors : Bool) (ps qs : List Piece) :
    (writePieces colors (ps ++ qs)).toList =
      (writePieces colors ps).toList ++ (writePieces colors qs).toList := by
  induction ps with
  | nil => rfl
  | cons p ps ih =>
    rw [List.cons_append, toList_writePieces_cons, toList_writePieces_cons, ih, List.append_assoc]

/-- Without colours there is nothing in a rendering but its pieces. -/
theorem not_mem_writePieces {ps : List Piece} {c : Char} (h : ∀ p ∈ ps, c ∉ p.text.toList) :
    c ∉ (writePieces false ps).toList := by
  induction ps with
  | nil => exact List.not_mem_nil
  | cons p ps ih =>
    rw [List.forall_mem_cons] at h
    rw [toList_writePieces_cons, Piece.write_false, List.mem_append, not_or]
    exact ⟨h.1, ih h.2⟩

/-- The rows that pieces make without colours. -/
def rows (ps : List Piece) : List (List Char) := splitLines (writePieces false ps).toList

theorem rows_append_newline (ps qs : List Piece) :
    rows (ps ++ .newline :: qs) = rows ps ++ rows qs := by
  have hfeed : (Piece.newline.write false).toList = ['\n'] := rfl
  rw [rows, toList_writePieces_append, toList_writePieces_cons, hfeed, List.singleton_append,
    Text.splitLines_append_newline]
  rfl

/-- A row of its own. -/
theorem rows_of_oneLine {ps : List Piece} (h : '\n' ∉ (writePieces false ps).toList) :
    rows ps = [(writePieces false ps).toList] :=
  Text.splitLines_of_not_mem h

/-! ## Parts that end a row -/

/-- The last of the pieces ends a row. -/
def EndsRow (ps : List Piece) : Prop := ∃ qs, ps = qs ++ [.newline]

theorem EndsRow.append {ps qs : List Piece} (h : EndsRow qs) : EndsRow (ps ++ qs) := by
  obtain ⟨qs, rfl⟩ := h
  exact ⟨ps ++ qs, (List.append_assoc ..).symm⟩

theorem EndsRow.flatMap {α : Type} {f : α → List Piece} (hf : ∀ x, EndsRow (f x))
    {ps : List Piece} (h : EndsRow ps) (xs : List α) : EndsRow (ps ++ xs.flatMap f) := by
  rcases List.eq_nil_or_concat xs with rfl | ⟨xs, x, rfl⟩
  · simpa using h
  · rw [List.concat_eq_append, List.flatMap_append, List.flatMap_singleton, ← List.append_assoc]
    exact (hf x).append

/-- What follows begins a row. -/
theorem EndsRow.rows_append {ps : List Piece} (h : EndsRow ps) (qs : List Piece) :
    ∃ before, rows (ps ++ qs) = before ++ rows qs := by
  obtain ⟨ps, rfl⟩ := h
  exact ⟨rows ps, by rw [List.append_assoc, List.singleton_append, rows_append_newline]⟩

/-! ## Rows of an excerpt -/

theorem endsRow_excerptPieces (limit : Nat) (row : String) : EndsRow (excerptPieces limit row) := by
  unfold excerptPieces
  split
  · exact ⟨[_], rfl⟩
  · dsimp only
    split
    · exact ⟨[_, _], rfl⟩
    · exact ⟨[_, _, _], rfl⟩

/-- What a row of an excerpt looks like: behind the first bar it is cut to the limit. -/
theorem write_excerptPieces {row : String} {number text : List Char}
    (h : readRow row = some (number, text)) (limit : Nat) :
    ∃ ps, excerptPieces limit row = ps ++ [.newline] ∧
      (writePieces false ps).toList = number ++ (Text.bar ++ truncate limit text) := by
  rw [readRow] at h
  unfold excerptPieces
  rw [h]
  dsimp only
  split
  · exact ⟨[_, _], rfl, by simp [writePieces, Piece.write, Text.bar]⟩
  · exact ⟨[_, _, _], rfl, by simp [writePieces, Piece.write, Text.bar]⟩

theorem not_mem_truncate {limit : Nat} {cs : List Char} {c : Char} (h : c ∉ cs) (hc : c ≠ '…') :
    c ∉ truncate limit cs := by
  unfold truncate
  split
  · exact h
  · rw [List.mem_append, not_or]
    exact ⟨fun hmem => h (List.mem_of_mem_take hmem), by simpa using hc⟩

/-- The row of an excerpt is shown as the one row `shown`. -/
def ShownAs (limit : Nat) (row : String) (shown : List Char) : Prop :=
  ∀ qs, rows (excerptPieces limit row ++ qs) = shown :: rows qs

theorem shownAs_of_readRow {row : String} {number text : List Char}
    (h : readRow row = some (number, text)) (hnumber : '\n' ∉ number) (htext : '\n' ∉ text)
    (limit : Nat) : ShownAs limit row (number ++ (Text.bar ++ truncate limit text)) := by
  intro qs
  obtain ⟨ps, heq, hwrite⟩ := write_excerptPieces h limit
  have hline : '\n' ∉ (writePieces false ps).toList := by
    have hshown : '\n' ∉ truncate limit text := not_mem_truncate htext (by decide)
    simp [hwrite, hnumber, hshown, Text.bar]
  rw [heq, List.append_assoc, List.singleton_append, rows_append_newline, rows_of_oneLine hline,
    hwrite, List.singleton_append]

theorem shownAs_sourceRow {line : List Char} (h : '\n' ∉ line) (number gutter limit : Nat) :
    ShownAs limit (sourceRow number line gutter)
      ((Text.padLeft gutter (toString number)).toList ++ (Text.bar ++ truncate limit line)) := by
  have hnumber : '\n' ∉ (Text.padLeft gutter (toString number)).toList :=
    Text.not_mem_padLeft (by decide) gutter (Text.not_mem_toString (by decide) number)
  exact shownAs_of_readRow (readRow_sourceRow number line gutter) hnumber h limit

theorem shownAs_indicatorRow (line : List Char) (column : Nat) (token : String)
    (gutter limit : Nat) :
    ShownAs limit (indicatorRow line column token gutter)
      (List.replicate gutter ' ' ++ (Text.bar ++ truncate limit
        (List.replicate (Text.width (line.take (column - 1))) ' ' ++
          List.replicate (max (Text.width (Text.firstLine token.toList)) 1) '^'))) :=
  shownAs_of_readRow (readRow_indicatorRow line column token gutter) (by simp) (by simp) limit

/-! ## Headers -/

/-- The beginning of a header: the code and the category. -/
def Message.label (m : Message) : String :=
  "error[" ++ m.code.text ++ "][" ++ m.category.name ++ "]: "

/-- The end of a header: the token, unless it is empty or quoted in the description. -/
def Message.quoted (m : Message) : String :=
  let token := String.ofList (Text.trim m.token.toList)
  if token.isEmpty || Text.contains m.description token then "" else " `" ++ token ++ "`"

theorem Message.header_eq (m : Message) : m.header = m.label ++ m.description ++ m.quoted := rfl

/-- A text is free of control characters. -/
def Printable (text : String) : Prop := ∀ c ∈ text.toList, ' ' ≤ c

instance (text : String) : Decidable (Printable text) := List.decidableBAll _ text.toList

theorem Printable.append {s t : String} (hs : Printable s) (ht : Printable t) :
    Printable (s ++ t) := by
  rw [Printable, String.toList_append, List.forall_mem_append]
  exact ⟨hs, ht⟩

theorem Printable.not_mem {text : String} (h : Printable text) {c : Char} (hc : c < ' ') :
    c ∉ text.toList :=
  fun hmem => absurd (h c hmem) (Char.not_le.2 hc)

theorem printable_padZeros (width n : Nat) : Printable (Text.padZeros width n) := by
  intro c hc
  by_contra hlt
  have hdigit : c.isDigit = false := by
    have hval : c.val < 48 := Nat.lt_trans (Char.not_le.1 hlt) (by decide)
    rw [Char.isDigit, Bool.and_eq_false_iff, decide_eq_false_iff_not, UInt32.not_le]
    exact .inl hval
  exact Text.not_mem_padZeros hdigit width n hc

theorem Message.printable_label (m : Message) : Printable m.label := by
  have hcode : Printable m.code.text := .append (by decide) (printable_padZeros 3 m.code.number)
  have hcategory : Printable m.category.name := by
    cases m.category <;> decide
  exact ((((show Printable "error[" by decide).append hcode).append (t := "][") (by decide)).append
    hcategory).append (t := "]: ") (by decide)

/-! ## Messages -/

/-- The header and the location come first. -/
theorem rows_eq_header_append {m : Message} (hfile : OneLine m.file) (o : Options) :
    ∃ rest, rows (messagePieces o m) =
      splitLines m.header.toList ++ ("--> " ++ m.location).toList :: rest := by
  have hlocation : OneLine ("--> " ++ m.location) :=
    .append (by decide) <| .append (.append (.append (.append hfile (by decide))
      (Text.oneLine_toString _)) (by decide)) (Text.oneLine_toString _)
  have hpieces : ∃ rest, messagePieces o m = [⟨.header, m.header⟩] ++ .newline ::
      ([⟨.gutter, "--> "⟩, ⟨.path, m.location⟩] ++ .newline :: rest) :=
    ⟨_, by rw [messagePieces, List.append_assoc]; rfl⟩
  have hheader : (writePieces false [⟨.header, m.header⟩]).toList = m.header.toList := by
    simp [writePieces, Piece.write_false]
  have harrow : (writePieces false [⟨.gutter, "--> "⟩, ⟨.path, m.location⟩]).toList =
      ("--> " ++ m.location).toList := by
    simp [writePieces, Piece.write_false]
  obtain ⟨rest, heq⟩ := hpieces
  refine ⟨rows rest, ?_⟩
  rw [heq, rows_append_newline, rows_append_newline, rows, hheader,
    rows_of_oneLine (harrow ▸ hlocation), harrow]
  rfl

theorem rows_messagePieces (o : Options) (m : Message) :
    splitLines (render { o with colors := false } [m]).toList = rows (messagePieces o m) := rfl

/-- Two rows that stand one below the other in a message's excerpt do so in its rendering. -/
theorem infix_rows_messagePieces {o : Options} {m : Message} {row row' : String}
    {shown shown' : List Char} (h : [row, row'] <:+: m.excerpt)
    (hrow : ShownAs o.lineWidth row shown) (hrow' : ShownAs o.lineWidth row' shown') :
    [shown, shown'] <:+: rows (messagePieces o m) := by
  obtain ⟨above, below, hexcerpt⟩ := h
  have hne : m.excerpt.isEmpty = false := by simp [← hexcerpt]
  -- the rows above end in a row end, down to the bar that opens the excerpt
  have hends : EndsRow ([⟨.header, m.header⟩, .newline, ⟨.gutter, "--> "⟩, ⟨.path, m.location⟩,
      .newline, ⟨.gutter, "   |"⟩, .newline] ++ above.flatMap (excerptPieces o.lineWidth)) :=
    .flatMap (endsRow_excerptPieces o.lineWidth) ⟨[_, _, _, _, _, _], rfl⟩ above
  obtain ⟨before, hbefore⟩ := hends.rows_append (excerptPieces o.lineWidth row ++
    (excerptPieces o.lineWidth row' ++ (below.flatMap (excerptPieces o.lineWidth) ++
      if m.hasNotes then notePieces o.filePath m else [])))
  rw [hrow, hrow'] at hbefore
  refine ⟨before, rows (below.flatMap (excerptPieces o.lineWidth) ++
    if m.hasNotes then notePieces o.filePath m else []), ?_⟩
  rw [messagePieces, hne, if_neg Bool.false_ne_true, ← hexcerpt]
  simpa using hbefore.symm

end LimitSyntax.Diagnostic
