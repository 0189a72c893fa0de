import LimitSyntax.Proofs.Places
import LimitSyntax.Proofs.Progress
import Mathlib.Data.List.TakeWhile

/-!
# What messages cite

A message cites a text that stands in the source: its line and column are the place where the text
starts, and its excerpt shows the rows around that place (`Diagnostic.Message.Cites`). The scanner
cites the text it is at, a parse cites tokens that are at hand, so that every message of a source
points into it (`Grammar.parseSource_cites`).
-/

namespace LimitSyntax

/-! ## Lines and columns -/

namespace Text

/-- What `cs` adds to a line, the line kept in reverse: a line feed starts a new one. -/
def lineFrom (line cs : List Char) : List Char :=
  cs.foldl (fun line c => if c = '\n' then [] else c :: line) line

theorem lineFrom_cons (line : List Char) (c : Char) (cs : List Char) :
    lineFrom line (c :: cs) = lineFrom (if c = '\n' then [] else c :: line) cs := rfl

theorem columnFrom_zero (column : Nat) (cs : List Char) : columnFrom column 0 cs = column := by
  cases cs with
  | nil => rfl
  | cons c cs => rw [columnFrom, if_neg (Nat.not_le.2 c.utf8Size_pos)]

theorem columnFrom_append (line before rest : List Char) :
    columnFrom (line.length + 1) (byteLength before) (before ++ rest) =
      (lineFrom line before).length + 1 := by
  induction before generalizing line with
  | nil => exact columnFrom_zero _ rest
  | cons c cs ih =>
    have hcolumn : (if c = '\n' then 1 else line.length + 1 + 1) =
        (if c = '\n' then [] else c :: line).length + 1 := by split <;> rfl
    rw [byteLength_cons, List.cons_append, columnFrom, if_pos (Nat.le_add_right ..),
      Nat.add_sub_cancel_left, hcolumn, ih, lineFrom_cons]

/-- The column behind a text is the length of its last line. -/
theorem columnAt_append (before rest : List Char) :
    columnAt (before ++ rest) (byteLength before) = (lineFrom [] before).length + 1 :=
  columnFrom_append [] before rest

theorem prefix_splitLinesFrom (line : List Char) (done : List (List Char)) (cs : List Char) :
    done.reverse <+: splitLinesFrom line done cs := by
  induction cs generalizing line done with
  | nil => simp [splitLinesFrom]
  | cons c cs ih =>
    rw [splitLinesFrom]
    split
    · refine .trans ?_ (ih [] (line.reverse :: done))
      simp
    · exact ih (c :: line) done

/-- The line that is open goes on up to the next line feed. -/
theorem splitLinesFrom_open (line : List Char) (done : List (List Char)) (cs : List Char) :
    (splitLinesFrom line done cs)[done.length]? =
      some (line.reverse ++ cs.takeWhile (· ≠ '\n')) := by
  induction cs generalizing line with
  | nil => simp [splitLinesFrom]
  | cons c cs ih =>
    rw [splitLinesFrom]
    by_cases hc : c = '\n'
    · obtain ⟨more, hmore⟩ := prefix_splitLinesFrom [] (line.reverse :: done) cs
      rw [if_pos hc, ← hmore]
      simp [hc]
    · rw [if_neg hc, ih]
      simp [hc]

theorem splitLinesFrom_append (line : List Char) (done : List (List Char))
    (before rest : List Char) :
    (splitLinesFrom line done (before ++ rest))[done.length + before.count '\n']? =
      some ((lineFrom line before).reverse ++ rest.takeWhile (· ≠ '\n')) := by
  induction before generalizing line done with
  | nil => exact splitLinesFrom_open line done rest
  | cons c cs ih =>
    rw [List.cons_append, splitLinesFrom, lineFrom_cons]
    by_cases hc : c = '\n'
    · have hnext := ih [] (line.reverse :: done)
      rw [List.length_cons, Nat.add_right_comm, Nat.add_assoc] at hnext
      rw [if_pos hc, if_pos hc, hc, List.count_cons_self, hnext]
    · rw [if_neg hc, if_neg hc, List.count_cons_of_ne hc, ih]

/-- The line that the last line of `before` belongs to goes on in `rest`. -/
theorem splitLines_append (before rest : List Char) :
    (splitLines (before ++ rest))[before.count '\n']? =
      some ((lineFrom [] before).reverse ++ rest.takeWhile (· ≠ '\n')) := by
  have h := splitLinesFrom_append [] [] before rest
  rwa [List.length_nil, Nat.zero_add] at h

/-- The first line of a text has no line feed in it. -/
theorem firstLine_prefix_takeWhile (cs rest : List Char) :
    firstLine cs <+: (cs ++ rest).takeWhile (· ≠ '\n') := by
  unfold firstLine
  split
  next hnone =>
    rw [List.takeWhile_append_of_pos fun c hc => List.dropWhile_eq_nil_iff.1 hnone c hc]
    exact List.prefix_append ..
  next =>
    refine ( dropReturn_prefix _).trans ?_
    rw [List.takeWhile_append]
    split
    · exact (List.takeWhile_prefix _).trans (List.prefix_append ..)
    · exact List.prefix_rfl

end Text

/-! ## Excerpts -/

namespace Diagnostic

theorem infix_flatMap {α β : Type} {f : α → List β} {xs : List α} {x : α} (h : x ∈ xs) :
    f x <:+: xs.flatMap f := by
  obtain ⟨before, after, rfl⟩ := List.append_of_mem h
  exact ⟨before.flatMap f, after.flatMap f, by simp⟩

/-- The excerpt around a line of the source shows that line, and carets right below it. -/
theorem excerpt_shows {source : String} {line : Nat} {text : List Char} (hpos : 1 ≤ line)
    (htext : (Text.splitLines source.toList)[line - 1]? = some text) (column : Nat)
    (token : String) (before after : Nat) :
    ∃ gutter, [sourceRow line (Text.dropReturn text) gutter,
        indicatorRow (Text.dropReturn text) column token gutter] <:+:
      excerpt source line column token before after := by
  have hline : ((Text.splitLines source.toList).map Text.dropReturn)[line - 1]? =
      some (Text.dropReturn text) := by rw [List.getElem?_map, htext, Option.map_some]
  unfold excerpt
  generalize (Text.splitLines source.toList).map Text.dropReturn = lines at hline ⊢
  have hlength : line - 1 < lines.length := (List.getElem?_eq_some_iff.1 hline).1
  dsimp only
  rw [if_neg (by omega)]
  -- the rows start at or above the line and end at or below it
  generalize hfirst : max 1 (line - min before maxContext) = first
  generalize hlast : min (line + min after maxContext) lines.length = last
  have hle : 1 ≤ first ∧ first ≤ line ∧ line ≤ last := by omega
  have hmem : (Text.dropReturn text, line) ∈ ((lines.take last).drop (first - 1)).zipIdx first := by
    refine List.mk_mem_zipIdx_iff_le_and_getElem?_sub.2 ⟨hle.2.1, ?_⟩
    rw [List.getElem?_drop, show first - 1 + (line - first) = line - 1 by omega,
      List.getElem?_take_of_lt (by omega), hline]
  refine ⟨max (digitCount last) 2, .trans ?_ (infix_flatMap hmem)⟩
  exact (if_pos rfl).symm ▸ List.infix_rfl

/-! ## Citations -/

/-- The message is about a text of the source, at the place where that text starts. -/
structure Message.Cites (m : Message) (src : Source) (options : Options) : Prop where
  place : ∃ offset, src.Shows offset m.line m.token.toList ∧
    m.column = Text.columnAt src.text.toList offset
  rows : m.excerpt =
    Diagnostic.excerpt src.text m.line m.column m.token options.before options.after

/-- All messages are about texts of the source, which the excerpts show in one way. -/
structure Collector.Citing (c : Collector) (src : Source) (options : Options) : Prop where
  options_eq : c.options = options
  cites : ∀ m ∈ c.messages, m.Cites src options

theorem Collector.Citing.report {c : Collector} {src : Source} {options : Options} {m : Message}
    (h : c.Citing src options)
    (hplace : ∃ offset, src.Shows offset m.line m.token.toList ∧
      m.column = Text.columnAt src.text.toList offset) (hrows : m.excerpt = []) :
    (c.report m (some src.text)).Citing src options := by
  obtain ⟨rfl, hcites⟩ := h
  rw [Collector.report_eq_ite]
  split
  next => exact ⟨rfl, hcites⟩
  next =>
    refine ⟨rfl, fun n hn => ?_⟩
    rcases Array.mem_push.1 hn with hn | rfl
    · exact hcites n hn
    · rw [complete, hrows]
      exact ⟨hplace, rfl⟩

/-- A message that cites the source names one of its lines and a column of that line. The text it
cites goes on from there, and the excerpt shows the line with carets right below it. -/
theorem Message.Cites.points {m : Message} {src : Source} {options : Options}
    (h : m.Cites src options) :
    1 ≤ m.line ∧ ∃ line, (Text.splitLines src.text.toList)[m.line - 1]? = some line ∧
      1 ≤ m.column ∧ m.column - 1 ≤ line.length ∧
      Text.firstLine m.token.toList <+: line.drop (m.column - 1) ∧
      ∃ gutter, [sourceRow m.line (Text.dropReturn line) gutter,
        indicatorRow (Text.dropReturn line) m.column m.token gutter] <:+: m.excerpt := by
  obtain ⟨offset, ⟨before, after, hsplit, rfl, hline⟩, hcolumn⟩ := h.place
  rw [List.append_assoc] at hsplit
  rw [hsplit, Text.columnAt_append] at hcolumn
  have htext := Text.splitLines_append before (m.token.toList ++ after)
  rw [← hsplit, show before.count '\n' = m.line - 1 by omega] at htext
  refine ⟨by omega, _, htext, by omega, ?_, ?_, ?_⟩
  · rw [hcolumn, List.length_append, List.length_reverse]
    omega
  · rw [hcolumn, Nat.add_sub_cancel, ← List.length_reverse, List.drop_left]
    exact Text.firstLine_prefix_takeWhile ..
  · rw [h.rows]
    exact excerpt_shows (by omega) htext ..

end Diagnostic

/-! ## Scans -/

namespace Scan

open State

theorem State.Placed.citing {src : Source} {mode : Mode} {options : Diagnostic.Options}
    {s s' : State} (h : s.Placed src) (hm : Moves src mode s s')
    (hs : s.errors.Citing src options) : s'.errors.Citing src options := by
  induction hm with
  | refl => exact hs
  | @tail t _ hmoves hmove ih =>
    cases hmove with
    | report description shown hshown =>
      have hshows : src.Shows t.offset t.line (String.ofList shown).toList := by
        rw [String.toList_ofList]
        exact (h.moves hmoves).reached.shows hshown
      exact ih.report ⟨t.offset, hshows, rfl⟩ rfl
    | token | skip | divide => exact ih
    | trivia kind taken rest _ =>
      cases mode with
      | lossy => exact ih
      | lossless =>
        simp only [State.trivia]
        split <;> exact ih

/-- A scan cites its source. -/
theorem citing_scan (src : Source) (mode : Mode) (options : Diagnostic.Options) :
    (scan src mode { options }).2.Citing src options := by
  have hstart : ({ rest := src.text.toList, errors := { options } } : State).Placed src :=
    ⟨⟨[], by simp [remaining], rfl, rfl⟩, by simp, by simp, .nil, by simp⟩
  rw [errors_scan]
  exact hstart.citing (run_moves ..) ⟨rfl, by simp⟩

end Scan

/-! ## Parses -/

namespace Grammar

open Diagnostic in
theorem State.citing_report {i : Input} {s : State} {t : Token} {options : Options}
    (hs : s.errors.Citing i.source options) (ht : t.Placed i.source) (description : String)
    (block : Option OpenBlock) :
    (s.report i t description block).errors.Citing i.source options := by
  -- the note on too many errors cites no text, at the same place
  have hnote : i.source.Shows t.span.start t.line [] := ht.shows.of_prefix List.nil_prefix
  rw [State.report_eq_ite]
  rcases block with _ | b
  all_goals
    dsimp only
    split
    · exact hs
    split
    · exact hs
    split
    · exact hs.report ⟨_, ht.shows, rfl⟩ rfl
    · exact Collector.Citing.report (hs.report ⟨_, ht.shows, rfl⟩ rfl) ⟨_, hnote, rfl⟩ rfl

/-- A parse whose tokens stand in the source cites them. -/
theorem Moves.citing {i : Input} {s s' : State} {options : Diagnostic.Options} (h : Moves i s s')
    (htokens : ∀ t ∈ s.read.toList ++ s.rest, t.Placed i.source) (heof : i.eof.Placed i.source)
    (hs : s.errors.Citing i.source options) : s'.errors.Citing i.source options :=
  h.keeps (Q := fun c => c.Citing i.source options) htokens heof
    (fun _ _ description block ht hv => State.citing_report hv ht description block) hs

theorem citing_parseScanned (source : Source) (mode : Scan.Mode) (config : Config)
    (options : Diagnostic.Options) :
    (parseScanned source mode config { options }).2.Citing source options := by
  have hplaced := Scan.placed_scan source mode { options }
  have hciting := Scan.citing_scan source mode options
  have hend : endOf (Scan.scan source mode { options }).1.tokens =
      (Scan.State.atEnd source mode { options }).eof source := by
    rw [Scan.tokens_scan]
    exact endOf_append _ rfl
  rw [parseScanned, collector_parse, runProgram_eq]
  generalize htokens : (Scan.scan source mode { options }).1.tokens = tokens at hplaced hend
  have hmoves := moves_topDeclarations ⟨tokens, mode, source⟩ config
    (Scan.scan source mode { options }).2
  refine hmoves.citing (fun t ht => ?_) ?_ ?_
  · have hmem : t ∈ tokens := by simpa [State.start] using ht
    exact hplaced t hmem
  · show (endOf tokens).Placed source
    rw [hend]
    exact Scan.placed_eof source mode { options }
  · exact hciting

open Diagnostic in
theorem cites_of_mem_errors {source : Source} {config : Config} {options : Options} {m : Message}
    (hm : m ∈ (parseSource source config { options }).1.errors) : m.Cites source options := by
  rw [errors_parseSource source config options _ rfl, Array.mem_toList_iff] at hm
  exact (citing_parseScanned source _ config options).cites m hm

open Diagnostic in
/-- Every message of a source points into it. It names a line of the source and a column of that
line, or the one behind it; from there on the line starts with the first line of the token at
fault. The excerpt is that of the source at this place: it shows the line behind its number, and
right below it carets as wide as the first line of the token, under the column. -/
theorem parseSource_cites (source : Source) (config : Config) (options : Options) :
    ∀ m ∈ (parseSource source config { options }).1.errors,
      1 ≤ m.line ∧ m.line ≤ (Text.splitLines source.text.toList).length ∧
      ∃ line, (Text.splitLines source.text.toList)[m.line - 1]? = some line ∧
        1 ≤ m.column ∧ m.column - 1 ≤ line.length ∧
        Text.firstLine m.token.toList <+: line.drop (m.column - 1) ∧
        m.excerpt ≠ [] ∧
        m.excerpt = excerpt source.text m.line m.column m.token options.before options.after ∧
        ∃ gutter,
          [Text.padLeft gutter (toString m.line) ++ " | " ++ String.ofList (Text.dropReturn line),
            Text.spaces gutter ++ " | " ++
              Text.spaces (Text.width ((Text.dropReturn line).take (m.column - 1))) ++
              String.ofList (List.replicate
                (max (Text.width (Text.firstLine m.token.toList)) 1) '^')] <:+: m.excerpt := by
  intro m hm
  have hcites := cites_of_mem_errors hm
  obtain ⟨hline, line, htext, hcolumn, hle, hstart, gutter, hrows⟩ := hcites.points
  have hlength := (List.getElem?_eq_some_iff.1 htext).1
  simp only [sourceRow, indicatorRow] at hrows
  refine ⟨hline, by omega, line, htext, hcolumn, hle, hstart, ?_, hcites.rows, gutter, hrows⟩
  rintro hnone
  rw [hnone] at hrows
  exact absurd (List.infix_nil.1 hrows) (List.cons_ne_nil _ _)

open Diagnostic in
/-- A stray parenthesis in the second column of the second line. -/
theorem parseSource_cites_paren :
    ∃ m ∈ (parseSource ⟨"x;\n )", "a"⟩ {} {}).1.errors,
      m.line = 2 ∧ m.column = 2 ∧ m.token = ")" ∧
      m.excerpt = [" 1 | x;", " 2 |  )", "   |  ^"] ∧
      m.excerpt = excerpt "x;\n )" m.line m.column m.token 2 1 ∧
      ∃ line gutter, (Text.splitLines "x;\n )".toList)[m.line - 1]? = some line ∧
        [sourceRow 2 (Text.dropReturn line) gutter,
          indicatorRow (Text.dropReturn line) 2 ")" gutter] <:+: m.excerpt := by
  obtain ⟨m, hm, hline, hcolumn, htoken, hshown⟩ :
      ∃ m ∈ (parseSource ⟨"x;\n )", "a"⟩ {} {}).1.errors,
        m.line = 2 ∧ m.column = 2 ∧ m.token = ")" ∧
        m.excerpt = [" 1 | x;", " 2 |  )", "   |  ^"] := by decide +kernel
  obtain ⟨-, -, line, hsource, -, -, -, -, hexcerpt, gutter, hrows⟩ :=
    parseSource_cites _ {} {} m hm
  rw [hline, hcolumn, htoken] at hrows
  exact ⟨m, hm, hline, hcolumn, htoken, hshown, hexcerpt, line, gutter, hsource, hrows⟩

end Grammar

end LimitSyntax
