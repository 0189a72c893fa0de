import LimitSyntax.Proofs.Citations
import LimitSyntax.Proofs.Codes
import LimitSyntax.Proofs.Renderings
import LimitSyntax.Proofs.ScanReports
import LimitSyntax.Proofs.UnclosedBodies

/-!
# Headers

All that is said of a source stands on one line, for the words and numbers it quotes do
(`Grammar.upheld_legible`). But a header quotes the token at fault in full, and a string may go over
several lines: the header of a message then does too, and the location comes behind its last row
(`Grammar.header_rows`).
-/

namespace LimitSyntax

open Diagnostic
open Text (OneLine)

/-! ## Rows of a header -/

namespace Diagnostic.Message

variable {m : Message}

/-- What is quoted has a line feed in it just if the token has. -/
theorem oneLine_quoted (hdescription : OneLine m.description) :
    OneLine m.quoted ↔ '\n' ∉ Text.trim m.token.toList := by
  unfold quoted
  dsimp only
  split
  next hhidden =>
    rw [Bool.or_eq_true, String.isEmpty_iff, Text.contains_iff, String.toList_ofList] at hhidden
    refine iff_of_true (by decide) fun hmem => ?_
    rcases hhidden with hempty | hinside
    · rw [← String.toList_eq_nil_iff, String.toList_ofList] at hempty
      rw [hempty] at hmem
      exact absurd hmem List.not_mem_nil
    · exact hdescription (hinside.subset hmem)
  next => simp [OneLine]

/-- A header stands on one line just if the token that it quotes does. -/
theorem oneLine_header (hdescription : OneLine m.description) :
    OneLine m.header ↔ '\n' ∉ Text.trim m.token.toList := by
  have hlabel : OneLine m.label := m.printable_label.not_mem (by decide)
  rw [m.header_eq, ← oneLine_quoted hdescription, OneLine, Text.not_mem_append]
  exact and_iff_right (hlabel.append hdescription)

end Diagnostic.Message

/-! ## What a parse says -/

namespace Grammar

/-- The words and numbers of the parse stand on one line each, and so does all that was said. -/
structure State.Legible (s : State) : Prop where
  tidy : s.Tidy
  lines : ∀ m ∈ s.errors.messages, OneLine m.description

namespace State.Legible

variable {i : Input} {s t : State}

/-- Nothing is reported on the way. -/
theorem silent (h : s.Legible) (hsteps : Steps i s t) (herrors : t.errors = s.errors) :
    t.Legible where
  tidy := by
    rw [Tidy, hsteps.tokens_eq]
    exact h.tidy
  lines := herrors ▸ h.lines

theorem report (h : s.Legible) {description : String} (hline : OneLine description)
    (token : Token) (block : Option OpenBlock) :
    (s.report i token description block).Legible where
  tidy := by
    rw [Tidy, (Step.report (i := i) s token description block).tokens_eq]
    exact h.tidy
  lines := by
    intro m hm
    rcases s.of_mem_report hm with hm | hdescription | hnote
    · exact h.lines m hm
    · exact hdescription ▸ hline
    · rw [hnote]
      decide

end State.Legible

/-- Whatever a rule does, all that was said stands on one line. -/
theorem upheld_legible (i : Input) : Upheld i (fun _ _ => True) State.Legible where
  silent hs hsteps herrors _ := hs.silent hsteps herrors
  next _ := trivial
  stays _ _ _ _ := trivial
  report hs _ hline := hs.report (hline hs.tidy) _ _
  reportLate hs _ := hs.report (by decide) _ _
  reportUnclosed hs hline := hs.report hline _ _

/-! ## What a parse points at -/

/-- The message is about the source. The token at fault stands on one line, or it is a string or the
beginning of one. -/
structure Names (src : Source) (tokens : List Token) (m : Message) : Prop where
  file : m.file = src.file
  token : OneLine m.token ∨ ∃ t ∈ tokens, t.lexeme = m.token ∧
    (t.kind = .string ∨ t.kind = .interpolationStart)

theorem Names.report {src : Source} {tokens : List Token} {c : Collector} {m : Message}
    (hm : Names src tokens m) (hc : ∀ n ∈ c.messages, Names src tokens n)
    (text : Option String) : ∀ n ∈ (c.report m text).messages, Names src tokens n := by
  intro n hn
  rcases Collector.of_mem_report hn with hn | ⟨rows, rfl⟩
  · exact hc n hn
  · exact ⟨hm.file, hm.token⟩

section
variable {i : Input} {s s' : State} {tokens : List Token}
  (hlines : ∀ t ∈ tokens,
    OneLine t.lexeme ∨ t.kind = .string ∨ t.kind = .interpolationStart ∨ t.kind = .error)
include hlines

theorem State.names_report (hs : ∀ m ∈ s.errors.messages, Names i.source tokens m) {t : Token}
    (ht : t ∈ tokens) (description : String) (block : Option OpenBlock) :
    ∀ m ∈ (s.report i t description block).errors.messages, Names i.source tokens m := by
  rw [State.report_eq_ite]
  rcases block with _ | b
  all_goals
    dsimp only
    split
    · exact hs
    next hkind =>
      have htoken : OneLine t.lexeme ∨ ∃ u ∈ tokens, u.lexeme = t.lexeme ∧
          (u.kind = .string ∨ u.kind = .interpolationStart) := by
        rcases hlines t ht with hline | hstring | hstart | herror
        · exact .inl hline
        · exact .inr ⟨t, ht, rfl, .inl hstring⟩
        · exact .inr ⟨t, ht, rfl, .inr hstart⟩
        · rw [Bool.or_eq_true, not_or, beq_iff_eq] at hkind
          exact absurd herror hkind.2
      -- the note on too many errors shows no token
      have hnote : Names i.source tokens (i.message t tooManyErrors) :=
        ⟨rfl, .inl (show OneLine "" by decide)⟩
      split
      · exact hs
      split
      · exact Names.report ⟨rfl, htoken⟩ hs _
      · exact hnote.report (Names.report ⟨rfl, htoken⟩ hs _) _

/-- Whatever is done in a parse, its messages are about the source and its tokens. -/
theorem Moves.names (h : Moves i s s') (htokens : ∀ t ∈ s.read.toList ++ s.rest, t ∈ tokens)
    (heof : i.eof ∈ tokens) (hs : ∀ m ∈ s.errors.messages, Names i.source tokens m) :
    ∀ m ∈ s'.errors.messages, Names i.source tokens m :=
  h.keeps (Q := fun c => ∀ m ∈ c.messages, Names i.source tokens m) htokens heof
    (fun _ _ description block ht hv => State.names_report hlines hv ht description block) hs

end

/-! ## Whole sources -/

/-- What is reported on a source is about that source, and stands on one line. -/
theorem names_parseScanned (source : Source) (mode : Scan.Mode) (config : Config)
    (options : Options) :
    ∀ m ∈ (parseScanned source mode config { options }).2.messages, OneLine m.description ∧
      Names source (Scan.scan source mode { options }).1.tokens m := by
  have hscanned := Scan.explained_scan source mode options
  have hlines : ∀ t ∈ (Scan.scan source mode { options }).1.tokens, OneLine t.lexeme ∨
      t.kind = .string ∨ t.kind = .interpolationStart ∨ t.kind = .error :=
    fun _ => Scan.oneLine_scan
  have hend : endOf (Scan.scan source mode { options }).1.tokens ∈
      (Scan.scan source mode { options }).1.tokens := by
    rw [Scan.tokens_scan, endOf_append _ rfl]
    exact List.mem_append_right _ (List.mem_singleton_self _)
  rw [parseScanned, collector_parse, runProgram_eq]
  generalize htokens : (Scan.scan source mode { options }).1.tokens = tokens at hlines hend ⊢
  have htidy : ∀ t ∈ tokens, t.kind.isPlain = true → OneLine t.lexeme := by
    intro t ht hplain
    rcases hlines t ht with hline | hkind | hkind | hkind
    · exact hline
    all_goals
      rw [hkind] at hplain
      cases hplain
  have hread {t : Token} (ht : t ∈ #[].toList ++ tokens) : t ∈ tokens := by simpa using ht
  have hmoves := moves_topDeclarations ⟨tokens, mode, source⟩ config
    (Scan.scan source mode { options }).2
  have hlegible := (Twin.topDeclarations tokens.length).reports.keeps
    (s := .start ⟨tokens, mode, source⟩ config (Scan.scan source mode { options }).2)
    (upheld_legible (.of ⟨tokens, mode, source⟩ config)) (endOf_kind tokens) trivial
    (fun _ hnone => by cases hnone)
    ⟨fun t ht => htidy t (hread ht), fun m hm => (hscanned m hm).reason.oneLine⟩
  intro m hm
  refine ⟨hlegible.lines m hm, hmoves.names hlines (fun t ht => hread ht) hend ?_ m hm⟩
  exact fun m hm => ⟨(hscanned m hm).file, .inl (hscanned m hm).token⟩

/-- Header and location of a message. The rendering starts with the header, whatever rows that has,
and goes on with the location in a row of its own. They are the first two rows just if there is no
line feed inside of the token at fault. If there is one in the token, then that is a string, or the
text of one in front of an interpolation. -/
theorem header_rows {source : Source} (hfile : OneLine source.file) (config : Config)
    (options o : Options) :
    ∀ m ∈ (parseSource source config { options }).1.errors,
      let rows := Text.splitLines (render { o with colors := false } [m]).toList
      let location := "--> " ++ (source.file ++ ":" ++ toString m.line ++ ":" ++ toString m.column)
      "error[".toList <+: m.header.toList ∧
      (∃ rest, rows = Text.splitLines m.header.toList ++ location.toList :: rest) ∧
      (rows.take 2 = [m.header.toList, location.toList] ↔ '\n' ∉ Text.trim m.token.toList) ∧
      ('\n' ∈ m.token.toList → ∃ t ∈ (Scan.scan source
        (if config.buildTree then .lossless else .lossy) { options }).1.tokens,
          t.lexeme = m.token ∧ (t.kind = .string ∨ t.kind = .interpolationStart)) := by
  intro m hm rows location
  rw [errors_parseSource source config options _ rfl, Array.mem_toList_iff] at hm
  obtain ⟨hdescription, hnames⟩ := names_parseScanned source _ config options m hm
  have hlocation : m.location =
      source.file ++ ":" ++ toString m.line ++ ":" ++ toString m.column := by
    rw [Message.location, hnames.file]
  obtain ⟨rest, hrows⟩ := rows_eq_header_append (m := m) (by rw [hnames.file]; exact hfile) o
  rw [← rows_messagePieces, hlocation] at hrows
  refine ⟨?_, ⟨rest, hrows⟩, ?_, fun hfeed => hnames.token.resolve_left (absurd hfeed ·)⟩
  · rw [m.header_eq, Message.label]
    simp only [String.append_assoc]
    rw [String.toList_append]
    exact List.prefix_append ..
  · rw [← Message.oneLine_header hdescription]
    constructor
    · intro htake hfeed
      have hmem : m.header.toList ∈ rows := List.mem_of_mem_take (htake ▸ List.mem_cons_self)
      exact Text.not_mem_of_mem_splitLines hmem hfeed
    · intro hheader
      rw [show rows = _ from hrows, Text.splitLines_of_not_mem hheader]
      rfl

/-- A string in place of a name. -/
theorem header_rows_string : ∃ m ∈ (parseSource ⟨"x.\"a\";", "<mem>"⟩ {} {}).1.errors,
    OneLine "<mem>" ∧ '\n' ∉ Text.trim m.token.toList ∧
      (Text.splitLines (render { colors := false } [m]).toList).take 2 =
        [m.header.toList, "--> <mem>:1:3".toList] := by
  obtain ⟨m, hm, hline, hcolumn, htoken⟩ :
      ∃ m ∈ (parseSource ⟨"x.\"a\";", "<mem>"⟩ {} {}).1.errors,
        m.line = 1 ∧ m.column = 3 ∧ '\n' ∉ Text.trim m.token.toList := by decide +kernel
  obtain ⟨-, -, hrows, -⟩ := @header_rows ⟨"x.\"a\";", "<mem>"⟩ (by decide) {} {} {} m hm
  have htake := hrows.2 htoken
  rw [hline, hcolumn] at htake
  exact ⟨m, hm, by decide, htoken, htake⟩

/-- A string with a line feed in it tears the header apart. -/
theorem header_torn : ∃ m ∈ (parseSource ⟨"x.\"a\nb\";", "<mem>"⟩ {} {}).1.errors,
    OneLine "<mem>" ∧
      let rows := Text.splitLines (render { colors := false } [m]).toList
      rows.take 2 = ["error[E101][SyntaxError]: Expected property name after '.'. `\"a".toList,
        "b\"`".toList] ∧
      rows.take 2 ≠ [m.header.toList, "--> <mem>:1:3".toList] := by
  obtain ⟨m, hm, hfile, hheader⟩ :
      ∃ m ∈ (parseSource ⟨"x.\"a\nb\";", "<mem>"⟩ {} {}).1.errors,
        OneLine m.file ∧ Text.splitLines m.header.toList = [
          "error[E101][SyntaxError]: Expected property name after '.'. `\"a".toList,
          "b\"`".toList] := by decide +kernel
  obtain ⟨rest, hrows⟩ := rows_eq_header_append hfile { colors := false }
  rw [← rows_messagePieces, hheader] at hrows
  refine ⟨m, hm, by decide, by rw [hrows]; rfl, fun hwhole => ?_⟩
  rw [hrows] at hwhole
  have hsecond : "b\"`".toList = "--> <mem>:1:3".toList :=
    (List.cons.inj (List.cons.inj hwhole).2).1
  exact absurd hsecond (by decide)

end Grammar

end LimitSyntax
