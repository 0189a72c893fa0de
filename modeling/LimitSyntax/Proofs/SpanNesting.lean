import LimitSyntax.Proofs.ErrorsReported
import LimitSyntax.Proofs.Places
import LimitSyntax.Proofs.SpansDecls

/-!
# The spans of an accepted program nest

The tokens of a scan are a row (`Grammar.OnRow.scan`), so that a parse of them that reports nothing
puts all syntax in its place (`Grammar.OnRow.runProgram`). Then every piece of the program has a
span in the source that holds the spans of its children (`Grammar.spans_nest`).
-/

namespace LimitSyntax

open Ast

/-- A span between two offsets is held by the span from the one to the other. -/
theorem Span.Lies.contains {text : String} {lo hi : Nat} {s : Span} (h : s.Lies text lo hi) :
    (Span.mk lo hi).contains s = true := by
  simp [Span.contains, h.lower, h.upper]

/-- No token of a scan reaches beyond the end, nor does the end itself. -/
theorem Scan.stop_le_eof (source : Source) (mode : Mode) (errors : Diagnostic.Collector) :
    ∀ t ∈ (scan source mode errors).1.tokens,
      t.span.stop ≤ ((State.atEnd source mode errors).eof source).span.start := by
  have hordered := ordered_scan source mode errors
  rw [tokens_scan, List.pairwise_append] at hordered
  rw [tokens_scan]
  refine List.forall_mem_append.2 ⟨fun t ht => ?_, List.forall_mem_singleton.2 (Nat.le_refl _)⟩
  exact (hordered.2.2 t ht _ (List.mem_singleton_self _)).1

/-- A name in a scan takes at least one byte. -/
theorem Scan.start_lt_of_identifier {source : Source} {mode : Mode}
    {errors : Diagnostic.Collector} {t : Token} (ht : t ∈ (scan source mode errors).1.tokens)
    (hkind : t.kind = .identifier) : t.span.start < t.span.stop := by
  have hordered := ordered_scan source mode errors
  have hmem := ht
  rw [tokens_scan] at hordered hmem
  rcases List.mem_append.1 hmem with hmem | hmem
  · have hempty := ((List.pairwise_append.1 hordered).2.2 t hmem _ (List.mem_singleton_self _)).2
    refine (placed_scan source mode errors t ht).start_lt fun hnone => ?_
    exact nomatch hkind.symm.trans (hempty hnone).1
  · exact nomatch hkind.symm.trans (congrArg Token.kind (List.mem_singleton.1 hmem))

namespace Grammar

/-! ## The row of a scan -/

/-- The tokens of a source, and once more its end. -/
def rowOf (source : Source) : List Token :=
  (Scan.scan source .lossy {}).1.tokens ++ [endOf (Scan.scan source .lossy {}).1.tokens]

section
variable {source : Source}

theorem endOf_mem_scan :
    endOf (Scan.scan source .lossy {}).1.tokens ∈ (Scan.scan source .lossy {}).1.tokens := by
  rw [Scan.tokens_scan, endOf_append _ rfl]
  exact List.mem_append_right _ (List.mem_singleton_self _)

theorem mem_scan_of_mem_rowOf {t : Token} (ht : t ∈ rowOf source) :
    t ∈ (Scan.scan source .lossy {}).1.tokens := by
  rcases List.mem_append.1 ht with ht | ht
  · exact ht
  · exact List.mem_singleton.1 ht ▸ endOf_mem_scan

/-- A parse that starts with the tokens of a source is one of their row. -/
theorem OnRow.scan (source : Source) (config : Config) (errors : Diagnostic.Collector) :
    OnRow source.text (rowOf source)
      (.of ⟨(Scan.scan source .lossy {}).1.tokens, .lossy, source⟩ config)
      (.start ⟨(Scan.scan source .lossy {}).1.tokens, .lossy, source⟩ config errors) := by
  have hplaced := Scan.placed_scan source .lossy {}
  refine ⟨⟨endOf_kind _, fun t ht => ?_, List.pairwise_append.2
    ⟨(Scan.ordered_scan source .lossy {}).imp And.left, List.pairwise_singleton .., ?_⟩, rfl⟩, rfl,
    fun t ht hkind => Scan.start_lt_of_identifier (mem_scan_of_mem_rowOf ht) hkind⟩
  · have hplaced := hplaced t (mem_scan_of_mem_rowOf ht)
    exact ⟨hplaced.stop ▸ Nat.le_add_right .., hplaced.isValid⟩
  · have heof : (Input.of ⟨(Scan.scan source .lossy {}).1.tokens, .lossy, source⟩ config).eof =
        (Scan.State.atEnd source .lossy {}).eof source :=
      (congrArg endOf (Scan.tokens_scan source .lossy {})).trans (endOf_append _ rfl)
    rw [heof]
    exact fun t ht => List.forall_mem_singleton.2 (Scan.stop_le_eof source .lossy {} t ht)

end

/-! ## Accepted programs -/

/-- The statements of a parse of the row stand in the text, unless something is reported. -/
theorem OnRow.runProgram {text : String} {row : List Token} {stream : Scan.Stream}
    {config : Config} {errors : Diagnostic.Collector}
    (h : OnRow text row (.of stream config) (.start stream config errors))
    (hclean : (runProgram stream config errors).2.errors.messages = #[]) :
    Stands text row 0 text.utf8ByteSize (runProgram stream config errors).1 := by
  rw [runProgram_eq] at hclean ⊢
  rcases hrun : exec (topDeclarations (.upTo stream.tokens.length)) (.of stream config)
    (.start stream config errors) with ⟨_ | stmts, t⟩
  · exact .nil (Nat.zero_le _)
  · rw [hrun] at hclean
    have hsteps := (Twin.topDeclarations stream.tokens.length).stepwise.run h.eof hrun
    have hstands := (Spans.topDeclarations _).holds h trivial (Nat.zero_le _)
      (fun _ _ => trivial) hrun hclean t .refl
    exact hstands.mono (Nat.le_refl _) (h.steps hsteps hclean).lined.isValid_edge.le_rawEndPos

/-- Every piece of a program that is accepted stands in the source. -/
theorem nested_of_parseProgram {source : Source} {program : Program}
    (h : parseProgram source = .ok program) {p : Piece} (hp : program.HoldsPiece p) :
    p.Nested source.text (marks (rowOf source)) 0 source.text.utf8ByteSize := by
  obtain ⟨hclean, rfl⟩ := parseProgram_eq_ok_iff.1 h
  obtain ⟨q, hq, hholds⟩ := hp
  rw [parseScanned, collector_parse] at hclean
  rw [parseScanned, statements_parse] at hq
  have hstands := (OnRow.scan source {} (Scan.scan source .lossy {}).2).runProgram hclean
  exact (hstands.nested q hq).holds hholds

/-- Every piece of a program that is accepted has a span that starts in front of its end, lies in
the source between characters, and holds the span of each piece that is right inside of it. -/
theorem spans_nest {source : Source} {program : Program} (h : parseProgram source = .ok program)
    {p : Piece} (hp : program.HoldsPiece p) :
    p.span.start ≤ p.span.stop ∧ p.span.stop ≤ source.text.utf8ByteSize ∧
      String.Pos.Raw.IsValid source.text ⟨p.span.start⟩ ∧
      String.Pos.Raw.IsValid source.text ⟨p.span.stop⟩ ∧
      program.span.contains p.span = true ∧
      ∀ q ∈ p.children, p.span.contains q.span = true := by
  have hnested := nested_of_parseProgram h hp
  obtain ⟨-, rfl⟩ := parseProgram_eq_ok_iff.1 h
  exact ⟨hnested.lies.order, hnested.lies.upper, hnested.lies.validStart, hnested.lies.validStop,
    hnested.lies.contains, fun c hc => (hnested.child hc).lies.contains⟩

/-- The constructor that is made of the header of a class. -/
theorem spans_nest_constructor : ∃ program f,
    parseProgram ⟨"class P(s=\"é\")\x7b\x7d", "a"⟩ = .ok program ∧
    program.HoldsPiece (.function f) ∧ f.name = "init" ∧ program.span.contains f.span = true ∧
    ∀ q ∈ (Piece.function f).children, f.span.contains q.span = true := by
  have hclean : (parseScanned ⟨"class P(s=\"é\")\x7b\x7d", "a"⟩ .lossy {} {}).2.messages = #[] := by
    decide +kernel
  have h := parseProgram_eq_ok_iff.2 ⟨hclean, rfl⟩
  have hany : (parseScanned ⟨"class P(s=\"é\")\x7b\x7d", "a"⟩ .lossy {} {}).1.program.statements.any
      (·.kind.class?.any (·.methods.any (·.name == "init"))) = true := by decide +kernel
  obtain ⟨stmt, hmem, hstmt⟩ := List.any_eq_true.1 hany
  obtain ⟨c, hclass, hinit⟩ := (Option.any_eq_true _ _).1 hstmt
  obtain ⟨f, hf, hname⟩ := List.any_eq_true.1 hinit
  have hmethods : Piece.function f ∈ pieces c.methods :=
    List.mem_flatMap.2 ⟨f, hf, List.mem_singleton_self _⟩
  have hchild : Piece.function f ∈ pieces stmt.kind := by
    rw [StmtKind.class?_eq_some.1 hclass]
    simp only [pieces, List.mem_append]
    exact .inr (.inr (.inr hmethods))
  have hholds : Program.HoldsPiece _ (.function f) :=
    ⟨.stmt stmt, List.mem_flatMap.2 ⟨stmt, hmem, List.mem_singleton_self _⟩, .single hchild⟩
  obtain ⟨-, -, -, -, hspan, hchildren⟩ := spans_nest h hholds
  exact ⟨_, f, h, hholds, beq_iff_eq.1 hname, hspan, hchildren⟩

end Grammar

end LimitSyntax
