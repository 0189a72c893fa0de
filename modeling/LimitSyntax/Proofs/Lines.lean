import LimitSyntax.Proofs.Sites
import LimitSyntax.Proofs.SpanNesting
import LimitSyntax.Proofs.Spellings
import Mathlib.Data.List.Nodup

/-!
# The lines and the parameters of an accepted program

All syntax of an accepted program is marked by the tokens of its source
(`Grammar.nested_of_parseProgram`). As every token stands on the line of its offset, so does every
piece, unless it is a type in parentheses (`Grammar.line_eq_lineAt`). The parameters of a function
without a name and those of a class are in the order in which they are written, but the ones that
may be left out come last (`Grammar.parameters_sorted`).
-/

namespace LimitSyntax

open Ast

/-- The line of a piece. Parameters have none. -/
def Ast.Piece.line? : Piece → Option Nat
  | .stmt s => some s.line
  | .block b => some b.line
  | .expr e => some e.line
  | .pattern p => some p.line
  | .type t => some t.line
  | .param _ => none
  | .function f => some f.line

/-- No line ends in a text without line feeds. -/
theorem Token.Placed.line_eq_stop {source : Source} {t : Token} (h : t.Placed source)
    (hfeed : '\n' ∉ t.lexeme.toList) : t.line = source.lineAt t.span.stop := by
  obtain ⟨before, after, hsplit, hoffset, hline⟩ := h.shows
  have hstop : t.span.stop = Text.byteLength (before ++ t.lexeme.toList) := by
    rw [h.stop, Text.byteLength_append, hoffset]
  rw [hstop, Source.lineAt, hsplit, Text.upTo_append, List.count_append,
    List.count_eq_zero.2 hfeed, ← hline, Nat.add_comm, Nat.add_zero]

namespace Grammar

section
variable {source : Source}

theorem StartsAt.line_eq {start line : Nat} (h : StartsAt (rowOf source) start line) :
    line = source.lineAt start := by
  obtain ⟨t, ht, rfl, rfl⟩ := h
  exact (Scan.placed_scan source .lossy {} t (mem_scan_of_mem_rowOf ht)).shows.line_eq

/-- Parentheses that nothing stands between open at an offset, and what they are in front of stands
on the line. -/
def Opened (source : Source) (start line : Nat) : Prop :=
  ∃ paren parens first, paren :: parens ++ [first] <:+: (Scan.scan source .lossy {}).1.tokens ∧
    (∀ t ∈ paren :: parens, t.kind = .leftParen) ∧ paren.span.start = start ∧
    line = source.lineAt first.span.start

/-- The tokens of a scan that reports nothing start one behind the other. -/
theorem pairwise_start {mode : Scan.Mode} {errors : Diagnostic.Collector}
    (hclean : (Scan.scan source mode errors).2.messages = #[]) :
    (Scan.scan source mode errors).1.tokens.Pairwise fun t u => t.span.start < u.span.start := by
  refine (Scan.ordered_scan source mode errors).imp_of_mem fun {t u} ht _ hle => ?_
  refine Nat.lt_of_lt_of_le ((Scan.placed_scan source mode errors t ht).start_lt fun hempty => ?_)
    hle.1
  obtain ⟨m, hm, -⟩ := (hle.2 hempty).2
  rw [Scan.errors_scan] at hclean
  exact absurd hm (hclean ▸ Array.not_mem_empty m)

/-- Two tokens of the row, the first of them not the end, are two of the source. -/
theorem exists_eq_append_of_rowOf {before after : List Token} {t u : Token}
    (hrow : rowOf source = before ++ t :: u :: after) (hkind : t.kind ≠ .eof) :
    ∃ after', (Scan.scan source .lossy {}).1.tokens = before ++ t :: u :: after' := by
  unfold rowOf at hrow
  rcases List.eq_nil_or_concat after with rfl | ⟨after', e, rfl⟩
  · refine absurd ?_ hkind
    have hlast : (Scan.scan source .lossy {}).1.tokens = before ++ [t] :=
      (List.append_inj' (hrow.trans (List.append_cons before t [u])) rfl).1
    rw [Scan.tokens_scan] at hlast
    exact congrArg Token.kind (List.singleton_inj.1 (List.append_inj' hlast rfl).2.symm)
  · rw [List.concat_eq_append, ← List.cons_append, ← List.cons_append, ← List.append_assoc] at hrow
    exact ⟨after', (List.append_inj' hrow rfl).1⟩

/-- A stretch of a row that starts where a token does that is not the first. -/
theorem infix_cons {row before after rest : List Token} {t u v : Token}
    (hlt : row.Pairwise fun t u => t.span.start < u.span.start)
    (hrow : row = before ++ t :: u :: after) (hrest : v :: rest <:+: row)
    (hstart : v.span.start = u.span.start) : t :: v :: rest <:+: row := by
  obtain ⟨front, back, hsplit⟩ := hrest
  have hnodup : (row.map (·.span.start)).Nodup := List.pairwise_map.2 (hlt.imp Nat.ne_of_lt)
  have hv : v ∈ row := by simp [← hsplit]
  have hu : u ∈ row := by simp [hrow]
  obtain rfl : v = u := List.inj_on_of_nodup_map hnodup hv hu hstart
  -- the token is in the row just once
  have honce := hnodup.of_map
  rw [← hsplit, List.append_assoc, List.cons_append] at honce
  have hfront := (List.nodup_middle.1 honce).notMem
  have hsame : front ++ v :: (rest ++ back) = before ++ [t] ++ v :: after := by
    rw [List.append_assoc, List.singleton_append, ← hrow, ← hsplit, List.append_assoc,
      List.cons_append]
  obtain ⟨rfl, -, -⟩ := (List.append_cons_inj_of_notMem
    (fun h => hfront (List.mem_append_left _ h)) (fun h => hfront (List.mem_append_right _ h))).1 hsame
  exact ⟨before, back, by simpa using hsplit⟩

/-- The line of a type is that of its offset, or it stands in parentheses. -/
theorem TypeStart.line_eq (hclean : (Scan.scan source .lossy {}).2.messages = #[])
    {start line : Nat} (h : TypeStart (rowOf source) start line) :
    line = source.lineAt start ∨ Opened source start line := by
  induction h with
  | token h => exact .inl h.line_eq
  | behind ht hkind =>
    have hmem := mem_scan_of_mem_rowOf ht
    have hlexeme := Scan.lexeme_eq_spelling hmem (congrArg Token.Kind.spelling? hkind) (hkind ▸ nofun)
    have hfeed : '\n' ∉ ")".toList := by decide
    exact .inl ((Scan.placed_scan source .lossy {} _ hmem).line_eq_stop (hlexeme ▸ hfeed))
  | @grouped before after paren t line hrow hkind h ih =>
    obtain ⟨after', hrow⟩ := exists_eq_append_of_rowOf hrow (hkind ▸ nofun)
    right
    rcases ih with hline | ⟨paren', parens, first, hinfix, hparens, hstart, hline⟩
    · exact ⟨paren, [], t, ⟨before, after', by simp [hrow]⟩, by simpa using hkind, rfl, hline⟩
    · exact ⟨paren, paren' :: parens, first, infix_cons (pairwise_start hclean) hrow hinfix hstart,
        List.forall_mem_cons.2 ⟨hkind, hparens⟩, rfl, hline⟩

/-! ## Lines -/

/-- A piece of an accepted program has the line of its offset, unless it is a type in parentheses,
which has that of the first token in them. -/
theorem line_eq_lineAt {program : Program} (h : parseProgram source = .ok program) {p : Piece}
    (hp : program.HoldsPiece p) {line : Nat} (hline : p.line? = some line) :
    line = source.lineAt p.span.start ∨ (∃ t, p = .type t) ∧ Opened source p.span.start line := by
  have hmarks := (nested_of_parseProgram h hp).property
  cases p with
  | type t =>
    obtain rfl := Option.some.inj hline
    have hscan := clean_of_parse (parseProgram_eq_ok_iff.1 h).1
    exact (TypeStart.line_eq hscan hmarks).imp_right fun hopened => ⟨⟨t, rfl⟩, hopened⟩
  | param => cases hline
  | stmt =>
    obtain rfl := Option.some.inj hline
    exact .inl hmarks.1.line_eq
  | expr =>
    obtain rfl := Option.some.inj hline
    exact .inl hmarks.1.line_eq
  | block | pattern | function =>
    obtain rfl := Option.some.inj hline
    exact .inl (StartsAt.line_eq hmarks)

/-- A sum behind an empty line. -/
theorem line_eq_lineAt_sum : ∃ program p, parseProgram ⟨"x;\n\n y\n+ 1;", "a"⟩ = .ok program ∧
    program.HoldsPiece p ∧ p.line? = some 3 ∧
      (3 = Source.lineAt ⟨"x;\n\n y\n+ 1;", "a"⟩ p.span.start ∨
        (∃ t, p = .type t) ∧ Opened ⟨"x;\n\n y\n+ 1;", "a"⟩ p.span.start 3) := by
  have hclean : (parseScanned ⟨"x;\n\n y\n+ 1;", "a"⟩ .lossy {} {}).2.messages = #[] := by
    decide +kernel
  have h := parseProgram_eq_ok_iff.2 ⟨hclean, rfl⟩
  have hany : (parseScanned ⟨"x;\n\n y\n+ 1;", "a"⟩ .lossy {} {}).1.program.statements.any
      (·.line == 3) = true := by decide +kernel
  obtain ⟨s, hs, hline⟩ := List.any_eq_true.1 hany
  have hholds : Program.HoldsPiece _ (.stmt s) :=
    ⟨_, List.mem_flatMap.2 ⟨s, hs, List.mem_singleton_self _⟩, .refl⟩
  have hline : (Piece.stmt s).line? = some 3 := congrArg some (beq_iff_eq.1 hline)
  exact ⟨_, _, h, hholds, hline, line_eq_lineAt h hholds hline⟩

/-- A line break behind a parenthesis: the type starts in front of it, but has the line behind. -/
theorem line_ne_lineAt_parenthesized : ∃ program t,
    parseProgram ⟨"type T = (\nint);", "a"⟩ = .ok program ∧ program.HoldsPiece (.type t) ∧
      t.line = 2 ∧ Source.lineAt ⟨"type T = (\nint);", "a"⟩ t.span.start = 1 := by
  have hclean : (parseScanned ⟨"type T = (\nint);", "a"⟩ .lossy {} {}).2.messages = #[] := by
    decide +kernel
  have h := parseProgram_eq_ok_iff.2 ⟨hclean, rfl⟩
  have hany : (parseScanned ⟨"type T = (\nint);", "a"⟩ .lossy {} {}).1.program.statements.any
      (fun s => match s.kind with
        | .typeAlias _ t =>
          t.line == 2 && Source.lineAt ⟨"type T = (\nint);", "a"⟩ t.span.start == 1
        | _ => false) = true := by decide +kernel
  obtain ⟨s, hs, hlines⟩ := List.any_eq_true.1 hany
  split at hlines
  next t hkind =>
    obtain ⟨hline, hstart⟩ := Bool.and_eq_true_iff.1 hlines
    have hchild : Piece.type t ∈ Piece.children (.stmt s) := by
      rw [Piece.children, hkind]
      exact List.mem_singleton_self _
    exact ⟨_, t, h, ⟨.stmt s, List.mem_flatMap.2 ⟨s, hs, List.mem_singleton_self _⟩, .single hchild⟩,
      beq_iff_eq.1 hline, beq_iff_eq.1 hstart⟩
  next => cases hlines

/-! ## Parameters -/

/-- The parameters of functions without a name and those in the headers of classes are the ones that
are written there: first the required ones in their order, then in theirs the ones that may be left
out. -/
theorem parameters_sorted {program : Program} (h : parseProgram source = .ok program) :
    (∀ e params result body, program.HoldsPiece (.expr e) →
      e.kind = .lambda params result body → Sorted params) ∧
    ∀ s decl, program.HoldsPiece (.stmt s) → s.kind = .classDecl decl → Sorted decl.ctorParams := by
  constructor
  · intro e params result body hp hkind
    have hsorted := (nested_of_parseProgram h hp).property.2
    rwa [hkind] at hsorted
  · intro s decl hp hkind
    have hsorted := (nested_of_parseProgram h hp).property.2
    rwa [hkind] at hsorted

/-- A class whose parameters with and without a default are mixed. -/
theorem parameters_sorted_class : ∃ program s decl,
    parseProgram ⟨"class C(a = 1, b, c: int?, d) \x7b\x7d", "a"⟩ = .ok program ∧
      program.HoldsPiece (.stmt s) ∧ s.kind = .classDecl decl ∧
      decl.ctorParams.map (·.name) = ["b", "d", "a", "c"] ∧ Sorted decl.ctorParams := by
  have hclean : (parseScanned ⟨"class C(a = 1, b, c: int?, d) \x7b\x7d", "a"⟩ .lossy {} {}).2.messages =
      #[] := by decide +kernel
  have h := parseProgram_eq_ok_iff.2 ⟨hclean, rfl⟩
  have hany : (parseScanned ⟨"class C(a = 1, b, c: int?, d) \x7b\x7d", "a"⟩ .lossy {}
      {}).1.program.statements.any (·.kind.class?.any
        (·.ctorParams.map (·.name) == ["b", "d", "a", "c"])) = true := by decide +kernel
  obtain ⟨s, hs, hclass⟩ := List.any_eq_true.1 hany
  obtain ⟨decl, hdecl, hnames⟩ := (Option.any_eq_true _ _).1 hclass
  have hkind : s.kind = .classDecl decl := StmtKind.class?_eq_some.1 hdecl
  have hholds : Program.HoldsPiece _ (.stmt s) :=
    ⟨_, List.mem_flatMap.2 ⟨s, hs, List.mem_singleton_self _⟩, .refl⟩
  exact ⟨_, s, decl, h, hholds, hkind, beq_iff_eq.1 hnames, (parameters_sorted h).2 s decl hholds hkind⟩

/-- A required parameter is in front of one with a default that is written in front of it. -/
theorem parameters_not_rising : ∃ program e params result body,
    parseProgram ⟨"return fn(a = 1, b) \x7b return b; \x7d;", "a"⟩ = .ok program ∧
      program.HoldsPiece (.expr e) ∧ e.kind = .lambda params result body ∧
      params.map (·.name) = ["b", "a"] ∧
      ¬ params.Pairwise fun p q => p.span.start < q.span.start := by
  have hclean : (parseScanned ⟨"return fn(a = 1, b) \x7b return b; \x7d;", "a"⟩ .lossy {}
      {}).2.messages = #[] := by decide +kernel
  have h := parseProgram_eq_ok_iff.2 ⟨hclean, rfl⟩
  have hany : (parseScanned ⟨"return fn(a = 1, b) \x7b return b; \x7d;", "a"⟩ .lossy {}
      {}).1.program.statements.any (fun s => (Piece.stmt s).children.any (·.params?.any fun params =>
        params.map (·.name) == ["b", "a"] &&
          !decide (params.Pairwise fun p q => p.span.start < q.span.start))) = true := by
    decide +kernel
  obtain ⟨s, hs, hstmt⟩ := List.any_eq_true.1 hany
  obtain ⟨p, hchild, hpiece⟩ := List.any_eq_true.1 hstmt
  obtain ⟨params, hparams, horder⟩ := (Option.any_eq_true _ _).1 hpiece
  obtain ⟨hnames, hfalls⟩ := Bool.and_eq_true_iff.1 horder
  obtain ⟨e, result, body, rfl, hkind⟩ := p.exists_lambda hparams
  exact ⟨_, e, params, result, body, h,
    ⟨.stmt s, List.mem_flatMap.2 ⟨s, hs, List.mem_singleton_self _⟩, .single hchild⟩, hkind,
    beq_iff_eq.1 hnames, by simpa using hfalls⟩

end

end Grammar

end LimitSyntax
