import LimitSyntax.Proofs.DeclRules
import LimitSyntax.Proofs.ParseModes
import LimitSyntax.Proofs.ScanReports

/-!
# Dumps

A dump shows a tree in outline (`Tree.Element.outline`): a row for each element, followed by the
rows of what is below it, one level deeper. Lexemes are quoted there, but what is noted at a node is
written as it is. All that a parse notes stands on one line, with one exception: at an error node it
may say that an error token was not expected, and this may be a string that is cut off, with line
feeds in it (`Grammar.upheld_neat`). Apart from such nodes, a dump has one line for each element
(`Grammar.dump_lines`).
-/

namespace LimitSyntax

open Diagnostic
open Text (OneLine oneLine_toString)

/-! ## Quoted texts -/

namespace Text

theorem newline_not_mem_hexadecimal (n : Nat) : '\n' ∉ Nat.toDigits 16 n := by
  have hdigit : ∀ k < 16, '\n' ≠ Nat.digitChar k := by decide
  induction n using Nat.strongRecOn with
  | ind n ih =>
    rw [Nat.toDigits_eq_if (by decide)]
    split
    next h => simp [hdigit n h]
    next h =>
      have hfront := ih (n / 16) (Nat.div_lt_self (by omega) (by decide))
      have hlast := hdigit (n % 16) (Nat.mod_lt _ (by decide))
      simp [hfront, hlast]

theorem newline_not_mem_quoteChar (c : Char) : '\n' ∉ quoteChar c := by
  unfold quoteChar
  split
  next h => rcases h with rfl | rfl <;> decide
  split
  next => decide
  next hfeed =>
    have hplain : '\n' ∉ [c] := by simpa [eq_comm] using hfeed
    iterate 3
      split
      next => decide
    split
    next => exact hplain
    split
    next => simp [codePointEscape, newline_not_mem_hexadecimal]
    next => exact hplain

/-- A quoted text stands on one line. -/
theorem oneLine_quote (text : String) : OneLine (quote text) := by
  simp [OneLine, quote, newline_not_mem_quoteChar]

end Text

/-! ## Rows -/

namespace Tree

theorem oneLine_tokenKind (kind : Token.Kind) : OneLine kind.name := by
  cases kind <;> decide

theorem oneLine_kind (kind : Kind) : OneLine kind.name := by
  cases kind <;> decide

namespace Element

/-- The row of a token is a line. -/
theorem oneLine_row_token (t : Token) : OneLine (Element.token t).row :=
  ((oneLine_tokenKind t.kind).append (by decide)).append (Text.oneLine_quote t.lexeme)

/-- The row of a node whose description is one line is a line just if what is wrong with it is. -/
theorem oneLine_row_node {n : Node} (hdescription : ∀ d, n.description = some d → OneLine d) :
    OneLine (Element.node n).row ↔ ∀ e, n.error = some e → OneLine e := by
  have hspan : OneLine (n.kind.name ++ "@" ++ toString n.span.start ++ ".." ++
      toString n.span.stop) :=
    ((((oneLine_kind n.kind).append (by decide)).append (oneLine_toString _)).append
      (by decide)).append (oneLine_toString _)
  have hdescribed : OneLine ((n.description.map fun d => " (" ++ d ++ ")").getD "") := by
    cases h : n.description with
    | none => exact List.not_mem_nil
    | some d => exact .append (.append (by decide) (hdescription d h)) (by decide)
  rw [row, OneLine, Text.not_mem_append, Text.not_mem_append]
  cases h : n.error with
  | none => exact iff_of_true ⟨⟨hspan, hdescribed⟩, List.not_mem_nil⟩ (by simp)
  | some e =>
    have herror : '\n' ∉ (" [error: " ++ e ++ "]").toList ↔ OneLine e := by
      rw [Text.not_mem_append, Text.not_mem_append]
      exact (and_iff_left (by decide)).trans (and_iff_right (by decide))
    refine (and_iff_right ⟨hspan, hdescribed⟩).trans (herror.trans ?_)
    simp

mutual
/-- An element in outline: its row, and below it those of its elements, one level deeper. Each level
is indented by two spaces. -/
def outline (depth : Nat) : Element → List String
  | .token t => [Text.spaces (2 * depth) ++ (Element.token t).row]
  | .node ⟨kind, span, elements, description, error⟩ =>
    (Text.spaces (2 * depth) ++ (Element.node ⟨kind, span, elements, description, error⟩).row) ::
      outlineAll (depth + 1) elements

/-- Elements in outline, one behind the other. -/
def outlineAll (depth : Nat) : List Element → List String
  | [] => []
  | e :: es => e.outline depth ++ outlineAll depth es
end

/-- The line of an element at some depth. -/
def line (x : Nat × Element) : String := Text.spaces (2 * x.1) ++ x.2.row

mutual
theorem map_line_walkInto (out : Array (Nat × Element)) (depth : Nat) (e : Element) :
    (walkInto out depth e).toList.map line = out.toList.map line ++ e.outline depth := by
  cases e with
  | token t => simp [walkInto, outline, line]
  | node n =>
    obtain ⟨kind, span, elements, description, error⟩ := n
    rw [walkInto, map_line_walkAllInto, outline]
    simp [line]

theorem map_line_walkAllInto (out : Array (Nat × Element)) (depth : Nat) (es : List Element) :
    (walkAllInto out depth es).toList.map line = out.toList.map line ++ outlineAll depth es := by
  cases es with
  | nil => simp [walkAllInto, outlineAll]
  | cons e es =>
    rw [walkAllInto, map_line_walkAllInto, map_line_walkInto, outlineAll, List.append_assoc]
end

theorem oneLine_line {x : Nat × Element} : OneLine (line x) ↔ OneLine x.2.row := by
  rw [line, OneLine, Text.not_mem_append]
  exact and_iff_right (Text.not_mem_spaces (by decide) _)

end Element

namespace Node

variable (n : Node)

/-- The rows of a dump are the lines of its walk. -/
theorem outline_eq : (Element.node n).outline 0 = n.walk.map Element.line := by
  simpa [walk, Element.walk] using (Element.map_line_walkInto #[] 0 (.node n)).symm

/-- A dump is the tree in outline, with a line feed behind each row. -/
theorem dump_eq : n.dump = String.join (((Element.node n).outline 0).map (· ++ "\n")) := by
  rw [outline_eq, dump, List.map_map]
  rfl

theorem length_nodes_add_tokens (walk : List (Nat × Element)) :
    (walk.filterMap fun (depth, e) => e.node?.map (depth, ·)).length +
      (walk.filterMap fun (_, e) => e.token?).length = walk.length := by
  induction walk with
  | nil => rfl
  | cons x walk ih =>
    obtain ⟨depth, n | t⟩ := x
    · exact (Nat.add_right_comm ..).trans (congrArg (· + 1) ih)
    · exact congrArg (· + 1) ih

/-- There is a row for each node and each token. -/
theorem length_outline :
    ((Element.node n).outline 0).length = n.nodes.length + n.allTokens.length := by
  rw [outline_eq, List.length_map]
  exact (length_nodes_add_tokens n.walk).symm

/-- If all descriptions are lines, then all rows are just if all that is wrong is. -/
theorem oneLine_outline
    (h : ∀ x ∈ n.nodes, ∀ d, x.2.description = some d → OneLine d) :
    (∀ row ∈ (Element.node n).outline 0, OneLine row) ↔
      ∀ x ∈ n.nodes, ∀ e, x.2.error = some e → OneLine e := by
  have hnode {depth : Nat} {m : Node} : (depth, m) ∈ n.nodes ↔ (depth, .node m) ∈ n.walk := by
    simp only [nodes, List.mem_filterMap, Prod.exists]
    constructor
    · rintro ⟨depth', e | t, he, heq⟩
      · cases heq
        exact he
      · cases heq
    · exact fun he => ⟨depth, .node m, he, rfl⟩
  rw [outline_eq]
  simp only [List.forall_mem_map, Element.oneLine_line, Prod.forall]
  constructor
  · intro hrows depth m hm
    exact (Element.oneLine_row_node (h _ hm)).1 (hrows depth (.node m) (hnode.1 hm))
  · rintro herrors depth (m | t) he
    · exact (Element.oneLine_row_node (h _ (hnode.2 he))).2 (herrors depth m (hnode.2 he))
    · exact Element.oneLine_row_token t

end Node

end Tree

/-! ## What is noted in a parse -/

namespace Grammar

/-- The words and numbers of the parse stand on one line each, and all that was noted is neat. -/
structure State.Neat (s : State) : Prop where
  tidy : s.Tidy
  notes : ∀ n ∈ s.notes, NeatNote (s.read.toList ++ s.rest) n

namespace State.Neat

variable {i : Input} {s t : State}

theorem silent (h : s.Neat) (hsteps : Steps i s t) (hnotes : s.NotesNeatly t) : t.Neat := by
  refine ⟨?_, fun n hn => ?_⟩
  · rw [Tidy, hsteps.tokens_eq]
    exact h.tidy
  · rw [hsteps.tokens_eq]
    exact (hnotes h.tidy n hn).elim (h.notes n) id

theorem report (h : s.Neat) (token : Token) {description : String} (block : Option OpenBlock)
    (hline : OneLine description) : (s.report i token description block).Neat :=
  h.silent (.single (.report ..)) (.report s i token block fun _ => hline)

end State.Neat

/-- Whatever a rule does, all that was noted is neat. -/
theorem upheld_neat (i : Input) : Upheld i (fun _ _ => True) State.Neat where
  silent hs hsteps _ hnotes := hs.silent hsteps hnotes
  next _ := trivial
  stays _ _ _ _ := trivial
  report hs _ hline := hs.report _ none (hline hs.tidy)
  reportLate hs _ := hs.report _ none (by decide)
  reportUnclosed hs hline := hs.report _ _ hline

/-- All that is noted in the tree of a source is neat. -/
theorem notes_parseSource (source : Source) (maxErrors : Nat) (errors : Collector) {tree : Tree.Node}
    (htree : (parseSource source { buildTree := true, maxErrors } errors).1.tree = some tree) :
    ∀ n ∈ (Tree.Element.node tree).notes,
      NeatNote (Scan.scan source .lossless errors).1.tokens n := by
  rw [tree_parseSource, parseScanned] at htree
  generalize hscan : Scan.scan source .lossless errors = scanned at htree ⊢
  have htidy : ∀ t ∈ scanned.1.tokens, t.kind.isPlain = true → OneLine t.lexeme := by
    intro t ht hplain
    rw [← hscan] at ht
    rcases Scan.oneLine_scan ht with hline | hkind | hkind | hkind
    · exact hline
    all_goals
      rw [hkind] at hplain
      cases hplain
  generalize scanned.1.tokens = tokens at htree htidy ⊢
  have hstart : (State.start ⟨tokens, .lossless, source⟩ { buildTree := true, maxErrors }
      scanned.2).Neat :=
    ⟨fun t ht => htidy t (by simpa [State.start] using ht), by
      simp [State.notes, State.start, Tree.Builder.notes, Tree.Frame.notes, Tree.noted]⟩
  have hend : (runProgram ⟨tokens, .lossless, source⟩ { buildTree := true, maxErrors }
      scanned.2).2.Neat :=
    (Twin.topDeclarations tokens.length).reports.keeps
      (upheld_neat (.of ⟨tokens, .lossless, source⟩ { buildTree := true, maxErrors }))
      (endOf_kind tokens) trivial (fun _ hnone => by cases hnone) hstart
  obtain ⟨b, hb, rfl⟩ : ∃ b, (runProgram ⟨tokens, .lossless, source⟩
      { buildTree := true, maxErrors } scanned.2).2.tree = some b ∧
        (List.foldl Tree.Builder.token b (runProgram ⟨tokens, .lossless, source⟩
          { buildTree := true, maxErrors } scanned.2).2.rest).tree source.text.utf8ByteSize = tree :=
    Option.map_eq_some_iff.1 htree
  have htokens := (steps_runProgram ⟨tokens, .lossless, source⟩ { buildTree := true, maxErrors }
    scanned.2).tokens_eq
  intro n hn
  have hmem := Tree.Builder.notes_tree _ _ hn
  rw [Tree.Builder.notes_foldl_token] at hmem
  have hneat := hend.notes n (State.mem_notes.2 (.inr ⟨b, hb, hmem⟩))
  rw [htokens] at hneat
  simpa [State.start] using hneat

/-- The dump of a tree is the tree in outline, with a line feed behind each row, and there is a row
for each node and each token. An error that is noted at a node stands on one line, unless it says
that an error token was not expected which does not; every other row is a single line. So the dump
has as many lines as the tree has elements just if each error that is noted stands on one line; and
they all do if no string is reported as cut off. -/
theorem dump_lines (source : Source) (maxErrors : Nat) (errors : Collector) :
    ∃ tree, (parseSource source { buildTree := true, maxErrors } errors).1.tree = some tree ∧
      let rows := (Tree.Element.node tree).outline 0
      tree.dump = String.join (rows.map (· ++ "\n")) ∧
      rows.length = tree.nodes.length + tree.allTokens.length ∧
      (∀ x ∈ tree.nodes, ∀ e, x.2.error = some e → OneLine e ∨
        ∃ t ∈ tree.allTokens, t.kind = .error ∧ ¬ OneLine t.lexeme ∧
          e = "Unexpected token '" ++ t.lexeme ++ "'") ∧
      (tree.dump.toList.count '\n' = tree.nodes.length + tree.allTokens.length ↔
        ∀ x ∈ tree.nodes, ∀ e, x.2.error = some e → OneLine e) ∧
      ((∀ x ∈ tree.nodes, ∀ e, x.2.error = some e → OneLine e) →
        Text.splitLines tree.dump.toList = rows.map String.toList ++ [[]]) ∧
      ((∀ m ∈ (Scan.scan source .lossless errors).2.messages,
          m.description ≠ "Unterminated string." ∧
            m.description ≠ "Unterminated string interpolation.") →
        ∀ x ∈ tree.nodes, ∀ e, x.2.error = some e → OneLine e) := by
  obtain ⟨tree, htree, htokens, -⟩ := ordered_parseSource source maxErrors errors
  have hneat := notes_parseSource source maxErrors errors htree
  rw [← htokens] at hneat
  have hnoted : ∀ x ∈ tree.nodes, ∀ n ∈ Tree.noted x.2.description x.2.error,
      NeatNote tree.allTokens n := fun x hx => Tree.noted_of_mem_nodes hneat hx
  have hdescriptions : ∀ x ∈ tree.nodes, ∀ d, x.2.description = some d → OneLine d := by
    intro x hx d hd
    cases hnoted x hx _ (Tree.mem_noted.2 (.inl ⟨d, hd, rfl⟩)) with
    | description h => exact h
  have herrors : ∀ x ∈ tree.nodes, ∀ e, x.2.error = some e → OneLine e ∨
      ∃ t ∈ tree.allTokens, t.kind = .error ∧ ¬ OneLine t.lexeme ∧
        e = "Unexpected token '" ++ t.lexeme ++ "'" := by
    intro x hx e he
    cases hnoted x hx _ (Tree.mem_noted.2 (.inr ⟨e, he, rfl⟩)) with
    | error h => exact .inl h
    | @unexpected t ht hkind =>
      by_cases hline : OneLine t.lexeme
      · exact .inl (oneLine_around (by decide) hline)
      · exact .inr ⟨t, ht, hkind, hline, rfl⟩
  have hrows := tree.oneLine_outline hdescriptions
  refine ⟨tree, htree, tree.dump_eq, tree.length_outline, herrors, ?_, fun hlines => ?_,
    fun hwhole x hx e he => ?_⟩
  · rw [← hrows, ← tree.length_outline, tree.dump_eq, Text.count_newline_join_eq_length]
  · rw [tree.dump_eq, Text.splitLines_join (hrows.2 hlines)]
  · refine (herrors x hx e he).resolve_right ?_
    rintro ⟨t, ht, hkind, hlexeme, -⟩
    rw [htokens] at ht
    obtain ⟨m, hm, hcut⟩ := (Scan.accounted_scan ht hkind).resolve_left hlexeme
    simp [Scan.cutOff, hwhole m hm] at hcut

/-- A string that is cut off tears a row of the dump apart. -/
theorem dump_torn : ∃ tree, (parseSource ⟨"\"a\nb", "a"⟩ { buildTree := true } {}).1.tree = some tree ∧
    tree.dump.toList.count '\n' ≠ tree.nodes.length + tree.allTokens.length := by
  have htorn : (parseSource ⟨"\"a\nb", "a"⟩ { buildTree := true } {}).1.tree.any (fun tree =>
      tree.dump.toList.count '\n' != tree.nodes.length + tree.allTokens.length) = true := by
    decide +kernel
  obtain ⟨tree, htree, hne⟩ := (Option.any_eq_true ..).1 htorn
  exact ⟨tree, htree, bne_iff_ne.1 hne⟩

end Grammar

end LimitSyntax
