import LimitSyntax.Proofs.DeclRules

/-!
# Lossless parsing

A tree holds exactly the tokens it was built from (`Grammar.allTokens_parse`), and a tree built from
a source is ordered (`Grammar.ordered_parseSource`), so that every node spells the source at its
span. Both are read off what is kept while tokens move from the unread ones to the builder
(`Grammar.Kept`).
-/

namespace LimitSyntax.Grammar

/-! ## What a parse keeps of its tree -/

/-- A relation of the builder and the unread tokens that every step keeps. -/
structure Kept (P : Tree.Builder → List Token → Prop) : Prop where
  token : ∀ {b t rest}, P b (t :: rest) → P (b.token t) rest
  /-- A token that is given back sets the offset to where it starts. -/
  back : ∀ {b t rest}, P b (t :: rest) → P { b with offset := t.fullSpan.start } (t :: rest)
  edit : ∀ {f b rest}, Tree.Builder.Edit f → P b rest → P (f b) rest

/-- A tree is built, and its builder and the unread tokens are related. -/
def State.Relates (P : Tree.Builder → List Token → Prop) (s : State) : Prop :=
  ∃ b, s.tree = some b ∧ P b s.rest

namespace Kept

variable {P : Tree.Builder → List Token → Prop} {i : Input} {s s' : State}

theorem step (hP : Kept P) (h : s.Relates P) (hs : Step i s s') : s'.Relates P := by
  obtain ⟨b, htree, hb⟩ := h
  cases hs with
  | take t rest hrest =>
    exact ⟨b.token t, by simp [State.take, htree], hP.token (hrest ▸ hb)⟩
  | retake t rest hrest =>
    rw [State.back_take]
    exact ⟨_, by simp [htree], hP.back (hrest ▸ hb)⟩
  | edit f hf => exact ⟨f b, by simp [State.mapTree, htree], hP.edit hf hb⟩
  | report t description block =>
    obtain ⟨_, _, _, heq⟩ := s.report_eq i t description block
    rw [heq]
    exact ⟨b, htree, hb⟩
  | context | spend => exact ⟨b, htree, hb⟩

theorem steps (hP : Kept P) (h : s.Relates P) (hs : Steps i s s') : s'.Relates P := by
  induction hs with
  | refl => exact h
  | tail _ hstep ih => exact hP.step ih hstep

/-- The tokens that are left go to the root. -/
theorem foldl (hP : Kept P) {b : Tree.Builder} {rest : List Token} (h : P b rest) :
    P (rest.foldl Tree.Builder.token b) [] := by
  induction rest generalizing b with
  | nil => exact h
  | cons t rest ih => exact ih (hP.token h)

end Kept

/-! ## A whole parse -/

theorem endOf_kind (tokens : List Token) : (endOf tokens).kind = .eof := by
  unfold endOf
  split
  · rfl
  · split
    next h => exact eq_of_beq h
    next => rfl

/-- The state after the declarations of a stream. -/
theorem steps_runProgram (stream : Scan.Stream) (config : Config)
    (errors : Diagnostic.Collector) :
    Steps (.of stream config) (.start stream config errors) (runProgram stream config errors).2 :=
  (Twin.topDeclarations stream.tokens.length).stepwise _ _ (endOf_kind stream.tokens)

/-- A parse with a tree builds it from all tokens and keeps what a step keeps. -/
theorem Kept.parse {P : Tree.Builder → List Token → Prop} (hP : Kept P) {tokens : List Token}
    (h : P {} tokens) (source : Source) (maxErrors : Nat) (errors : Diagnostic.Collector) :
    ∃ b, P b [] ∧
      (Grammar.parse ⟨tokens, .lossless, source⟩ { buildTree := true, maxErrors } errors).1.tree =
        some (b.tree source.text.utf8ByteSize) := by
  obtain ⟨b, htree, hb⟩ := hP.steps ⟨{}, rfl, h⟩
    (steps_runProgram ⟨tokens, .lossless, source⟩ { buildTree := true, maxErrors } errors)
  refine ⟨_, hP.foldl hb, ?_⟩
  simp only [Grammar.parse, htree, Option.map_some]

/-! ## Tokens -/

/-- The leaves of the builder and the unread tokens make up the tokens. -/
theorem kept_leaves (tokens : List Token) : Kept fun b rest => b.leaves ++ rest = tokens where
  token h := by simpa using h
  back h := h
  edit hf h := by rwa [hf.leaves_eq]

theorem allTokens_parse (tokens : List Token) (source : Source) (maxErrors : Nat)
    (errors : Diagnostic.Collector) :
    ∃ tree, (parse ⟨tokens, .lossless, source⟩ { buildTree := true, maxErrors } errors).1.tree =
      some tree ∧ tree.allTokens = tokens := by
  have hstart : Tree.Builder.leaves {} ++ tokens = tokens := by
    simp [Tree.Builder.leaves, Tree.Frame.leaves]
  obtain ⟨b, hb, htree⟩ := (kept_leaves tokens).parse hstart source maxErrors errors
  refine ⟨_, htree, ?_⟩
  rw [Tree.Builder.allTokens_tree, ← hb, List.append_nil]

/-- The parse of a source after its scan in some mode. -/
def parseScanned (source : Source) (mode : Scan.Mode) (config : Config)
    (errors : Diagnostic.Collector) : Result × Diagnostic.Collector :=
  parse ⟨(Scan.scan source mode errors).1.tokens, mode, source⟩ config
    (Scan.scan source mode errors).2

theorem parseSource_eq (source : Source) (config : Config) (errors : Diagnostic.Collector)
    (mode : Scan.Mode) (hmode : (if config.buildTree then .lossless else .lossy) = mode) :
    parseSource source config errors =
      ({ (parseScanned source mode config errors).1 with
          errors := (parseScanned source mode config errors).2.since errors.size },
        (parseScanned source mode config errors).2) := by
  rw [parseScanned, ← Scan.stream_scan, parseSource, hmode]

/-- The tree of a source is that of its lossless scan. -/
theorem tree_parseSource (source : Source) (maxErrors : Nat) (errors : Diagnostic.Collector) :
    (parseSource source { buildTree := true, maxErrors } errors).1.tree =
      (parseScanned source .lossless { buildTree := true, maxErrors } errors).1.tree := by
  simp only [parseSource_eq source { buildTree := true, maxErrors } errors .lossless rfl]

/-- Whatever the tokens are, and however many errors stop the parse, the tree holds these tokens in
their order and no others. So the tree of a source, whether or not it is a program, spells the
source. -/
theorem parse_conserves_tokens (source : Source) (maxErrors : Nat)
    (errors : Diagnostic.Collector) :
    (∀ tokens : List Token, ∃ tree,
      (parse ⟨tokens, .lossless, source⟩ { buildTree := true, maxErrors } errors).1.tree =
        some tree ∧ tree.allTokens = tokens) ∧
    ∃ tree, (parseSource source { buildTree := true, maxErrors } errors).1.tree = some tree ∧
      tree.reconstruct = source.text := by
  refine ⟨fun tokens => allTokens_parse tokens source maxErrors errors, ?_⟩
  obtain ⟨tree, htree, htokens⟩ := allTokens_parse (Scan.scan source .lossless errors).1.tokens
    source maxErrors (Scan.scan source .lossless errors).2
  obtain ⟨htiles, hstand⟩ := Scan.tiles_scan source errors
  refine ⟨tree, by rw [tree_parseSource, parseScanned, htree], ?_⟩
  rw [Tree.Node.reconstruct, htokens]
  exact Scan.reconstruct_of_tiles htiles hstand

/-! ## Order -/

/-- The elements of the builder tile the text up to its offset, and the unread tokens the text from
there to the end. -/
theorem kept_order (length : Nat) :
    Kept fun b rest => b.Ordered ∧ Span.Tiles b.offset length (rest.map Token.fullSpan) where
  token := by
    rintro b t rest ⟨hb, hstart, hle, hrest⟩
    exact ⟨hb.token hstart (hstart ▸ hle), hrest⟩
  back := by
    rintro b t rest ⟨hb, hstart, hle, hrest⟩
    rw [hstart]
    exact ⟨hb, hstart, hle, hrest⟩
  edit := by
    rintro f b rest hf ⟨hb, hrest⟩
    exact ⟨hb.edit hf, hf.offset_eq b ▸ hrest⟩

/-- The tree of a source is ordered. -/
theorem ordered_parseSource (source : Source) (maxErrors : Nat) (errors : Diagnostic.Collector) :
    ∃ tree, (parseSource source { buildTree := true, maxErrors } errors).1.tree = some tree ∧
      tree.allTokens = (Scan.scan source .lossless errors).1.tokens ∧
      (Tree.Element.node tree).Ordered := by
  obtain ⟨tree, htree, htokens⟩ := allTokens_parse (Scan.scan source .lossless errors).1.tokens
    source maxErrors (Scan.scan source .lossless errors).2
  have hstart : Tree.Builder.Ordered {} := ⟨⟨rfl, by simp⟩, rfl⟩
  obtain ⟨b, ⟨hb, hoffset⟩, htree'⟩ := (kept_order source.text.utf8ByteSize).parse
    ⟨hstart, (Scan.tiles_scan source errors).1⟩ source maxErrors
    (Scan.scan source .lossless errors).2
  have heq : tree = b.tree source.text.utf8ByteSize := Option.some.inj (htree ▸ htree')
  exact ⟨tree, by rw [tree_parseSource, parseScanned, htree], htokens, heq ▸ hb.tree hoffset⟩

/-- In the tree of a source the elements of every node tile its span: the first starts where the
node does, each other where the one before it ends, the last ends where the node does, and a node
without elements is empty. So every node spells the slice of the source at its span. -/
theorem nodes_tile_source (source : Source) (maxErrors : Nat) (errors : Diagnostic.Collector) :
    ∃ tree, (parseSource source { buildTree := true, maxErrors } errors).1.tree = some tree ∧
      ∀ depth n, (depth, n) ∈ tree.nodes →
        Span.Tiles n.span.start n.span.stop (n.elements.map Tree.Element.span) ∧
        source.Holds n.span n.reconstruct := by
  obtain ⟨tree, htree, htokens, hordered⟩ := ordered_parseSource source maxErrors errors
  have hstand : ∀ t ∈ tree.allTokens, t.StandsIn source :=
    htokens ▸ (Scan.tiles_scan source errors).2
  refine ⟨tree, htree, fun depth n hn => ⟨?_, ?_⟩⟩
  · exact (Tree.ordered_node.1 (Tree.hereditary_ordered.of_mem_nodes hordered hn)).1
  · exact Tree.Node.holds_of_mem_nodes hordered hstand hn

end LimitSyntax.Grammar
