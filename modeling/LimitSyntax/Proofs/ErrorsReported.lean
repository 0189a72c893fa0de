import LimitSyntax.Proofs.TandemPrograms

/-!
# Nothing wrong goes unreported

If nothing is reported for a source, then its scan has no error token, its program has no
placeholder in it, and no node of its tree was made by recovery
(`Grammar.parseSource_whole`).
-/

namespace LimitSyntax

/-! ## Scans -/

namespace Scan.State

variable {src : Source} {mode : Mode} {s : State}

/-- If nothing was reported, then no token is an error. No token is the end. -/
structure Sound (s : State) : Prop where
  kinds : ∀ t ∈ s.tokens, t.kind ≠ .eof
  errors : s.errors.messages = #[] → ∀ t ∈ s.tokens, t.kind ≠ .error

theorem report_messages_ne (description : String) (offset line : Nat) (lexeme : String) :
    (s.report src description offset line lexeme).errors.messages ≠ #[] :=
  Diagnostic.Collector.report_ne_empty _ _ _

namespace Sound

theorem report (h : s.Sound) (description : String) (offset line : Nat) (lexeme : String) :
    (s.report src description offset line lexeme).Sound :=
  ⟨h.kinds, fun hnone => absurd hnone (report_messages_ne _ _ _ _)⟩

theorem token (h : s.Sound) (kind : Token.Kind) (heof : kind ≠ .eof)
    (herror : kind = .error → s.errors.messages ≠ #[]) (taken rest : List Char)
    (value : Option String) : (s.token kind taken rest value).Sound := by
  refine ⟨fun t ht => ?_, fun hnone t ht => ?_⟩
  · rcases List.mem_cons.1 ht with rfl | ht
    · exact heof
    · exact h.kinds t ht
  · rcases List.mem_cons.1 ht with rfl | ht
    · exact fun hkind => herror hkind hnone
    · exact h.errors hnone t ht

theorem trivia (h : s.Sound) (kind : Trivia.Kind) (taken rest : List Char) :
    (s.trivia mode kind taken rest).Sound := by
  cases mode with
  | lossy => exact ⟨h.kinds, h.errors⟩
  | lossless =>
    simp only [State.trivia]
    split
    · refine ⟨fun t ht => ?_, fun hnone t ht => ?_⟩
      · obtain ⟨u, hu, hkind⟩ := attach_kind ht
        exact hkind ▸ h.kinds u hu
      · obtain ⟨u, hu, hkind⟩ := attach_kind ht
        exact hkind ▸ h.errors hnone u hu
    · exact ⟨h.kinds, h.errors⟩

theorem unterminated (h : s.Sound) (description : String) (text : List Char) :
    (s.unterminated src description text).Sound :=
  (h.report ..).token _ (by decide) (fun _ => report_messages_ne _ _ _ _) _ _ _

theorem stretch (h : s.Sound) (mark : Char) (piece : Token.Stretch) :
    (s.stretch src mark piece).Sound := by
  unfold State.stretch
  dsimp only
  split
  next => exact h.token .string (by decide) nofun _ _ _
  next => exact h.unterminated ..
  next =>
    have hstart := h.token .interpolationStart (by decide) nofun piece.taken
      piece.rest (some (String.ofList piece.value))
    split
    next => exact ⟨hstart.kinds, hstart.errors⟩
    next => exact hstart.unterminated ..

theorem leave (h : s.Sound) (w : Waiting) (outer : List Waiting) : (s.leave src w outer).Sound := by
  have houter : ({ s with waiting := outer } : State).Sound := ⟨h.kinds, h.errors⟩
  exact (houter.token .interpolationEnd (by decide) nofun _ _ _).stretch ..

theorem lexeme (h : s.Sound) {front : Token.Front} (hfront : front.Divides s.rest) :
    (s.lexeme src mode front).Sound := by
  cases front with
  | trivia kind closed taken rest =>
    cases closed with
    | true => exact h.trivia kind taken rest
    | false => exact (h.report ..).trivia kind taken rest
  | token kind taken rest =>
    have hplain := hfront.2.2
    refine h.token kind ?_ ?_ taken rest none
    · rintro rfl
      cases hplain
    · rintro rfl
      cases hplain
  | quote mark rest => exact h.stretch mark _
  | stray c rest =>
    cases mode with
    | lossy => exact ⟨h.kinds, fun hnone => absurd hnone (report_messages_ne _ _ _ _)⟩
    | lossless => exact (h.report ..).token _ (by decide) (fun _ => report_messages_ne _ _ _ _) _ _ _

theorem run (h : s.Sound) (fuel : Nat) : (State.run src mode fuel s).Sound := by
  induction fuel generalizing s with
  | zero => exact h
  | succ fuel ih =>
    rw [State.run]
    split
    next s' hstep =>
      refine ih ?_
      unfold State.step? at hstep
      split at hstep
      next c cs hrest =>
        cases hstep
        exact h.lexeme (hrest ▸ Token.Front.of_divides c cs)
      next =>
        cases hstep
        exact h.leave ..
      next => cases hstep
    next => exact h

end Sound

end Scan.State

/-- A scan that reports nothing has tokens that are neither errors nor the end, and then the end. -/
theorem Scan.tokens_of_clean {src : Source} {mode : Mode} {errors : Diagnostic.Collector}
    (h : (scan src mode errors).2.messages = #[]) :
    ∃ ts e, (scan src mode errors).1.tokens = ts ++ [e] ∧ e.kind = .eof ∧
      ∀ t ∈ ts, t.kind ≠ .eof ∧ t.kind ≠ .error := by
  have hsound : (State.atEnd src mode errors).Sound :=
    State.Sound.run ⟨by simp, by simp⟩ _
  refine ⟨_, _, tokens_scan src mode errors, rfl, fun t ht => ?_⟩
  have hmem := List.mem_reverse.1 ht
  exact ⟨hsound.kinds t hmem, hsound.errors h t hmem⟩

namespace Grammar

open Ast

/-! ## Programs -/

theorem endOf_append (ts : List Token) {e : Token} (he : e.kind = .eof) : endOf (ts ++ [e]) = e := by
  simp [endOf, he]

/-- A parse that starts is abreast with one that has reported nothing and has the same tokens
ahead. -/
theorem Pair.Abreast.start {g : Pair} {stream : Scan.Stream} {config : Config}
    {errors : Diagnostic.Collector} {s' : State} (hahead : g.Ahead stream.tokens s'.rest)
    (herrors : errors.messages = #[]) (hclean : s'.errors.messages = #[])
    (hgoing : s'.halted = false) (hconcurrent : s'.concurrent = false)
    (htotal : g.total = stream.tokens.length) (hlead : g.lead = s'.position) :
    g.Abreast (.start stream config errors) s' where
  ahead := hahead
  clean := herrors
  clean' := hclean
  going := rfl
  going' := hgoing
  closed := rfl
  concurrent := hconcurrent.symm
  back := by simp [State.start]
  count := by simp [State.position, State.start, htotal]
  lead := by simp [State.position, State.start, hlead]
  tree := by
    intro b hb
    simp only [State.start] at hb
    split at hb
    · cases hb
      exact Tree.Builder.whole_empty
    · cases hb

/-- A parse and itself. -/
def Pair.self (stream : Scan.Stream) (config : Config) (last : Token) (hlast : last.kind = .eof) :
    Pair :=
  .closed (.of stream config) (.of stream config) last stream.tokens.length 0
    (endOf_kind stream.tokens) (endOf_kind stream.tokens) hlast

/-- A parse of tokens without errors starts abreast with itself. -/
theorem Pair.Abreast.start_self (stream : Scan.Stream) (config : Config) {ts : List Token}
    {e : Token} (htokens : stream.tokens = ts ++ [e]) (he : e.kind = .eof)
    (hkinds : ∀ t ∈ ts, t.kind ≠ .eof ∧ t.kind ≠ .error) {errors : Diagnostic.Collector}
    (herrors : errors.messages = #[]) :
    (Pair.self stream config e he).Abreast (.start stream config errors)
      (.start stream config errors) := by
  have hsame : List.Forall₂ Token.Same ts ts := List.forall₂_same.2 fun _ _ => .rfl
  refine .start ?_ herrors herrors rfl rfl rfl rfl
  show (Pair.self stream config e he).Ahead stream.tokens stream.tokens
  rw [htokens]
  exact Pair.ahead_of_same (g := .self stream config e he) hsame hkinds
    (fun hseam => absurd he hseam) he fun _ => .rfl

/-- The turns of a whole parse. -/
def programLoop (stream : Scan.Stream) (config : Config) (errors : Diagnostic.Collector) :
    Except Unit (List Stmt) × State :=
  exec (topLoop stream.tokens.length (stream.tokens.length + 1) []) (.of stream config)
    (.start stream config errors)

theorem runProgram_eq_programLoop (stream : Scan.Stream) (config : Config)
    (errors : Diagnostic.Collector) :
    runProgram stream config errors = (((programLoop stream config errors).1.toOption.getD []).reverse,
      (programLoop stream config errors).2) := by
  rw [runProgram_eq, topDeclarations_eq, exec_bind]
  unfold programLoop
  rcases exec (topLoop stream.tokens.length _ []) (.of stream config)
    (.start stream config errors) with ⟨_ | _, _⟩ <;> rfl

/-- A parse of tokens that are no errors, if it reports nothing, yields declarations without
placeholders and a tree without recovery. -/
theorem runProgram_whole (stream : Scan.Stream) {ts : List Token} {e : Token}
    (htokens : stream.tokens = ts ++ [e]) (he : e.kind = .eof)
    (hkinds : ∀ t ∈ ts, t.kind ≠ .eof ∧ t.kind ≠ .error) {config : Config}
    {errors : Diagnostic.Collector} (herrors : errors.messages = #[])
    (hclean : (runProgram stream config errors).2.errors.messages = #[]) :
    (∀ stmt ∈ (runProgram stream config errors).1, IsWhole (f := .stmt) stmt) ∧
      ∀ b, (runProgram stream config errors).2.tree = some b → b.Whole := by
  rw [runProgram_eq_programLoop] at hclean ⊢
  have hstart := Pair.Abreast.start_self stream config htokens he hkinds herrors
  have hpos : 0 < stream.tokens.length := by simp [htokens]
  have hlen : stream.tokens.length ≤ stream.tokens.length - 1 + 1 := by omega
  have hfuel : stream.tokens.length - 1 < stream.tokens.length := by omega
  have hfine : (Pair.self stream config e he).Fine (programLoop stream config errors).2 := by
    refine ⟨hclean, fun hjoins => ?_⟩
    rw [show (Pair.self stream config e he).seam = .eof from he] at hjoins
    cases hjoins
  obtain ⟨xs, xs', t, t', left, hleft, hright, ht, hone, hleftover, hagree⟩ := hstart.topLoop []
    hlen hfuel hfuel (Nat.lt_succ_of_lt hfuel) (Nat.lt_succ_of_lt hfuel) hfine
  rw [exec_topLoop_end (ht.right_ends he hone) (by omega)] at hright
  rw [List.append_nil] at hleft hright
  have heq := hleft.symm.trans hright
  obtain rfl : xs = xs' := Except.ok.inj (Prod.mk.inj heq).1
  have hloop : programLoop stream config errors = (.ok xs, t) := hleft
  rw [hloop]
  refine ⟨fun stmt hstmt => ?_, ht.tree⟩
  exact List.forall₂_same.1 hagree stmt (List.mem_reverse.1 hstmt)

/-! ## Accepted programs -/

/-- A source is accepted if its scan and its parse report nothing. -/
theorem parseProgram_eq_ok_iff {source : Source} {program : Program} :
    parseProgram source = .ok program ↔
      (parseScanned source .lossy {} {}).2.messages = #[] ∧
        (parseScanned source .lossy {} {}).1.program = program := by
  rw [← Array.toList_eq_nil_iff, ← errors_parseSource source {} {} .lossy rfl,
    ← program_parseSource source {} {} .lossy rfl, parseProgram, ← List.isEmpty_iff]
  dsimp only
  split
  next hempty => simp [hempty]
  next hempty => simp [hempty]

section
variable (stream : Scan.Stream) (config : Config) (errors : Diagnostic.Collector)

theorem collector_parse :
    (parse stream config errors).2 = (runProgram stream config errors).2.errors := rfl

theorem statements_parse :
    (parse stream config errors).1.program.statements = (runProgram stream config errors).1 := rfl

theorem tree_parse :
    (parse stream config errors).1.tree = (runProgram stream config errors).2.tree.map fun b =>
      ((runProgram stream config errors).2.rest.foldl Tree.Builder.token b).tree
        stream.source.text.utf8ByteSize := rfl

end

theorem clean_of_parse {stream : Scan.Stream} {config : Config} {errors : Diagnostic.Collector}
    (h : (parse stream config errors).2.messages = #[]) : errors.messages = #[] := by
  rw [collector_parse] at h
  exact (steps_runProgram stream config errors).clean h

/-- A scan and a parse that report nothing. -/
theorem parseScanned_whole {source : Source} {mode : Scan.Mode} {config : Config}
    {options : Diagnostic.Options}
    (h : (parseScanned source mode config { options }).2.messages = #[]) :
    (∀ t ∈ (Scan.scan source mode { options }).1.tokens, t.kind ≠ .error) ∧
      (∀ stmt ∈ (parseScanned source mode config { options }).1.program.statements,
        IsWhole (f := .stmt) stmt) ∧
      ∀ tree, (parseScanned source mode config { options }).1.tree = some tree →
        (Tree.Element.node tree).Whole := by
  rw [parseScanned] at h ⊢
  have hscan := clean_of_parse h
  obtain ⟨ts, e, htokens, he, hkinds⟩ := Scan.tokens_of_clean hscan
  rw [collector_parse] at h
  rw [statements_parse, tree_parse]
  obtain ⟨hprogram, hbuilder⟩ := runProgram_whole
    ⟨(Scan.scan source mode { options }).1.tokens, mode, source⟩ htokens he hkinds hscan h
  refine ⟨fun t ht => ?_, hprogram, fun tree htree => ?_⟩
  · rw [htokens, List.mem_append, List.mem_singleton] at ht
    rcases ht with ht | rfl
    · exact (hkinds t ht).2
    · rw [he]
      decide
  · obtain ⟨b, hb, rfl⟩ := Option.map_eq_some_iff.1 htree
    exact ((hbuilder b hb).foldl_token _).tree _

/-- If nothing is reported for a source, then no token of its scan is an error, its program has no
placeholder in it at any depth, and no node of its tree, if there is one, was made by recovery or has
an error. So a program that is accepted has no placeholder. -/
theorem parseSource_whole (source : Source) (config : Config) (options : Diagnostic.Options) :
    ((parseSource source config { options }).1.errors = [] →
      (∀ t ∈ (Scan.scan source (if config.buildTree then .lossless else .lossy)
        { options }).1.tokens, t.kind ≠ .error) ∧
      (∀ stmt ∈ (parseSource source config { options }).1.program.statements,
        IsWhole (f := .stmt) stmt) ∧
      ∀ tree, (parseSource source config { options }).1.tree = some tree →
        ∀ depth node, (depth, node) ∈ tree.nodes →
          node.kind ≠ .errorNode ∧ node.kind ≠ .missing ∧ node.error = none) ∧
    ∀ program, parseProgram source = .ok program →
      ∀ stmt ∈ program.statements, IsWhole (f := .stmt) stmt := by
  refine ⟨fun herrors => ?_, fun program hprogram => ?_⟩
  · rw [errors_parseSource source config options _ rfl, Array.toList_eq_nil_iff] at herrors
    rw [parseSource_eq source config { options } _ rfl]
    dsimp only
    obtain ⟨htokens, hstmts, htree⟩ := parseScanned_whole herrors
    refine ⟨htokens, hstmts, fun tree hsome depth node hnode => ?_⟩
    obtain ⟨hkind, herror⟩ := Tree.sound_of_mem_nodes (htree tree hsome) hnode
    refine ⟨?_, ?_, herror⟩
    · intro heq
      rw [heq] at hkind
      cases hkind
    · intro heq
      rw [heq] at hkind
      cases hkind
  · obtain ⟨hclean, rfl⟩ := parseProgram_eq_ok_iff.1 hprogram
    exact (parseScanned_whole hclean).2.1

/-- A program with a failure handler, a comment and an interpolated string. -/
theorem parseSource_whole_handler :
    (parseSource ⟨"f(\"{x}\")? else y; // z", "a"⟩ { buildTree := true } {}).1.errors = [] ∧
    (∀ t ∈ (Scan.scan ⟨"f(\"{x}\")? else y; // z", "a"⟩ .lossless {}).1.tokens,
      t.kind ≠ .error) ∧
    (∃ tree, (parseSource ⟨"f(\"{x}\")? else y; // z", "a"⟩ { buildTree := true } {}).1.tree =
      some tree ∧ ∀ depth node, (depth, node) ∈ tree.nodes →
        node.kind ≠ .errorNode ∧ node.kind ≠ .missing ∧ node.error = none) ∧
    ∃ program, parseProgram ⟨"f(\"{x}\")? else y; // z", "a"⟩ = .ok program ∧
      ∀ stmt ∈ program.statements, IsWhole (f := .stmt) stmt := by
  have hnone : (parseSource ⟨"f(\"{x}\")? else y; // z", "a"⟩ { buildTree := true } {}).1.errors =
      [] := by decide +kernel
  have hclean : (parseScanned ⟨"f(\"{x}\")? else y; // z", "a"⟩ .lossy {} {}).2.messages = #[] := by
    decide +kernel
  have hprogram := parseProgram_eq_ok_iff.2 ⟨hclean, rfl⟩
  obtain ⟨tree, htree, -⟩ := ordered_parseSource ⟨"f(\"{x}\")? else y; // z", "a"⟩ 20 {}
  obtain ⟨hwhole, haccepted⟩ := parseSource_whole ⟨"f(\"{x}\")? else y; // z", "a"⟩
    { buildTree := true } {}
  obtain ⟨htokens, -, hnodes⟩ := hwhole hnone
  exact ⟨hnone, htokens, ⟨tree, htree, hnodes tree htree⟩, _, hprogram, haccepted _ hprogram⟩

end Grammar

end LimitSyntax
