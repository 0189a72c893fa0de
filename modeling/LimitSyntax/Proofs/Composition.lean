import LimitSyntax.Proofs.ErrorsReported
import LimitSyntax.Proofs.ScanAppend

/-!
# Programs in a row

Two programs with a line feed between them make up a program. If the first one ends with a
semicolon, then its statements are those of both (`Grammar.parseProgram_append`). There is one
exception: the handler of an expression that may fail is a statement, and so the semicolon may be in
an expression. Then a second program that starts like the rest of an expression goes on with it.
-/

namespace LimitSyntax

namespace Token.Same

theorem symm {t u : Token} (h : t.Same u) : u.Same t := ⟨h.kind.symm, h.lexeme.symm, h.value.symm⟩

theorem trans {t u v : Token} (h : t.Same u) (h' : u.Same v) : t.Same v :=
  ⟨h.kind.trans h'.kind, h.lexeme.trans h'.lexeme, h.value.trans h'.value⟩

theorem bare (t : Token) : t.Same t.bare := ⟨Eq.refl _, Eq.refl _, Eq.refl _⟩

theorem shift (bytes lines : Nat) (t : Token) : t.Same (t.shift bytes lines) :=
  ⟨Eq.refl _, Eq.refl _, Eq.refl _⟩

end Token.Same

/-- The last token of a scan is the end. -/
theorem Scan.same_eof {src : Source} {mode : Mode} {errors : Diagnostic.Collector}
    {ts : List Token} {e : Token} (h : (scan src mode errors).1.tokens = ts ++ [e]) :
    e.Same (.eof 0 1) := by
  rw [tokens_scan] at h
  obtain rfl : (State.atEnd src mode errors).eof src = e := by
    simpa using congrArg List.getLast? h
  exact ⟨rfl, rfl, rfl⟩

/-- If nothing is reported for two texts, then nothing is for both with a line feed between them. -/
theorem Scan.scan_append_clean {src₁ src₂ src : Source}
    (htext : src.text = src₁.text ++ "\n" ++ src₂.text)
    (h₁ : (scan src₁ .lossy {}).2.messages = #[]) (h₂ : (scan src₂ .lossy {}).2.messages = #[]) :
    ∃ bytes lines, (scan src .lossy {}).1.tokens = (scan src₁ .lossy {}).1.tokens.dropLast ++
        (scan src₂ .lossy {}).1.tokens.map (Token.shift bytes lines) ∧
      (scan src .lossy {}).2.messages = #[] := by
  have hwhole : (State.atEnd src₁ .lossy {}).Whole := by
    intro m hm
    rw [← errors_scan, h₁] at hm
    simp at hm
  obtain ⟨htokens, hmessages⟩ := scan_append htext hwhole
  refine ⟨_, _, htokens, ?_⟩
  simpa [h₁, h₂] using hmessages

namespace Grammar

open Ast

/-! ## Streams without errors -/

/-- A parse of tokens without errors that reports nothing. -/
structure Faultless (stream : Scan.Stream) (config : Config) (collector : Diagnostic.Collector)
    (ts : List Token) (e : Token) : Prop where
  tokens : stream.tokens = ts ++ [e]
  eof : e.Same (.eof 0 1)
  kinds : ∀ t ∈ ts, t.kind ≠ .eof ∧ t.kind ≠ .error
  errors : collector.messages = #[]
  clean : (runProgram stream config collector).2.errors.messages = #[]

/-- A state between two declarations of such a parse. -/
structure State.Ready (s : State) : Prop where
  errors : s.errors.messages = #[]
  going : s.halted = false
  concurrent : s.concurrent = false

/-- At the end of the left parse the right one has the rest to read. -/
theorem Pair.Ahead.right_eq {g : Pair} {ts ts' : List Token} (h : g.Ahead ts ts')
    (hone : ts.length = 1) : ts' = g.more := by
  cases h with
  | ends => rfl
  | token _ _ _ _ hrest =>
    have hpos := hrest.length_pos
    rw [List.length_cons] at hone
    omega

/-- What may follow the tokens of a parse in a longer one: an end, or a declaration. There a semicolon
stands before it, and no expression goes on behind that. -/
inductive Faultless.Seam (stream : Scan.Stream) (config : Config)
    (collector : Diagnostic.Collector) (ts : List Token) (e : Token) : List Token → Prop where
  | ends {m : Token} (hsame : e.Same m) : Seam stream config collector ts e [m]
  | goesOn {m : Token} {more : List Token} (hopens : opensDeclaration m.kind = true)
      (hlast : ∀ t, ts.getLast? = some t → t.kind = .semicolon)
      (hapart : joinsExpression m.kind = true →
        ∃ b, (runProgram stream config collector).2.tree = some b ∧ ¬ b.EndsIn .fallibleExpr) :
      Seam stream config collector ts e (m :: more)

namespace Faultless

variable {stream : Scan.Stream} {config : Config} {collector : Diagnostic.Collector}
  {ts : List Token} {e : Token}

/-- The first token, if it is not the end, is one that a declaration may start with. -/
theorem opens (h : Faultless stream config collector ts e) {t : Token} {rest : List Token}
    (hts : ts = t :: rest) : opensDeclaration t.kind = true := by
  have hclean := h.clean
  rw [runProgram_eq_programLoop] at hclean
  have hfirst : ((State.start stream config collector).rest[0]?.getD
      (Input.of stream config).eof).kind = t.kind := by
    simp [State.start, h.tokens, hts]
  obtain ⟨hne, herror⟩ := h.kinds t (hts ▸ List.mem_cons_self)
  have heof := endOf_kind stream.tokens
  have hstart : (State.start stream config collector).Clean := ⟨h.errors, rfl, rfl⟩
  have hturn := clean_of_bind heof (fun _ => .ite (Twin.topTurns ..).stepwise (.pure _)) hclean
  obtain ⟨-, hdeclaration⟩ := topTurn_clean hstart heof (hfirst ▸ hne) hturn
  by_contra hopens
  have hrejects := Rejects.declarationRule (Rules.lawful_upTo stream.tokens.length)
    (Bool.eq_false_of_not_eq_true hopens) herror (Nat.succ_pos _)
  exact hrejects _ _ heof hstart hfirst hdeclaration

/-- The parses meet the conditions of a pair where the left one ends. -/
theorem seam (h : Faultless stream config collector ts e) {rest : List Token}
    (hseam : Seam stream config collector ts e rest) :
    ∃ m more, rest = m :: more ∧
      ((m.kind = .eof ∧ more = []) ∨ opensDeclaration m.kind = true) ∧
      (m.kind = .eof → e.Same m) ∧
      (m.kind ≠ .eof → ∀ t, ts.getLast? = some t → t.kind = .semicolon) ∧
      (joinsExpression m.kind = true →
        ∃ b, (runProgram stream config collector).2.tree = some b ∧ ¬ b.EndsIn .fallibleExpr) := by
  cases hseam with
  | @ends m hsame =>
    have hm : m.kind = .eof := hsame.kind.symm.trans h.eof.kind
    refine ⟨m, [], rfl, .inl ⟨hm, rfl⟩, fun _ => hsame, fun hne => absurd hm hne, fun hjoins => ?_⟩
    rw [hm] at hjoins
    cases hjoins
  | @goesOn m more hopens hlast hapart =>
    refine ⟨m, more, rfl, .inr hopens, fun hm => ?_, fun _ => hlast, hapart⟩
    rw [hm] at hopens
    cases hopens

/-- A parse that has the same tokens ahead reads the same declarations, and then goes on. -/
theorem beside (h : Faultless stream config collector ts e) {i : Input} (heof : i.eof.kind = .eof)
    {s : State} (hs : s.Ready) {ts' more : List Token} (hrest : s.rest = ts' ++ more)
    (hsame : List.Forall₂ Token.Same ts ts') (hseam : Seam stream config collector ts e more)
    {fuel bound : Nat} (hfuel : ts.length < fuel) (hbound : ts.length < bound)
    (stmts : List Stmt) :
    ∃ xs t left, exec (topLoop fuel bound stmts) i s = exec (topLoop fuel left (xs ++ stmts)) i t ∧
      t.Ready ∧ t.rest = more ∧ bound ≤ left + ts.length ∧
      Agree (runProgram stream config collector).1 xs.reverse := by
  obtain ⟨m, more, rfl, hnext, hend, hlast, hapart⟩ := h.seam hseam
  let g : Pair := {
    left := .of stream config
    right := i
    more := m :: more
    total := stream.tokens.length
    lead := s.position
    eof_left := endOf_kind stream.tokens
    eof_right := heof
    next := hnext.imp_left fun ⟨hend, hnil⟩ => ⟨hend, by rw [hnil]; exact le_rfl⟩ }
  have hahead : g.Ahead stream.tokens s.rest := by
    rw [h.tokens, hrest]
    exact Pair.ahead_of_same (g := g) hsame h.kinds hlast h.eof.kind hend
  have hstart : g.Abreast (.start stream config collector) s :=
    .start hahead h.errors hs.errors hs.going hs.concurrent rfl rfl
  have hlength : stream.tokens.length = ts.length + 1 := by simp [h.tokens]
  have hfine : g.Fine (runProgram stream config collector).2 := by
    refine ⟨h.clean, fun hjoins => ?_⟩
    obtain ⟨b, hb, hends⟩ := hapart hjoins
    refine ⟨by rw [hb, Option.isSome_some], fun _ hin => ?_⟩
    obtain ⟨b', hb', hin⟩ := hin
    cases hb.symm.trans hb'
    exact hends hin
  rw [runProgram_eq_programLoop] at hfine ⊢
  have hfuel' : ts.length < stream.tokens.length := by omega
  obtain ⟨xs, xs', t, t', left, hleft, hright, ht, hone, hcount, hagree⟩ := hstart.topLoop stmts
    (Nat.le_of_eq hlength) hfuel' hfuel (Nat.lt_succ_of_lt hfuel') hbound hfine
  have hloop : programLoop stream config collector = (.ok xs, t) := by
    rw [List.append_nil] at hleft
    exact hleft
  have hconcurrent : t.concurrent = false := by
    have hrun : exec (topDeclarations (.upTo stream.tokens.length)) (.of stream config)
        (.start stream config collector) = (.ok xs.reverse, t) := by
      rw [topDeclarations_eq, exec_bind_ok _ hloop]
      rfl
    exact ((Twin.topDeclarations stream.tokens.length).alike.framed.ok hrun).concurrent
  refine ⟨xs', t', left, hright, ⟨ht.clean', ht.going', ht.concurrent ▸ hconcurrent⟩,
    ht.ahead.right_eq hone, hcount, ?_⟩
  rw [hloop]
  exact hagree.reverse

/-- A parse reads everything but the end. -/
theorem rest (h : Faultless stream config collector ts e) :
    (runProgram stream config collector).2.rest = [e] := by
  have hlength : stream.tokens.length = ts.length + 1 := by simp [h.tokens]
  have hstart : (State.start stream config collector).Ready := ⟨h.errors, rfl, rfl⟩
  have hfuel : ts.length < stream.tokens.length := by omega
  -- the parse runs beside itself
  obtain ⟨xs, t, left, hloop, -, hrest, hcount, -⟩ := h.beside (i := .of stream config)
    (endOf_kind stream.tokens) hstart h.tokens (List.forall₂_same.2 fun _ _ => .rfl) (.ends .rfl)
    hfuel (Nat.lt_succ_of_lt hfuel) []
  have hend : (t.rest[0]?.getD (Input.of stream config).eof).kind = .eof := by
    rw [hrest]
    exact h.eof.kind
  rw [runProgram_eq_programLoop, programLoop, hloop, exec_topLoop_end hend (by omega)]
  exact hrest

/-- What the tree says about the end of the text holds of the tree that is built so far. -/
theorem apart (h : Faultless stream config collector ts e) {tree : Tree.Node}
    (htree : (parse stream config collector).1.tree = some tree)
    (hends : ¬ tree.EndsIn .fallibleExpr) :
    ∃ b, (runProgram stream config collector).2.tree = some b ∧ ¬ b.EndsIn .fallibleExpr := by
  rw [tree_parse, h.rest] at htree
  obtain ⟨b, hb, rfl⟩ := Option.map_eq_some_iff.1 htree
  exact ⟨b, hb, fun hin => hends (hin.tree e _)⟩

end Faultless

section
variable {stream₁ stream₂ : Scan.Stream} {config₁ config₂ : Config}
  {collector₁ collector₂ collector : Diagnostic.Collector} {ts us ts' us' : List Token}
  {e₁ e₂ e : Token}

/-- If the tokens of a stream are those of two others, one after the other, then it is parsed to the
declarations of both. -/
theorem runProgram_append (h₁ : Faultless stream₁ config₁ collector₁ ts e₁)
    (h₂ : Faultless stream₂ config₂ collector₂ us e₂) (stream : Scan.Stream) (config : Config)
    (hcollector : collector.messages = #[]) (htokens : stream.tokens = ts' ++ (us' ++ [e]))
    (hts : List.Forall₂ Token.Same ts ts') (hus : List.Forall₂ Token.Same us us')
    (he : e₂.Same e) (hlast : ∀ t, ts.getLast? = some t → t.kind = .semicolon)
    (hapart : ∀ u, us.head? = some u → joinsExpression u.kind = true →
      ∃ b, (runProgram stream₁ config₁ collector₁).2.tree = some b ∧ ¬ b.EndsIn .fallibleExpr) :
    (runProgram stream config collector).2.errors.messages = #[] ∧
      Agree ((runProgram stream₁ config₁ collector₁).1 ++ (runProgram stream₂ config₂ collector₂).1)
        (runProgram stream config collector).1 := by
  have heof : (Input.of stream config).eof.kind = .eof := endOf_kind stream.tokens
  have hend : e.kind = .eof := he.kind.symm.trans h₂.eof.kind
  have hlength : stream.tokens.length = ts.length + us.length + 1 := by
    simp only [htokens, List.length_append, ← hts.length_eq, ← hus.length_eq, List.length_singleton]
    omega
  have hfuel₁ : ts.length < stream.tokens.length := by omega
  have hfuel₂ : us.length < stream.tokens.length := by omega
  have hstart : (State.start stream config collector).Ready := ⟨hcollector, rfl, rfl⟩
  have hseam : Faultless.Seam stream₁ config₁ collector₁ ts e₁ (us' ++ [e]) := by
    cases hus with
    | nil => exact .ends ((h₁.eof.trans h₂.eof.symm).trans he)
    | cons hu =>
      exact .goesOn (hu.kind ▸ h₂.opens rfl) hlast fun hjoins => hapart _ rfl (hu.kind ▸ hjoins)
  -- the declarations of the first stream, and then those of the second
  obtain ⟨xs, s, left, hloop, hs, hrest, hcount, hxs⟩ := h₁.beside heof hstart htokens hts hseam
    hfuel₁ (Nat.lt_succ_of_lt hfuel₁) []
  have hleft : us.length < left := by omega
  obtain ⟨ys, t, left', hloop', ht, hrest', hcount', hys⟩ := h₂.beside heof hs hrest hus (.ends he)
    hfuel₂ hleft (xs ++ [])
  have hatEnd : (t.rest[0]?.getD (Input.of stream config).eof).kind = .eof := by
    rw [hrest']
    exact hend
  rw [runProgram_eq_programLoop stream, programLoop, hloop, hloop',
    exec_topLoop_end hatEnd (by omega)]
  refine ⟨ht.errors, ?_⟩
  simpa [Except.toOption] using hxs.append hys

end

/-! ## Sources -/

/-- A scan and a parse that report nothing. -/
theorem faultless_of_parseScanned {source : Source} {mode : Scan.Mode} {config : Config}
    (h : (parseScanned source mode config {}).2.messages = #[]) :
    ∃ ts e, Faultless ⟨(Scan.scan source mode {}).1.tokens, mode, source⟩ config
      (Scan.scan source mode {}).2 ts e := by
  rw [parseScanned] at h
  have hscan := clean_of_parse h
  rw [collector_parse] at h
  obtain ⟨ts, e, htokens, -, hkinds⟩ := Scan.tokens_of_clean hscan
  exact ⟨ts, e, htokens, Scan.same_eof htokens, hkinds, hscan, h⟩

/-- If the lossy scan of a source and its parse report nothing, then with a tree the same statements
are parsed and nothing is reported, either. -/
theorem parseScanned_of_clean {source : Source}
    (h : (parseScanned source .lossy {} {}).2.messages = #[]) :
    (∀ m ∈ (Scan.scan source .lossless {}).2.messages, ¬ m.NamesStray) ∧
      (parseScanned source .lossless { buildTree := true } {}).2.messages = #[] ∧
      (parseScanned source .lossless { buildTree := true } {}).1.program =
        (parseScanned source .lossy {} {}).1.program := by
  have hscan : (Scan.scan source .lossless {}).2.messages = #[] := by
    rw [← Scan.errors_scan_lossy]
    exact clean_of_parse h
  have hstray : ∀ m ∈ (Scan.scan source .lossless {}).2.messages, ¬ m.NamesStray := by
    rw [hscan]
    simp
  obtain ⟨hprogram, hcollector⟩ := parseScanned_lossy source 20 {} hstray
  exact ⟨hstray, hcollector ▸ h, hprogram.symm⟩

/-- If two sources are accepted and the last token of the first one is a semicolon, then both with a
line feed between them are accepted, and the statements are those of the first and then those of the
second, up to spans and lines. The exception are second sources that start with a token that goes on
with an expression, behind first ones where the semicolon is in an expression that may fail. -/
theorem parseProgram_append (src₁ src₂ src : Source)
    (htext : src.text = src₁.text ++ "\n" ++ src₂.text) (program₁ program₂ : Program)
    (h₁ : parseProgram src₁ = .ok program₁) (h₂ : parseProgram src₂ = .ok program₂)
    (hlast : (Scan.scan src₁ .lossy {}).1.tokens.dropLast.getLast?.map Token.kind = some .semicolon)
    (hapart : ∀ t ∈ (Scan.scan src₂ .lossy {}).1.tokens.head?, joinsExpression t.kind = true →
      ∀ tree ∈ (parseSource src₁ { buildTree := true } {}).1.tree, ¬ tree.EndsIn .fallibleExpr) :
    ∃ program, parseProgram src = .ok program ∧
      List.Forall₂ (Same .stmt) (program₁.statements ++ program₂.statements)
        program.statements := by
  obtain ⟨hclean₁, rfl⟩ := parseProgram_eq_ok_iff.1 h₁
  obtain ⟨hclean₂, rfl⟩ := parseProgram_eq_ok_iff.1 h₂
  obtain ⟨hstray, htree, hprogram⟩ := parseScanned_of_clean hclean₁
  obtain ⟨ts, e₁, hf₁⟩ := faultless_of_parseScanned htree
  obtain ⟨us, e₂, hf₂⟩ := faultless_of_parseScanned hclean₂
  have hlossy : (Scan.scan src₁ .lossy {}).1.tokens = ts.map Token.bare ++ [e₁.bare] := by
    rw [Scan.tokens_scan_lossy src₁ {} hstray, hf₁.tokens, List.map_append, List.map_singleton]
  obtain ⟨bytes, lines, htokens, hscan⟩ :=
    Scan.scan_append_clean htext (clean_of_parse hclean₁) hf₂.errors
  rw [hlossy, List.dropLast_concat] at htokens hlast
  rw [hf₂.tokens, List.map_append, List.map_singleton] at htokens
  have hsemicolon : ∀ t, ts.getLast? = some t → t.kind = .semicolon := by
    intro t ht
    rw [List.getLast?_map, ht] at hlast
    exact Option.some.inj hlast
  have hjoined : ∀ u, us.head? = some u → joinsExpression u.kind = true →
      ∃ b, (runProgram ⟨(Scan.scan src₁ .lossless {}).1.tokens, .lossless, src₁⟩
        { buildTree := true } (Scan.scan src₁ .lossless {}).2).2.tree = some b ∧
          ¬ b.EndsIn .fallibleExpr := by
    intro u hu hjoins
    have hfirst : u ∈ (Scan.scan src₂ .lossy {}).1.tokens.head? := by
      rw [hf₂.tokens, List.head?_append, hu]
      rfl
    obtain ⟨tree, htree, -⟩ := ordered_parseSource src₁ 20 {}
    have hends := hapart u hfirst hjoins tree htree
    rw [tree_parseSource, parseScanned] at htree
    exact hf₁.apart htree hends
  obtain ⟨hclean, hagree⟩ := runProgram_append hf₁ hf₂
    ⟨(Scan.scan src .lossy {}).1.tokens, .lossy, src⟩ {} hscan htokens
    (List.forall₂_map_right_iff.2 (List.forall₂_same.2 fun t _ => .bare t))
    (List.forall₂_map_right_iff.2 (List.forall₂_same.2 fun t _ => .shift bytes lines t))
    (.shift bytes lines e₂) hsemicolon hjoined
  refine ⟨_, parseProgram_eq_ok_iff.2 ⟨?_, rfl⟩, ?_⟩
  · rw [parseScanned, collector_parse]
    exact hclean
  · rw [← hprogram, parseScanned, parseScanned, parseScanned, statements_parse, statements_parse,
      statements_parse]
    exact hagree

/-- The handler is a block, so that the semicolon is behind the expression. -/
theorem parseProgram_append_block : ∃ program₁ program₂ program,
    parseProgram ⟨"x? else \x7by;\x7d;", "a"⟩ = .ok program₁ ∧
    parseProgram ⟨"(z);", "a"⟩ = .ok program₂ ∧
    parseProgram ⟨"x? else \x7by;\x7d;\n(z);", "a"⟩ = .ok program ∧
    List.Forall₂ (Same .stmt) (program₁.statements ++ program₂.statements)
      program.statements := by
  have hclean₁ : (parseScanned ⟨"x? else \x7by;\x7d;", "a"⟩ .lossy {} {}).2.messages = #[] := by
    decide +kernel
  have hclean₂ : (parseScanned ⟨"(z);", "a"⟩ .lossy {} {}).2.messages = #[] := by decide +kernel
  have hlast : (Scan.scan ⟨"x? else \x7by;\x7d;", "a"⟩ .lossy {}).1.tokens.dropLast.getLast?.map
      Token.kind = some .semicolon := by decide +kernel
  have hapart : ∀ tree ∈ (parseSource ⟨"x? else \x7by;\x7d;", "a"⟩ { buildTree := true } {}).1.tree,
      ¬ tree.EndsIn .fallibleExpr := by decide +kernel
  have h₁ := parseProgram_eq_ok_iff.2 ⟨hclean₁, rfl⟩
  have h₂ := parseProgram_eq_ok_iff.2 ⟨hclean₂, rfl⟩
  obtain ⟨program, h⟩ := parseProgram_append ⟨"x? else \x7by;\x7d;", "a"⟩ ⟨"(z);", "a"⟩
    ⟨"x? else \x7by;\x7d;\n(z);", "a"⟩ (by decide) _ _ h₁ h₂ hlast fun _ _ _ => hapart
  exact ⟨_, _, program, h₁, h₂, h⟩

/-- The handler has the semicolon, and the parentheses of the second line call what stands before
them. So there are fewer statements than in both lines alone. -/
theorem parseProgram_append_call : ∃ program₁ program₂ program,
    parseProgram ⟨"x? else y;", "a"⟩ = .ok program₁ ∧
    parseProgram ⟨"(z);", "a"⟩ = .ok program₂ ∧
    (Scan.scan ⟨"x? else y;", "a"⟩ .lossy {}).1.tokens.dropLast.getLast?.map Token.kind =
      some .semicolon ∧
    parseProgram ⟨"x? else y;\n(z);", "a"⟩ = .ok program ∧
    ∀ R : Stmt → Stmt → Prop,
      ¬ List.Forall₂ R (program₁.statements ++ program₂.statements) program.statements := by
  have hclean₁ : (parseScanned ⟨"x? else y;", "a"⟩ .lossy {} {}).2.messages = #[] := by
    decide +kernel
  have hclean₂ : (parseScanned ⟨"(z);", "a"⟩ .lossy {} {}).2.messages = #[] := by decide +kernel
  have hclean : (parseScanned ⟨"x? else y;\n(z);", "a"⟩ .lossy {} {}).2.messages = #[] := by
    decide +kernel
  have hlength : (parseScanned ⟨"x? else y;\n(z);", "a"⟩ .lossy {} {}).1.program.statements.length ≠
      ((parseScanned ⟨"x? else y;", "a"⟩ .lossy {} {}).1.program.statements ++
        (parseScanned ⟨"(z);", "a"⟩ .lossy {} {}).1.program.statements).length := by decide +kernel
  exact ⟨_, _, _, parseProgram_eq_ok_iff.2 ⟨hclean₁, rfl⟩, parseProgram_eq_ok_iff.2 ⟨hclean₂, rfl⟩,
    by decide +kernel, parseProgram_eq_ok_iff.2 ⟨hclean, rfl⟩, fun _ h => hlength h.length_eq.symm⟩

end Grammar

end LimitSyntax
