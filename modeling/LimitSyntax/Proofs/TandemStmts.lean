import LimitSyntax.Proofs.TandemExprs

/-!
# In tandem: statements

The rules for statements run alike in parses that are abreast. A statement may end at the seam.
-/

namespace LimitSyntax.Grammar.Tandem

open Ast

section
variable {g : Pair} {cap : Nat} {rules rules' : Rules} {H : Prop} {n : Nat} {σ : Spot}
  (hr : rules.InTandem g cap rules') (hn : n ≤ cap + 1)
include hr hn

omit hn in
theorem bodyStatement (hn : n ≤ cap) {kind kind' : String} :
    Tandem H g .within n (bodyStatement rules kind) (bodyStatement rules' kind') (fun _ => .any)
      (fun _ => n - 1) :=
  .check (.startPos fun _ _ _ _ => .bind (.inNode (.bind .advance (blockBody hr (by omega)))) <|
      .spanFrom fun _ _ => .pure fun h => .stmt (.blockStmt h.2))
    (hr.statement hn)

theorem printStatement {kind : Token.Kind} (hkind : isSolid kind = true) :
    Tandem H g (.before kind) n (printStatement rules) (printStatement rules') (fun _ => .any)
      (fun _ => n - 1) := by
  have hb := hr.bound
  have hb' := hr.bound'
  have hlist : ∀ {G : Prop} {k : Nat}, k ≤ n - 1 → Tandem G g .within k
      (Grammar.commaSeparated rules (rules.call .expression))
      (Grammar.commaSeparated rules' (rules'.call .expression)) (fun _ => .inner) (fun _ => k - 1) :=
    fun hk => .commaSeparated (by omega) (by omega) fun k hk => (hr.expression (by omega)).fromSpot
  have hdone : ∀ {G : Prop} {σ : Spot} {k : Nat} {args args' : List Expr}, k ≤ n - 1 →
      σ.meets .semicolon = false → Tandem (G ∧ Agree args args') g σ k
        (Grammar.eat .semicolon >>= fun _ => Pure.pure (StmtKind.print args))
        (Grammar.eat .semicolon >>= fun _ => Pure.pure (StmtKind.print args'))
        (fun _ => .any) (fun _ => n - 1) :=
    fun hk hσ => .andThen (.eatOptional hσ) (.pure fun h => .printStmt (.ofList h.2))
  refine .andThen (.advance hkind) (.eat ?_ (.bind (hlist le_rfl) (hdone (by omega) rfl)))
  refine .checkThen .inner (.value fun _ => .nil) (hlist (by omega)) ?_
  exact .andThen (.consume ..) (.bind (.value And.right) (hdone (by omega) rfl))

omit hn in
theorem elseBranch (hn : n ≤ cap) : Tandem H g .any n (elseBranch rules) (elseBranch rules')
    (fun _ => .any) (fun _ => n) := by
  refine .check (.startPos fun _ _ _ _ => .bind (.inNode (hr.ifStatement hn)) <|
    .spanFrom fun _ _ => .pure fun h => .some (.stmt h.2)) ?_
  exact .after (bodyStatement hr (by omega))

theorem ifRule {kind : Token.Kind} (hkind : isSolid kind = true) :
    Tandem H g (.before kind) n (ifRule rules) (ifRule rules') (fun _ => .any)
      (fun _ => n - 1) :=
  .bindToken (.advance hkind) fun _ => .andThen (.consume ..) <| .bind ((hr.expression (by omega)).fromSpot) <|
    .andThen (.consume ..) <| .bind (bodyStatement hr (by omega)) <| .bind (elseBranch hr (by omega)) <|
      .pure fun h => .ifElseStmt h.1.1.2 h.1.2 (.ofOption h.2)

/-! ## Loops -/

theorem loopHeader : Tandem H g .within n (loopHeader rules) (loopHeader rules')
    (fun _ => .inner) (fun _ => n - 1) := by
  have hb := hr.bound
  have hb' := hr.bound'
  have hvars : ∀ {G : Prop} {k : Nat}, k ≤ n → Tandem G g .within k
      (do
        let vars ← Grammar.commaSeparated rules (Grammar.consumeName "Expected loop variable name.")
        let _ ← Grammar.consume .kwIn "Expected 'in' after loop variables."
        return (vars, ← rules.call .expression))
      (do
        let vars ← Grammar.commaSeparated rules' (Grammar.consumeName "Expected loop variable name.")
        let _ ← Grammar.consume .kwIn "Expected 'in' after loop variables."
        return (vars, ← rules'.call .expression)) (fun _ => .inner) (fun _ => n - 1) :=
    fun hk => .bind (.commaSeparated (by omega) (by omega) fun k hk => .consumeName ..) <|
      .andThen (.consume ..) <| .bind ((hr.expression (by omega)).fromSpot) <|
        .pure fun h => ⟨h.1.2, h.2⟩
  exact .eat (hvars (by omega)) (hvars le_rfl)

omit hr hn in
theorem startsLoopHeader {α : Type} [Comparable α] {p q p' q' : Parse α} {τ : α → Spot}
    {m : α → Nat} (htrue : Tandem H g .within n p q τ m) (hfalse : Tandem H g .within n p' q' τ m) :
    Tandem H g .within n (startsLoopHeader >>= fun b => if b = true then p else p')
      (startsLoopHeader >>= fun b => if b = true then q else q') τ m := by
  refine .test (fun _ => .within) Alike.startsLoopHeader.stepwise (fun _ s s' hs hseam => ?_)
    fun _ => .ite htrue hfalse
  have hfirst := (hs.peek_of_not_atSeam hseam).kind
  have hexec : ∀ i s, exec Grammar.startsLoopHeader i s = (.ok
    ((s.rest[0]?.getD i.eof).kind == .kwVar &&
        ((s.rest[2]?.getD i.eof).kind == .kwIn || (s.rest[2]?.getD i.eof).kind == .comma) ||
      (s.rest[0]?.getD i.eof).kind == .identifier &&
        ((s.rest[1]?.getD i.eof).kind == .kwIn || (s.rest[1]?.getD i.eof).kind == .comma)), s) :=
    fun _ _ => rfl
  refine ⟨_, hexec g.left s, ?_, hseam⟩
  rw [hexec, ← hfirst]
  refine congrArg (fun b => (Except.ok b, s')) ?_
  by_cases hsolid : isSolid (s.rest[0]?.getD g.left.eof).kind = true
  · rw [(hs.ahead.peek_one hsolid).kind, hs.ahead.check_two hsolid (by decide) rfl,
      hs.ahead.check_two hsolid (by decide) rfl]
  · have hvar : (s.rest[0]?.getD g.left.eof).kind ≠ .kwVar := fun h => hsolid (h ▸ rfl)
    have hname : (s.rest[0]?.getD g.left.eof).kind ≠ .identifier := fun h => hsolid (h ▸ rfl)
    simp only [beq_false_of_ne hvar, beq_false_of_ne hname, Bool.false_and]

omit hn in
theorem loopInitializer (hn : n ≤ cap) (htotal : n < g.total) :
    Tandem H g .within n (loopInitializer rules) (loopInitializer rules') (fun _ => .any)
      (fun _ => n) := by
  have hdone : ∀ {G : Prop} {σ : Spot} {k start line start' line' : Nat} {kind kind' : StmtKind},
      k ≤ n → σ.meets .semicolon = false → Tandem (G ∧ Agree kind kind') g σ k
        (do
          let init : Stmt := ⟨kind, ← Grammar.spanFrom start, line⟩
          if (← Grammar.previous).kind != .semicolon then
            let _ ← Grammar.consume .semicolon "Expected ';' after loop initializer."
          return some init)
        (do
          let init : Stmt := ⟨kind', ← Grammar.spanFrom start', line'⟩
          if (← Grammar.previous).kind != .semicolon then
            let _ ← Grammar.consume .semicolon "Expected ';' after loop initializer."
          return some init) (fun _ => .any) (fun _ => n) := by
    intro G σ k start line start' line' kind kind' hk hσ
    refine .spanFrom fun _ _ => .lastRead (by omega) fun t t' ht => ?_
    rw [← ht.kind]
    exact .ite (.andThen (.consume ..) (.pure fun h => .some (.stmt h.2)))
      (.pure (fun h => .some (.stmt h.2)) (Spot.le_any _))
  refine .eat (.pure fun _ => .none) <| .startPos fun _ _ _ _ => .check ?_ ?_
  · exact .bind (.inNode (.map ((varDeclaration hr (by omega) {}).fromSpot) Same.varDeclStmt))
      (hdone (by omega) rfl)
  · exact .bind (.inNode (.map ((hr.expression hn).fromSpot) Same.expressionStmt))
      (hdone (by omega) rfl)

omit hn in
theorem exprUnless (hn : n ≤ cap) {close : Token.Kind} (hclose : σ.meets close = false)
    (heof : close ≠ .eof) : Tandem H g σ n (exprUnless rules close) (exprUnless rules' close)
      (fun _ => .any) (fun _ => n) :=
  .check (.pure fun _ => .none) (.bind ((hr.expression hn).fromSpot (Spot.le_any _)) <|
    .pure fun h => .some h.2) hclose heof

theorem forStatement {kind : Token.Kind} (hkind : isSolid kind = true) :
    Tandem H g (.before kind) n (forStatement rules) (forStatement rules') (fun _ => .any)
      (fun _ => n - 1) := by
  refine .exactly (Twin.forStatement hr.lawful).stepwise fun k hpos hk htotal => ?_
  refine .andThen (.advance hkind) <| .andThen (.consume ..) <| .startsLoopHeader ?_ ?_
  · refine .bind (loopHeader hr (by omega)) fun {r r'} => ?_
    obtain ⟨vars, iterable⟩ := r
    obtain ⟨vars', iterable'⟩ := r'
    refine .andThen (.consume ..) <| .bind (bodyStatement hr (by omega)) <|
      .pure fun ⟨⟨_, hvars, hiterable⟩, hbody⟩ => ?_
    obtain rfl : vars = vars' := Strict.eq hvars
    exact .forEachStmt hiterable hbody
  · exact .bind (loopInitializer hr (by omega) (by omega)) <|
      .bind (exprUnless hr (by omega) rfl (by decide)) <| .andThen (.consume ..) <|
      .bind (exprUnless hr (by omega) rfl (by decide)) <| .andThen (.consume ..) <|
      .bind (bodyStatement hr (by omega)) <| .pure fun h =>
        .forLoopStmt (.ofOption h.1.1.1.2) (.ofOption h.1.1.2) (.ofOption h.1.2) h.2

theorem whileStatement {kind : Token.Kind} (hkind : isSolid kind = true) :
    Tandem H g (.before kind) n (whileStatement rules) (whileStatement rules') (fun _ => .any)
      (fun _ => n - 1) :=
  .andThen (.advance hkind) <| .andThen (.consume ..) <|
    .bind ((hr.expression (by omega)).fromSpot) <| .andThen (.consume ..) <|
    .bind (bodyStatement hr (by omega)) <| .pure fun h => .whileLoopStmt h.1.2 h.2

theorem iterStatement {kind : Token.Kind} (hkind : isSolid kind = true) :
    Tandem H g (.before kind) n (iterStatement rules) (iterStatement rules') (fun _ => .any)
      (fun _ => n - 1) := by
  refine .andThen (.advance hkind) <| .andThen (.consume ..) <|
    .bind (loopHeader hr (by omega)) fun {r r'} => ?_
  obtain ⟨vars, iterable⟩ := r
  obtain ⟨vars', iterable'⟩ := r'
  refine .andThen (.consume ..) <| .bind (bodyStatement hr (by omega)) <|
    .pure fun ⟨⟨_, hvars, hiterable⟩, hbody⟩ => ?_
  obtain rfl : vars = vars' := Strict.eq hvars
  exact .iterLoopStmt hiterable hbody

theorem returnStatement {kind : Token.Kind} (hkind : isSolid kind = true) :
    Tandem H g (.before kind) n (returnStatement rules) (returnStatement rules') (fun _ => .any)
      (fun _ => n - 1) := by
  refine .andThen (.advance hkind) <| .peek fun kind t t' hkind hsame => ?_
  rw [← hsame.kind, hkind]
  have hdone : ∀ {G : Prop} {σ : Spot} {k : Nat} {e e' : Option Expr}, k ≤ n - 1 →
      σ.meets .semicolon = false → Tandem (G ∧ Agree e e') g σ k
        (Grammar.eat .semicolon >>= fun _ => Pure.pure (StmtKind.returns e))
        (Grammar.eat .semicolon >>= fun _ => Pure.pure (StmtKind.returns e'))
        (fun _ => .any) (fun _ => n - 1) :=
    fun hk hσ => .andThen (.eatOptional hσ) (.pure fun h => .returnsStmt (.ofOption h.2))
  split
  iterate 3 · exact .bind (.value fun _ => .none) (hdone le_rfl rfl)
  · exact .bind (.map ((hr.expression (by omega)).fromSpot) .some) (hdone (by omega) rfl)

/-! ## Concurrency -/

omit hr hn in
theorem settingValue : Tandem H g .within n settingValue settingValue (fun _ => .within)
    (fun _ => n - 1) := by
  refine .peek fun kind t t' hkind hsame => ?_
  rw [← hsame.kind, hkind]
  split
  · exact .bindToken .advance fun h => .pure fun _ => h.text
  iterate 4 · exact .bindToken .advance fun h => .pure fun _ => h.lexeme
  · exact .fail _

theorem concurrencySetting {settings : ConcurrencySettings} :
    Tandem H g .within n (concurrencySetting rules settings) (concurrencySetting rules' settings)
      (fun _ => .within) (fun _ => n - 1) := by
  have hdone : ∀ {G : Prop} {σ : Spot} {k : Nat} (settings : ConcurrencySettings), k ≤ n - 1 →
      σ.meets .comma = false → σ.meets .rightParen = false → Tandem G g σ k
        (do
          if !(← Grammar.eat .comma) && !(← Grammar.check .rightParen) then
            Grammar.fail "Expected ',' or ')' after parameter"
          return settings)
        (do
          if !(← Grammar.eat .comma) && !(← Grammar.check .rightParen) then
            Grammar.fail "Expected ',' or ')' after parameter"
          return settings) (fun _ => .within) (fun _ => n - 1) := by
    intro G σ k settings hk hcomma hparen
    refine .eat (.checkWithin fun _ => .pure fun _ => rfl) (.check ?_ ?_ hparen) hcomma
    · exact .pure fun _ => rfl
    · show Tandem G g σ k (Grammar.fail _) _ _ _
      exact .fail _
  refine .bindBy Token.Same (fun _ => .rfl) And.left (.consume ..) fun {key key'} hkey => ?_
  rw [← hkey.lexeme]
  refine .eat ?_ ?_
  · exact .bind (hr.type (by omega)) (hdone settings (by omega) rfl rfl)
  · refine .andThen (.consume ..) <| .bindEq .settingValue fun value => ?_
    dsimp only
    split
    next settings _ => exact hdone settings (by omega) rfl rfl
    next =>
      refine .reportAt _ (fun h => h.2.2) fun _ => ?_
      exact (@hdone H .within (n - 1) settings le_rfl rfl rfl).stepwise

theorem concurrencySettings {defaults : ConcurrencySettings} :
    Tandem H g .within n (concurrencySettings rules defaults) (concurrencySettings rules' defaults)
      (fun _ => .within) (fun _ => n) := by
  have hb := hr.bound
  have hb' := hr.bound'
  refine .eat ?_ (.pure fun _ => rfl)
  refine .bind (.repeatEq .within (by omega) (by omega) fun settings k hk => ?_) <|
    .andThen (.consume ..) <| .pure And.right
  exact .listEnds (.stop fun _ => rfl) (.bind (concurrencySetting hr (by omega)) (.again And.right))

theorem concurrencyBlock {kind : Token.Kind} (hkind : isSolid kind = true) {keyword : String}
    {defaults : ConcurrencySettings} :
    Tandem H g (.before kind) n (concurrencyBlock rules keyword defaults)
      (concurrencyBlock rules' keyword defaults) (fun _ => .within) (fun _ => n - 1) :=
  .andThen (.advance hkind) <| .bind (concurrencySettings hr (by omega)) <|
    .bind (.concurrently (block hr (by omega))) <| .pure fun h => ⟨h.1.2, h.2⟩

theorem taskStatement : Tandem H g (.beforeTwo .identifier .leftParen) n (taskStatement rules)
    (taskStatement rules') (fun _ => .within) (fun _ => n - 1) := by
  have hdone : ∀ {G : Prop} {k : Nat} (var : Option String), k ≤ n - 1 → Tandem G g .within k
      (do
        let iterable ← rules.call .expression
        let _ ← Grammar.consume .rightParen "Expected ')' after task header."
        return StmtKind.task var iterable
          (← Grammar.block rules "task" "Expected '\x7b' after task header."))
      (do
        let iterable ← rules'.call .expression
        let _ ← Grammar.consume .rightParen "Expected ')' after task header."
        return StmtKind.task var iterable
          (← Grammar.block rules' "task" "Expected '\x7b' after task header."))
      (fun _ => .within) (fun _ => n - 1) :=
    fun var hk => .bind ((hr.expression (by omega)).fromSpot) <| .andThen (.consume ..) <|
      .bind (block hr (by omega)) <| .pure fun h => .taskStmt h.1.2 h.2
  refine .andThen .advanceTo <| .andThen .advance <| .checkTwo ?_ (hdone none (by omega))
  refine .bindToken .advanceTo fun ht => .andThen .advance ?_
  rw [ht.lexeme]
  exact hdone _ (by omega)

theorem workerStatement : Tandem H g (.beforeTwo .identifier .leftParen) n (workerStatement rules)
    (workerStatement rules') (fun _ => .within) (fun _ => n - 1) := by
  have hdone : ∀ {G : Prop} {k : Nat} (param : Option String), k ≤ n - 1 → Tandem G g .within k
      (do
        let _ ← Grammar.consume .rightParen "Expected ')' after worker parameter."
        return StmtKind.worker param
          (← Grammar.block rules "worker" "Expected '\x7b' after worker header."))
      (do
        let _ ← Grammar.consume .rightParen "Expected ')' after worker parameter."
        return StmtKind.worker param
          (← Grammar.block rules' "worker" "Expected '\x7b' after worker header."))
      (fun _ => .within) (fun _ => n - 1) :=
    fun var hk => .andThen (.consume ..) <| .bind (block hr (by omega)) <|
      .pure fun h => .workerStmt h.2
  refine .andThen .advanceTo <| .andThen .advance <| .check ?_ (hdone none (by omega))
  refine .bindToken .advance fun ht => ?_
  rw [ht.lexeme]
  exact hdone _ (by omega)

/-! ## Matches and contracts -/

omit hn in
theorem matchCase (hn : n ≤ cap) : Tandem H g .within n (matchCase rules) (matchCase rules')
    (fun _ => .any) (fun _ => n - 1) :=
  .inNode <| .bind (hr.pattern hn) <|
    .bind (.after ((hr.expression (by omega)).fromSpot)) <| .andThen (.consume ..) <|
    .bind (hr.statement (by omega)) <| .andThen .eatOptional <| .pure fun h =>
      .matchCase h.1.1.2 (.ofOption h.1.2) h.2

theorem matchStatement {kind : Token.Kind} (hkind : isSolid kind = true) :
    Tandem H g (.before kind) n (matchStatement rules) (matchStatement rules') (fun _ => .any)
      (fun _ => n - 1) := by
  have hb := hr.bound
  have hb' := hr.bound'
  refine .andThen (.advance hkind) <| .andThen (.consume ..) <|
    .bind ((hr.expression (by omega)).fromSpot) <| .andThen (.consume ..) <|
    .bindToken (.consume ..) fun _ => .bind (.inBody (.untilEnd (by omega) (by omega)
      (fun _ => .nil) (fun k hk => ?_) (fun _ _ _ _ hend => exec_bodyEnds _ _ hend)
      (.andThen (.closeBlock ..) (.value And.right)) fun _ => ?_)) <|
    .pure fun h => .matchCasesStmt h.1.2 (.ofList h.2.reverse)
  · exact .bodyEnds (.stop And.right) (.bind (matchCase hr (by omega)) (.again fun h => .cons h.2 h.1.2))
  · exact (Rejects.closeBlock (by decide) (by decide) _).bind fun _ => .pure _

theorem contractStatement {kind : Token.Kind} (hkind : isSolid kind = true) :
    Tandem H g (.before kind) n (contractStatement rules) (contractStatement rules')
      (fun _ => .any) (fun _ => n - 1) :=
  .andThen (.advance hkind) <| .andThen (.consume ..) <|
    .bind ((hr.expression (by omega)).fromSpot) <|
    .bind (.after ((hr.expression (by omega)).fromSpot)) <| .andThen (.consume ..) <|
    .andThen (.consume ..) <| .pure fun h => .contractStmt h.1.2 (.ofOption h.2)

/-! ## Statements -/

omit hr hn in
theorem statementNode_congr {concurrent : Bool} {t t' u u' : Token} (ht : t.Same t')
    (hu : isSolid t.kind = true → u.Same u') :
    statementNode concurrent t' u' = statementNode concurrent t u := by
  unfold statementNode
  rw [← ht.kind, ← ht.lexeme]
  split
  case h_16 hkind => rw [(hu (by rw [hkind]; rfl)).kind]
  all_goals rfl

/-- The kinds of tokens that a statement with a node of a kind starts with. -/
def StatementStarts (kind next : Token.Kind) : Tree.Kind → Prop
  | .taskStatement | .workerStatement => kind = .identifier ∧ next = .leftParen
  | .expressionStatement => True
  | _ => isSolid kind = true

omit hr hn in
theorem statementNode_starts (concurrent : Bool) (t u : Token) :
    (statementNode concurrent t u).isRecovery = false ∧
      StatementStarts t.kind u.kind (statementNode concurrent t u) := by
  unfold statementNode
  split
  case h_16 hkind =>
    rw [hkind]
    split
    next hparen =>
      have hnext : u.kind = .leftParen := eq_of_beq (Bool.and_eq_true_iff.1 hparen).2
      rw [hnext]
      split
      · exact ⟨rfl, rfl, rfl⟩
      · exact ⟨rfl, rfl, rfl⟩
      · exact ⟨rfl, trivial⟩
    next => exact ⟨rfl, trivial⟩
  case h_17 => exact ⟨rfl, trivial⟩
  all_goals
    rename_i hkind
    rw [hkind]
    exact ⟨rfl, rfl⟩

theorem statementOf {kind next : Token.Kind} {node : Tree.Kind}
    (hstarts : StatementStarts kind next node) :
    Tandem H g (.beforeTwo kind next) n (statementOf rules node) (statementOf rules' node)
      (fun _ => .any) (fun _ => n - 1) := by
  have hbefore : (Spot.beforeTwo kind next).le (.before kind) = true := beq_self_eq_true kind
  unfold Grammar.statementOf
  split
  · exact (printStatement hr hn hstarts).fromSpot hbefore
  · exact (ifRule hr hn hstarts).fromSpot hbefore
  · exact (forStatement hr hn hstarts).fromSpot hbefore
  · exact (whileStatement hr hn hstarts).fromSpot hbefore
  · exact (iterStatement hr hn hstarts).fromSpot hbefore
  · exact .bind (.advance hstarts) <| .bind (blockBody hr (by omega)) <|
      .pure fun h => .blockStmt h.2
  · exact (returnStatement hr hn hstarts).fromSpot hbefore
  · exact .andThen (.advance hstarts) <| .andThen (.consume ..) <| .pure fun _ => .breaksStmt
  · exact .andThen (.advance hstarts) <| .andThen (.consume ..) <| .pure fun _ => .continuesStmt
  iterate 2
    · refine .bind ((concurrencyBlock hr hn hstarts).fromSpot hbefore) fun {r r'} => ?_
      obtain ⟨settings, body⟩ := r
      obtain ⟨settings', body'⟩ := r'
      refine .pure fun ⟨_, hsettings, hbody⟩ => ?_
      obtain rfl : settings = settings' := hsettings
      constructor
      exact hbody
  · obtain ⟨rfl, rfl⟩ := hstarts
    exact (taskStatement hr hn).loosen
  · obtain ⟨rfl, rfl⟩ := hstarts
    exact (workerStatement hr hn).loosen
  · exact (matchStatement hr hn hstarts).fromSpot hbefore
  · exact .andThen (.advance hstarts) <| .bind (block hr (by omega)) <|
      .pure fun h => .unsafeBlockStmt h.2
  · exact (contractStatement hr hn hstarts).fromSpot hbefore
  · exact .andThen (.advance hstarts) <| .bind (hr.declaration (by omega)) <|
      .pure fun h => .comptimeStmt h.2
  · exact .bind (exprRule hr hn) <| .andThen .eatOptional <| .pure fun h => .expressionStmt h.2

theorem statementRule : Tandem H g .within n (statementRule rules) (statementRule rules')
    (fun _ => .any) (fun _ => n - 1) := by
  refine .startPos fun _ _ _ _ => .get fun s s' hconcurrent =>
    .peekTwo fun kind t t' u u' hkind ht hu => ?_
  rw [← hconcurrent, statementNode_congr ht hu]
  obtain ⟨hsound, hstarts⟩ := statementNode_starts s.concurrent t u
  rw [hkind] at hstarts
  exact .bind (.inNode (statementOf hr hn hstarts) hsound) <| .spanFrom fun _ _ =>
    .pure fun h => .stmt h.2

end

end LimitSyntax.Grammar.Tandem
