import LimitSyntax.Proofs.ContextRestored
import LimitSyntax.Proofs.SparingTypes

/-!
# No bound is met: expressions and statements

The rules for expressions and statements call other rules and repeat their loops only behind a
token. What is applied to an expression, and every operator, is a token.
-/

namespace LimitSyntax.Grammar

open Ast

/-! ## What the end does not start -/

theorem ne_eof_of_op {α : Type} {op? : Token.Kind → Option α} {kind : Token.Kind} {op : α}
    (hnone : op? .eof = none) (h : op? kind = some op) : kind ≠ .eof := by
  rintro rfl
  rw [hnone] at h
  cases h

theorem statementNode_eof {first : Token} (h : first.kind = .eof) (concurrent : Bool)
    (second : Token) : statementNode concurrent first second = .expressionStatement := by
  rw [statementNode, h]

namespace Sparing

section
variable {κ : Token.Kind → Prop} {n : Nat}

theorem exprFrom (kind : ExprKind) (start line : Nat) :
    Sparing (Before κ) n (exprFrom kind start line) fun _ => false :=
  .look (.spanFrom _) fun _ => .pure

/-- An expression that is a node of its own. -/
theorem exprNode {c : ExprKind → Bool} {p : Parse ExprKind} (node : Tree.Kind) (start line : Nat)
    (h : Sparing (Before κ) n p c) : Sparing (Before κ) n
      (do Grammar.exprFrom (← Grammar.inNode node p) start line) fun _ => false :=
  .bind (.inNode node h) fun kind => .exprFrom kind start line

/-- A token whose value is known. -/
theorem word {α : Type} {a : α} :
    Sparing (Before κ) n (do let _ ← Grammar.advance; return a) fun _ => false :=
  .bind .advanceIfAny fun _ => .pure

end

section
variable {rules : Rules} {n N : Nat} (hr : rules.Sparing N)
include hr

/-! ## Primary expressions -/

theorem argument (hn : n < N) : Sparing Anywhere n (argument rules) fun _ => false :=
  .look (.checkAt 0 _) fun _ => .look (.checkAt 1 _) fun _ => .ite
    (fun _ => .bind .advanceIfAny fun _ => .bind .advanceIfAny fun _ =>
      .bind (hr.call .expression) fun _ => .pure)
    fun _ => .bind (hr.call .expression) fun _ => .pure

theorem callArguments (hn : n ≤ N) : Sparing NotAtEnd n (callArguments rules) fun _ => true :=
  .inNode _ (.past .advance fun _ _ _ => .look (.checkAt 0 _) fun _ =>
    .branch (c := fun _ => false) .pure (.commaSeparated hr (.argument hr (by omega))) fun _ =>
      .bind (.consume ..) fun _ => .pure)

theorem arguments (hn : n ≤ N) : Sparing NotAtEnd n (arguments rules) fun _ => true :=
  .inNode _ (.past .advance fun _ _ _ => .look (.checkAt 0 _) fun _ =>
    .branch (c := fun _ => false) .pure (.commaSeparated hr (hr.call .expression)) fun _ =>
      .bind (.consume ..) fun _ => .pure)

theorem interpolatedString (hn : n ≤ N) :
    Sparing Anywhere n (interpolatedString rules) fun _ => false := by
  refine .bind (.loop hr (fun parts => ?_) _) fun parts =>
    .check (.bind .advanceIfAny fun _ => .given .pure) (.given .pure)
  exact .check (.past .advance fun _ _ _ => .bind (hr.call .expression) fun _ =>
    .bind (.consumeClose ..) fun _ => .pure) .pure

theorem objectField (hn : n ≤ N) : Sparing Anywhere n (objectField rules) fun _ => true :=
  .past (.consumeName _) fun _ _ _ => .bind (.consume ..) fun _ =>
    .bind (hr.call .expression) fun _ => .pure

theorem objectLiteral (hn : n ≤ N) : Sparing NotAtEnd n (objectLiteral rules) fun _ => true :=
  .past .advance fun _ _ _ => .bind .advanceIfAny fun _ =>
    .bind (.commaList hr (.objectField hr (by omega))) fun ⟨_, _⟩ =>
      .bind (.consumeClose ..) fun _ => .pure

theorem errorValue (hn : n ≤ N) : Sparing NotAtEnd n (errorValue rules) fun _ => true :=
  .past .advance fun _ _ _ => .bind (.consume ..) fun _ => .bind (.consumeName _) fun _ =>
    .check (.bind (.arguments hr (by omega)) fun _ => .bind (.consume ..) fun _ => .pure)
      (.given (.bind (.consume ..) fun _ => .pure))

theorem okValue (hn : n ≤ N) : Sparing NotAtEnd n (okValue rules) fun _ => true :=
  .past .advance fun _ _ _ => .bind (.consume ..) fun _ => .bind (hr.call .expression) fun _ =>
    .bind (.consume ..) fun _ => .pure

theorem lambda (hn : n ≤ N) : Sparing NotAtEnd n (lambda rules) fun _ => true := by
  refine .past .advance fun k hk _ => .look (.checkAt 0 _) fun _ => .guarded (.fail _) ?_
  exact .bind (.parameters hr (by omega)) fun ⟨_, _⟩ =>
    .bind (.after fun _ _ => hr.call .type) fun _ => .bind (.block hr (by omega) ..) fun _ => .pure

theorem parenthesized (hn : n ≤ N) : Sparing NotAtEnd n (parenthesized rules) fun _ => true := by
  refine .look .checkpoint fun c => .look .startPos fun ⟨start, line⟩ => .past .advance fun k hk _ =>
    .eat (fun _ _ => ?_) (.bind (hr.call .expression) fun first => .check ?_ ?_)
  · exact .bind (.inNodeAt c _ (.pure (c := fun _ => false))) fun _ => .exprFrom ..
  · refine .here (.bind (.inNodeAt c _ (.bind (.loop hr (fun elements => ?_) _) fun _ =>
      .bind (.consume ..) fun _ => .pure (c := fun _ => false))) fun _ => .exprFrom ..)
    exact .eat (fun _ _ => .check .pure (.bind (hr.call .expression) fun _ => .pure)) .pure
  · exact .bind (.inNodeAt c _ (.past (e := fun _ => false) (.consume ..) fun _ _ _ =>
      .pure)) fun _ => .exprFrom ..

theorem listLiteral (hn : n ≤ N) : Sparing NotAtEnd n (listLiteral rules) fun _ => true :=
  .past .advance fun _ _ _ => .bind (.commaList hr (hr.call .expression)) fun ⟨_, _⟩ =>
    .bind (.consume ..) fun _ => .pure

theorem dictEntry (hn : n < N) : Sparing Anywhere n (dictEntry rules) fun _ => false :=
  .bind (hr.call .expression) fun _ => .bind (.consume ..) fun _ =>
    .bind (hr.call .expression) fun _ => .pure

theorem dictLiteral (hn : n ≤ N) : Sparing NotAtEnd n (dictLiteral rules) fun _ => true :=
  .past .advance fun _ _ _ => .bind (.commaList hr (.dictEntry hr (by omega))) fun ⟨_, _⟩ =>
    .bind (.consumeClose ..) fun _ => .pure

omit hr in
theorem missingExpr {κ : Token.Kind → Prop} (start line : Nat) :
    Sparing (Before κ) n (missingExpr start line) fun _ => false :=
  .bind (.reportHere _) fun _ => .bind (.inNode _ (.pure (c := fun _ => false))) fun _ => .pure

theorem primary (hn : n ≤ N) : Sparing Anywhere n (primary rules) fun _ => false := by
  refine .look .startPos fun ⟨start, line⟩ => .peek fun t _ => ?_
  have hsure : ∀ {node : Tree.Kind} {p : Parse ExprKind}, t.kind ≠ .eof →
      Sparing NotAtEnd n p (fun _ => true) → Sparing (Before (· = t.kind)) n
        (do Grammar.exprFrom (← Grammar.inNode node p) start line) fun _ => false :=
    fun ht h => .sure (.exprNode _ start line h) ht
  dsimp only
  split
  · exact .exprNode _ start line .word
  split
  next => exact .exprNode _ start line (.here (.interpolatedString hr hn))
  next => exact .exprNode _ start line .word
  next => exact .exprNode _ start line .word
  next => exact .exprNode _ start line .word
  next h =>
    exact .look (.checkAt 1 _) fun _ => .ite
      (fun _ => hsure (by rw [h]; decide) (.objectLiteral hr hn)) fun _ =>
      .exprNode _ start line .word
  next h => exact hsure (by rw [h]; decide) (.errorValue hr hn)
  next h => exact hsure (by rw [h]; decide) (.okValue hr hn)
  next h => exact hsure (by rw [h]; decide) (.lambda hr hn)
  next h => exact .sure (.any (.parenthesized hr hn)) (by rw [h]; decide)
  next h => exact hsure (by rw [h]; decide) (.listLiteral hr hn)
  next h => exact hsure (by rw [h]; decide) (.dictLiteral hr hn)
  next => exact .bind (.change fun _ _ => .single (.context ..)) fun _ => .giveUp
  iterate 5 · exact .missingExpr start line
  next => exact .fail _

/-! ## Operators -/

omit hr in
theorem tupleIndex : Sparing Anywhere n tupleIndex fun _ => false :=
  .glancing fun t => .guarded (.reportAt t _) .pure

theorem failureHandler (hn : n ≤ N) : Sparing Anywhere n (failureHandler rules) fun _ => false := by
  have handler : ∀ {k} (name : Option String), k < N → Sparing Anywhere k
      (do return (name, some (← rules.call .statement))) fun _ => false :=
    fun _ _ => .bind (hr.call .statement) fun _ => .pure
  exact .eat (fun _ _ => .look (.checkAt 0 _) fun _ => .look (.checkAt 1 _) fun _ => .ite
    (fun _ => .bind .advanceIfAny fun _ => .given (handler _ (by omega)))
    fun _ => .given (handler _ (by omega))) .pure

/-- Whatever is applied to an expression starts with a token. -/
theorem applied? (hn : n ≤ N) (mark : Option Tree.Checkpoint) (e : Expr) :
    Sparing Anywhere n (applied? rules mark e) Option.isSome := by
  have hnode : ∀ {kind : Token.Kind} {node : Tree.Kind} {p : Parse ExprKind}, kind ≠ .eof →
      Sparing NotAtEnd n p (fun _ => true) → Sparing (Before (· = kind)) n
        (some <$> Grammar.inNodeAt mark node p) Option.isSome :=
    fun hkind hp => .sure (.mapPast (.inNodeAt mark _ hp)) hkind
  refine .peek fun t _ => ?_
  split
  next h =>
    exact hnode (by rw [h]; decide) (.past (.callArguments hr hn) fun _ _ ⟨_, _⟩ => .pure)
  next h =>
    exact .look (.peekAt 1) fun _ => .ite
      (fun _ => hnode (by rw [h]; decide) (.past .advance fun _ _ _ => .bind .tupleIndex fun _ =>
        .pure))
      fun _ => hnode (by rw [h]; decide) (.past .advance fun _ _ _ => .bind (.consumeName _) fun _ =>
        .pure)
  next h =>
    exact hnode (by rw [h]; decide) (.past .advance fun _ _ _ => .bind (hr.call .expression) fun _ =>
      .bind (.consume ..) fun _ => .pure)
  next h =>
    exact hnode (by rw [h]; decide) (.past .advance fun _ _ _ =>
      .bind (.failureHandler hr (by omega)) fun ⟨_, _⟩ => .pure)
  next => exact .pure

theorem callRule (hn : n ≤ N) : Sparing Anywhere n (callRule rules) fun _ => false := by
  refine .look .checkpoint fun mark => .look .startPos fun ⟨start, line⟩ =>
    .bind (.primary hr hn) fun _ => .loop hr (fun e => .whetherSome (.applied? hr hn mark e) ?_ .pure) _
  exact fun _ _ kind => .bind (.exprFrom kind start line) fun _ => .pure

theorem unaryRule (hn : n ≤ N) : Sparing Anywhere n (unaryRule rules) fun _ => false := by
  refine .peek fun t _ => ?_
  split
  next => exact .here (.callRule hr hn)
  next op hop =>
    refine .sure (.look .startPos fun ⟨start, line⟩ => .bind (c := fun _ => true)
      (.inNode _ (.past .advance fun _ _ _ => hr.call .unary)) fun _ => .exprFrom _ start line) ?_
    exact ne_eof_of_op rfl hop

theorem powerRule (hn : n ≤ N) : Sparing Anywhere n (powerRule rules) fun _ => false :=
  .look .checkpoint fun mark => .bind (.unaryRule hr hn) fun _ => .check
    (.bind (c := fun _ => true) (.inNodeAt mark _ (.past .advance fun _ _ _ => hr.call .power))
      fun _ => .pure)
    .pure

/-- Every operator is a token. -/
theorem operators (hn : n ≤ N) {op? : Token.Kind → Option BinaryOp} (hop : op? .eof = none)
    {operand : Parse Expr} (h : Sparing Anywhere n operand fun _ => false)
    (mark : Option Tree.Checkpoint) (left : Expr) :
    Sparing Anywhere n (operators rules op? operand mark left) fun _ => false := by
  refine .loop hr (fun left => .peek fun t _ => ?_) _
  split
  next op hsome =>
    have hright : Sparing NotAtEnd n (do let _ ← Grammar.advance; operand) fun _ => true :=
      .past .advance fun _ hk _ => h.mono (Nat.le_of_lt hk)
    exact .sure (.past (.inNodeAt mark _ hright) fun _ _ _ => .pure) (ne_eof_of_op hop hsome)
  next => exact .pure

theorem leftAssociative (hn : n ≤ N) {op? : Token.Kind → Option BinaryOp} (hop : op? .eof = none)
    {operand : Parse Expr} (h : Sparing Anywhere n operand fun _ => false) :
    Sparing Anywhere n (leftAssociative rules op? operand) fun _ => false :=
  .look .checkpoint fun mark => .bind h fun left => .operators hr hn hop h mark left

theorem sum (hn : n ≤ N) : Sparing Anywhere n (sum rules) fun _ => false :=
  .leftAssociative hr hn rfl (.leftAssociative hr hn rfl (.powerRule hr hn))

theorem comparison (hn : n ≤ N) : Sparing Anywhere n (comparison rules) fun _ => false :=
  .look .checkpoint fun mark => .look .startPos fun ⟨start, line⟩ => .bind (.sum hr hn) fun left =>
    .check
      (.bind (c := fun _ => true)
        (.inNodeAt mark _ (.past .advance fun _ _ _ => .sum hr (by omega))) fun last =>
          .exprFrom (.range left last) start line)
      (.operators hr hn rfl (.sum hr hn) mark left)

theorem disjunction (hn : n ≤ N) : Sparing Anywhere n (disjunction rules) fun _ => false :=
  .leftAssociative hr hn rfl <| .leftAssociative hr hn rfl <| .leftAssociative hr hn rfl <|
    .comparison hr hn

/-- The operator of an assignment was read, whatever its value is. -/
theorem taken_of_assignExpr (hn : n ≤ N) {mark : Option Tree.Checkpoint} {i : Input} {s t : State}
    {a : Token × Expr} (heof : i.eof.kind = .eof) (hnext : NotAtEnd i s) (hlen : s.rest.length ≤ n)
    (hexec : exec (Grammar.inNodeAt mark .assignExpr do
      let opToken ← Grammar.advance
      return (opToken, ← rules.call .expression)) i s = (.ok a, t)) : Taken a.1 i t := by
  have hinside : ∃ f u, exec (do
      let opToken ← Grammar.advance
      return (opToken, ← rules.call .expression)) i (s.mapTree f) = (.ok a, u) ∧
        u.mapTree (·.finish) = t := by
    cases mark with
    | none => exact ⟨_, exec_node_eq_ok hexec⟩
    | some mark => exact ⟨_, exec_node_eq_ok hexec⟩
  obtain ⟨f, u, hrun, rfl⟩ := hinside
  obtain ⟨opToken, v, hadvance, hvalue⟩ := exec_bind_eq_ok hrun
  obtain ⟨value, w, hcall, hpair⟩ := exec_bind_eq_ok hvalue
  cases hpair
  have hless : v.rest.length + 1 ≤ s.rest.length :=
    (advance.run i (s.mapTree f) heof hnext hlen).2 opToken v hadvance
  obtain ⟨hmoves, -⟩ := (hr.call .expression).run i v heof trivial (Nat.le_refl _)
  rw [hcall] at hmoves
  exact hmoves.read_subset (taken_of_advance (s := s.mapTree f) heof hnext hadvance)

theorem exprRule (hn : n ≤ N) : Sparing Anywhere n (exprRule rules) fun _ => false := by
  refine .look .checkpoint fun mark => .bind (.disjunction hr hn) fun left => .peek fun t _ => ?_
  split
  next => exact .pure
  next op hop =>
    have hnode : Sparing NotAtEnd n (Grammar.inNodeAt mark .assignExpr do
        let opToken ← Grammar.advance
        return (opToken, ← rules.call .expression)) fun _ => true :=
      .inNodeAt _ _ (.past .advance fun _ _ _ => .bind (hr.call .expression) fun _ => .pure)
    refine .sure (hnode.bindTo (fun a => Taken a.1)
      (fun heof hnext hlen => taken_of_assignExpr hr hn heof hnext hlen) fun ⟨opToken, value⟩ => ?_)
      (ne_eof_of_op rfl hop)
    dsimp only
    split
    · exact .given .pure
    · exact .bind (.reportTaken opToken _) fun _ => .given .pure

/-! ## Statements -/

theorem bodyStatement (hn : n < N) (kind : String) :
    Sparing Anywhere n (bodyStatement rules kind) fun _ => false :=
  .check
    (.look .startPos fun ⟨_, _⟩ => .bind (c := fun _ => false)
      (.inNode _ (.bind .advance fun brace => .blockBody hr hn brace kind)) fun _ =>
        .look (.spanFrom _) fun _ => .pure)
    (hr.call .statement)

theorem printStatement (hn : n ≤ N) :
    Sparing NotAtEnd n (printStatement rules) fun _ => true := by
  have hrest : ∀ {k} (args : List Expr), Sparing Anywhere k
      (do let _ ← Grammar.eat .semicolon; return StmtKind.print args) fun _ => false :=
    fun _ => .bind (.eatIfAny _) fun _ => .pure
  refine .past .advance fun _ _ _ => .eat (fun _ _ => .check ?_ ?_) ?_
  · exact .given (.bind (.consume ..) fun _ => .given (hrest _))
  · exact .bind (.commaSeparated hr (hr.call .expression)) fun _ => .bind (.consume ..) fun _ =>
      .given (hrest _)
  · exact .bind (.commaSeparated hr (hr.call .expression)) hrest

theorem elseBranch (hn : n < N) : Sparing Anywhere n (elseBranch rules) fun _ => false :=
  .check
    (.look .startPos fun ⟨_, _⟩ => .bind (.inNode _ (.here (hr.call .ifStatement))) fun _ =>
      .look (.spanFrom _) fun _ => .pure)
    (.after fun _ _ => .bodyStatement hr (by omega) _)

theorem ifRule (hn : n ≤ N) : Sparing Anywhere n (ifRule rules) fun _ => true :=
  .bind .advanceIfAny fun _ => .past (.consume ..) fun _ _ _ => .bind (hr.call .expression) fun _ =>
    .bind (.consume ..) fun _ => .bind (.bodyStatement hr (by omega) _) fun _ =>
      .bind (.elseBranch hr (by omega)) fun _ => .pure

theorem loopHeader (hn : n ≤ N) : Sparing Anywhere n (loopHeader rules) fun _ => true :=
  .bind (.eatIfAny _) fun _ => .bind (.commaSeparated hr (.consumeName _)) fun _ =>
    .past (.consume ..) fun _ _ _ => .bind (hr.call .expression) fun _ => .pure

omit hr in
theorem Looks.startsLoopHeader : Looks startsLoopHeader := by
  have listed : ∀ k : Nat,
      Looks (do return (← Grammar.checkAt k .kwIn) || (← Grammar.checkAt k .comma)) := fun k =>
    .bind (.checkAt k _) fun _ => .bind (.checkAt k _) fun _ => .pure _
  exact .bind (.checkAt 0 _) fun _ => .bind (listed 2) fun _ => .bind (.checkAt 0 _) fun _ =>
    .bind (listed 1) fun _ => .pure _

theorem loopInitializer (hn : n < N) :
    Sparing Anywhere n (loopInitializer rules) fun _ => false := by
  refine .eat (fun _ _ => .pure) (.look .startPos fun ⟨start, line⟩ => .look (.checkAt 0 _) fun _ =>
    .branch (.inNode _ (.map (.varDeclaration hr (by omega) {}))) (.inNode _ (.map (hr.call .expression)))
      fun _ => ?_)
  exact .look (.spanFrom _) fun _ => .look .previous fun _ => .guarded (.any (.consume ..)) .pure

theorem exprUnless (hn : n < N) (close : Token.Kind)
    (hclose : autoParam (close ≠ .eof) Rat.reduced._autoParam) :
    Sparing Anywhere n (exprUnless rules close) fun _ => false :=
  .check .pure (.bind (hr.call .expression) fun _ => .pure) hclose

theorem forStatement (hn : n ≤ N) : Sparing NotAtEnd n (forStatement rules) fun _ => true := by
  refine .past .advance fun k hk _ => .bind (.consume ..) fun _ => .look .startsLoopHeader fun _ =>
    .ite (fun _ => ?_) fun _ => ?_
  · exact .bind (.loopHeader hr (by omega)) fun ⟨_, _⟩ => .bind (.consume ..) fun _ =>
      .bind (.bodyStatement hr (by omega) _) fun _ => .pure
  · exact .bind (.loopInitializer hr (by omega)) fun _ =>
      .bind (.exprUnless hr (by omega) _) fun _ => .bind (.consume ..) fun _ =>
        .bind (.exprUnless hr (by omega) _) fun _ => .bind (.consume ..) fun _ =>
          .bind (.bodyStatement hr (by omega) _) fun _ => .pure

theorem whileStatement (hn : n ≤ N) : Sparing NotAtEnd n (whileStatement rules) fun _ => true :=
  .past .advance fun _ _ _ => .bind (.consume ..) fun _ => .bind (hr.call .expression) fun _ =>
    .bind (.consume ..) fun _ => .bind (.bodyStatement hr (by omega) _) fun _ => .pure

theorem iterStatement (hn : n ≤ N) : Sparing NotAtEnd n (iterStatement rules) fun _ => true :=
  .past .advance fun _ _ _ => .bind (.consume ..) fun _ =>
    .bind (.loopHeader hr (by omega)) fun ⟨_, _⟩ => .bind (.consume ..) fun _ =>
      .bind (.bodyStatement hr (by omega) _) fun _ => .pure

theorem returnStatement (hn : n ≤ N) :
    Sparing NotAtEnd n (returnStatement rules) fun _ => true := by
  have hrest : ∀ {κ k} (value : Option Expr), Sparing (Before κ) k
      (do let _ ← Grammar.eat .semicolon; return StmtKind.returns value) fun _ => false :=
    fun _ => .bind (.eatIfAny _) fun _ => .pure
  refine .past .advance fun k hk _ => .peek fun t _ => ?_
  dsimp only
  split
  iterate 3 · exact .given (hrest _)
  · exact .bind (.here (.map (hr.call .expression))) hrest

omit hr in
theorem settingValue : Sparing Anywhere n settingValue fun _ => false := by
  refine .peek fun t _ => ?_
  split
  iterate 5 · exact .bind .advanceIfAny fun _ => .pure
  · exact .fail _

theorem concurrencySetting (hn : n ≤ N) (settings : ConcurrencySettings) :
    Sparing Anywhere n (concurrencySetting rules settings) fun _ => true := by
  have hrest : ∀ {k} (settings : ConcurrencySettings), Sparing Anywhere k (do
      if !(← Grammar.eat .comma) && !(← Grammar.check .rightParen) then
        Grammar.fail "Expected ',' or ')' after parameter"
      return settings) fun _ => false := fun _ =>
    .bind (.eatIfAny _) fun _ => .look (.checkAt 0 _) fun _ => .guarded (.fail _) .pure
  refine .consuming fun k hk key => .holding (.eatIfAny _) fun colon => .ite (fun _ => ?_) fun _ => ?_
  · exact .bind (.here (hr.call .type)) fun _ => .given (hrest _)
  · refine .holding (.consume ..) fun _ => .holding .settingValue fun value => ?_
    dsimp only
    split
    · exact .here (.given (hrest _))
    · exact .bind (.reportTaken key _) fun _ => .given (hrest _)

theorem concurrencySettings (hn : n ≤ N) (defaults : ConcurrencySettings) :
    Sparing Anywhere n (concurrencySettings rules defaults) fun _ => false := by
  refine .eat (fun k hk => .bind (.loop hr (fun settings => ?_) _) fun _ =>
    .bind (.consume ..) fun _ => .pure) .pure
  exact .listEnds (.past (.here (.concurrencySetting hr (by omega) settings)) fun _ _ _ => .pure)

theorem concurrencyBlock (hn : n ≤ N) (keyword : String) (defaults : ConcurrencySettings) :
    Sparing NotAtEnd n (concurrencyBlock rules keyword defaults) fun _ => true :=
  .past .advance fun _ _ _ => .bind (.concurrencySettings hr (by omega) defaults) fun _ =>
    .bind (.concurrently (.block hr (by omega) ..)) fun _ => .pure

theorem taskStatement (hn : n ≤ N) : Sparing NotAtEnd n (taskStatement rules) fun _ => true := by
  have hrest : ∀ {k} (var : Option String), k < N → Sparing Anywhere k (do
      let iterable ← rules.call .expression
      let _ ← Grammar.consume .rightParen "Expected ')' after task header."
      return StmtKind.task var iterable
        (← Grammar.block rules "task" "Expected '\x7b' after task header.")) fun _ => false :=
    fun _ _ => .bind (hr.call .expression) fun _ => .bind (.consume ..) fun _ =>
      .bind (.block hr (by omega) ..) fun _ => .pure
  exact .past .advance fun _ _ _ => .bind .advanceIfAny fun _ => .look (.checkAt 0 _) fun _ =>
    .look (.checkAt 1 _) fun _ => .ite
      (fun _ => .bind .advanceIfAny fun _ => .bind .advanceIfAny fun _ =>
        .given (hrest _ (by omega)))
      fun _ => .given (hrest _ (by omega))

theorem workerStatement (hn : n ≤ N) :
    Sparing NotAtEnd n (workerStatement rules) fun _ => true := by
  have hrest : ∀ {κ k} (param : Option String), k < N → Sparing (Before κ) k (do
      let _ ← Grammar.consume .rightParen "Expected ')' after worker parameter."
      return StmtKind.worker param
        (← Grammar.block rules "worker" "Expected '\x7b' after worker header.")) fun _ => false :=
    fun _ _ => .bind (.consume ..) fun _ => .bind (.block hr (by omega) ..) fun _ => .pure
  exact .past .advance fun _ _ _ => .bind .advanceIfAny fun _ =>
    .check (.bind .advanceIfAny fun _ => .given (hrest _ (by omega))) (.given (hrest _ (by omega)))

theorem matchCase (hn : n < N) : Sparing Anywhere n (matchCase rules) fun _ => true :=
  .inNode _ (.bind (hr.call .pattern) fun _ => .bind (.after fun _ _ => hr.call .expression) fun _ =>
    .past (.consume ..) fun _ _ _ => .bind (hr.call .statement) fun _ => .bind (.eatIfAny _) fun _ =>
      .pure)

theorem matchStatement (hn : n ≤ N) : Sparing NotAtEnd n (matchStatement rules) fun _ => true := by
  refine .past .advance fun k hk _ => .bind (.consume ..) fun _ => .bind (hr.call .expression)
    fun _ => .bind (.consume ..) fun _ => .bind (.consume ..) fun brace =>
      .bind (c := fun _ => false) (.inBody _ brace (.bind (.loop hr (fun cases => ?_) _) fun _ =>
        .bind (.closeBlock _) fun _ => .pure)) fun _ => .pure
  exact .bodyEnds (.past (.here (.matchCase hr (by omega))) fun _ _ _ => .pure)

theorem contractStatement (hn : n ≤ N) :
    Sparing NotAtEnd n (contractStatement rules) fun _ => true :=
  .past .advance fun _ _ _ => .bind (.consume ..) fun _ => .bind (hr.call .expression) fun _ =>
    .bind (.after fun _ _ => hr.call .expression) fun _ => .bind (.consume ..) fun _ =>
      .bind (.consume ..) fun _ => .pure

/-- Every statement but an expression starts with a token. -/
theorem statementOf (hn : n ≤ N) (node : Tree.Kind) :
    Sparing (Before fun k => node ≠ .expressionStatement → k ≠ .eof) n (statementOf rules node)
      fun _ => false := by
  have hsure : ∀ {p : Parse StmtKind} {node : Tree.Kind}, node ≠ .expressionStatement →
      Sparing NotAtEnd n p (fun _ => true) →
        Sparing (Before fun k => node ≠ .expressionStatement → k ≠ .eof) n p fun _ => false :=
    fun hnode h => .at' h.any fun hK => hK hnode
  unfold Grammar.statementOf
  split
  · exact hsure (by decide) (.printStatement hr hn)
  · exact .here (.any (.ifRule hr hn))
  · exact hsure (by decide) (.forStatement hr hn)
  · exact hsure (by decide) (.whileStatement hr hn)
  · exact hsure (by decide) (.iterStatement hr hn)
  · exact hsure (by decide) (.past .advance fun _ _ brace =>
      .bind (.blockBody hr (by omega) brace _) fun _ => .pure)
  · exact hsure (by decide) (.returnStatement hr hn)
  · exact hsure (by decide) (.past .advance fun _ _ _ => .bind (.consume ..) fun _ => .pure)
  · exact hsure (by decide) (.past .advance fun _ _ _ => .bind (.consume ..) fun _ => .pure)
  · exact hsure (by decide) (.past (.concurrencyBlock hr hn ..) fun _ _ ⟨_, _⟩ => .pure)
  · exact hsure (by decide) (.past (.concurrencyBlock hr hn ..) fun _ _ ⟨_, _⟩ => .pure)
  · exact hsure (by decide) (.taskStatement hr hn)
  · exact hsure (by decide) (.workerStatement hr hn)
  · exact hsure (by decide) (.matchStatement hr hn)
  · exact hsure (by decide) (.past .advance fun _ _ _ => .bind (.block hr (by omega) ..) fun _ =>
      .pure)
  · exact hsure (by decide) (.contractStatement hr hn)
  · exact hsure (by decide) (.past .advance fun _ _ _ => .bind (hr.call .declaration) fun _ => .pure)
  · exact .bind (.here (.exprRule hr hn)) fun _ => .bind (.eatIfAny _) fun _ => .pure

theorem statementRule (hn : n ≤ N) : Sparing Anywhere n (statementRule rules) fun _ => false := by
  refine .look .startPos fun ⟨_, _⟩ => .look .get fun s => .peek fun first _ =>
    .look (.peekAt 1) fun second => .at' (.bind (.inNode _ (.statementOf hr hn
      (statementNode s.concurrent first second))) fun _ => .look (.spanFrom _) fun _ => .pure)
        fun {i s} hfirst hnode hend => ?_
  have hnext : (s.rest[0]?.getD i.eof).kind = first.kind := hfirst
  exact hnode (statementNode_eof (hnext.symm.trans hend) _ _)

end

end Sparing

end LimitSyntax.Grammar
