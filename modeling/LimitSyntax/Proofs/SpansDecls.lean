import LimitSyntax.Proofs.SpansExprs
import LimitSyntax.Proofs.SparingDecls

/-!
# Where syntax stands: statements, declarations and programs

Statements and declarations start with the first token read for them, modifiers included, and end
where the last token read does; so do all parts of the constructor that the header of a class makes
(`Grammar.StandsClass.headerConstructor`). By induction on how deep rules call each other, the
statements of a program stand in the source (`Grammar.Spans.topDeclarations`).
-/

namespace LimitSyntax.Grammar

open Ast

instance : HasPieces ModuleParts :=
  ⟨fun parts => pieces (parts.forEveryone, parts.forHeirs, parts.forOwner)⟩

/-- The pieces of a module to which a member is added are those of the member and its own. -/
theorem ModuleParts.pieces_add (parts : ModuleParts) (kind : Token.Kind) (member : Option Stmt) :
    pieces (parts.add kind member) ⊆ pieces (member, parts) := by
  intro p hp
  have hparts (parts : ModuleParts) : p ∈ pieces parts ↔ p ∈ pieces parts.forEveryone ∨
      p ∈ pieces parts.forHeirs ∨ p ∈ pieces parts.forOwner := by
    rw [← List.mem_append, ← List.mem_append]
    rfl
  have happend (stmts : List Stmt) :
      p ∈ pieces (member.toList ++ stmts) ↔ p ∈ pieces member ∨ p ∈ pieces stmts := by
    rw [← List.mem_append]
    exact iff_of_eq (congrArg (p ∈ ·) List.flatMap_append)
  refine List.mem_append.2 ((or_congr_right (hparts parts)).2 ?_)
  rw [hparts] at hp
  unfold ModuleParts.add at hp
  split at hp
  all_goals
    rw [happend] at hp
    tauto

theorem declarationNode?_eof (mods : Modifiers) {first : Token} (h : first.kind = .eof)
    (second : Token) : declarationNode? mods first second = none := by
  rw [declarationNode?, h]

/-! ## Classes -/

namespace StandsClass

variable {text : String} {row : List Token} {lo hi : Nat} {c : ClassDecl}
  (h : StandsClass text row lo hi c)
include h

theorem parts : Stands text row lo hi (c.superArgs, c.ctorParams, c.fields, c.methods) :=
  h.stands.of rfl

theorem addField {f : VarDecl} (hf : Stands text row lo hi f) :
    StandsClass text row lo hi (c.addField f) :=
  .of (.pair h.parts.fst (.pair h.parts.snd.fst (.pair
    (.append h.parts.snd.snd.fst (.cons hf (.nil hf.le))) h.parts.snd.snd.snd))) rfl h.sorted

theorem addMethod {m : FunctionDecl} (hm : Stands text row lo hi m) :
    StandsClass text row lo hi (c.addMethod m) :=
  .of (.pair h.parts.fst (.pair h.parts.snd.fst (.pair h.parts.snd.snd.fst
    (.append h.parts.snd.snd.snd (.cons hm (.nil hm.le)))))) rfl h.sorted

end StandsClass

/-- The constructor that the header of a class makes takes the span of the class, in which the
parameters and the arguments for the superclass stand, and so do all of its parts. -/
theorem StandsClass.headerConstructor {text : String} {row : List Token} {lo hi line : Nat}
    {c : ClassDecl} {span : Span} (hlies : span.Lies text lo hi)
    (hstart : StartsAt row span.start line)
    (h : StandsClass text row span.start span.stop c) :
    Stands text row lo hi (c.headerConstructor span line) := by
  have hparams := h.parts.snd.fst
  have hexpr : ∀ {kind : ExprKind}, StandsExpr text row span.start span.stop kind →
      Stands text row span.start span.stop (Expr.mk kind span line) := .expr hlies.self hstart
  have hleaf : ∀ kind : ExprKind, pieces kind = [] → kind.Sorted →
      Stands text row span.start span.stop (Expr.mk kind span line) :=
    fun _ hpieces hsorted => hexpr (.bare h.le hpieces hsorted)
  have hstmt : ∀ {kind : ExprKind}, StandsExpr text row span.start span.stop kind →
      Stands text row span.start span.stop (Stmt.mk (.expression ⟨kind, span, line⟩) span line) :=
    fun hkind => .stmt hlies.self hstart (.of (hexpr hkind) rfl trivial)
  refine Stands.function hlies hstart (.pair (hparams.filter _) (.pair (hparams.filter _)
    (.pair (.none h.le) (.some (Stands.block hlies.self hstart (.append ?_ ?_))))))
  · split
    · have hinit : Stands text row span.start span.stop
          (Expr.mk (.member ⟨.super, span, line⟩ "init") span line) :=
        hexpr (.of (hleaf .super rfl trivial) rfl trivial)
      exact .cons (hstmt (.of (.pair hinit (.pair h.parts.fst (.nil h.le))) rfl trivial))
        (.nil h.le)
    · exact .nil h.le
  · refine .of_list h.le fun stmt hmem => ?_
    obtain ⟨p, -, rfl⟩ := List.mem_map.1 hmem
    have htarget : Stands text row span.start span.stop
        (AssignTarget.member ⟨.self, span, line⟩ p.name) := (hleaf .self rfl trivial).of rfl
    exact hstmt (.of (.pair htarget (hleaf (.variable p.name) rfl trivial)) rfl trivial)

namespace Spans

variable {rules : Rules} {text : String} {row : List Token} {κ : Token → Prop} {lo : Nat}
  {H : State → Prop}

theorem stmtFrom {κ' : Token → Prop} {lo' line : Nat} {kind : StmtKind}
    (hstart : ∀ u, H u → Start text row κ' lo' lo line)
    (h : ∀ u, H u → StandsStmt text row lo u.edge kind) :
    Spans text row κ lo H (do return Stmt.mk kind (← Grammar.spanFrom lo) line)
      (Stands text row lo') :=
  .piece hstart (fun u hu => (h u hu).le) fun u hu hlies => .stmt hlies (hstart u hu).at (h u hu)

variable (hr : rules.Spans text row)
include hr

/-! ## Statements -/

theorem bodyStatement (kind : String) :
    Spans text row κ lo H (bodyStatement rules kind) (Stands text row lo) :=
  .check
    (.startPos fun _ _ => .bind (.inNode (.advance (.of_kind (by decide)) fun _ =>
      .blockBody hr (fun _ h => h.2) kind)) fun _ =>
        .stmtFrom (fun _ h => h.1.2) fun _ h => .of h.2 rfl trivial)
    hr.statement.here

theorem printStatement (hκ : Inland κ) :
    Spans text row κ lo H (printStatement rules) (StandsStmt text row lo) := by
  have hrest : ∀ {G : State → Prop} {p : Parse (List Expr)},
      Spans text row (fun _ => True) lo G p (Stands text row lo) →
      Spans text row (fun _ => True) lo G
        (p >>= fun args => do let _ ← Grammar.eat .semicolon; return StmtKind.print args)
        (StandsStmt text row lo) :=
    fun hp => hp.bind fun _ => .past (.eat _) fun _ => .pure fun _ h => .of h.2 rfl trivial
  have hargs : ∀ {G : State → Prop}, Spans text row (fun _ => True) lo G
      (Grammar.commaSeparated rules (rules.call .expression)) (Stands text row lo) :=
    .commaSeparated hr.expression
  exact .advance hκ fun _ => .past (.eat _) fun _ => .ite
    (fun _ => .past (.check _) fun _ => .branch (.pure fun _ h => .nil h.2.le) hargs fun _ =>
      .consume (by decide) fun _ => hrest (.pure fun _ h => h.1.2))
    fun _ => hrest hargs

theorem elseBranch (hle : ∀ u, H u → lo ≤ u.edge) :
    Spans text row κ lo H (elseBranch rules) (Stands text row lo) :=
  .check
    (.startPos fun _ _ => .bind (.inNode (hr.ifStatement (.of_kind (by decide)))) fun _ =>
      .piece (fun _ h => h.1.2) (fun _ h => h.2.le) fun _ h hlies =>
        .some (Stands.stmt hlies h.1.2.at h.2))
    (.here (.after hle (.bodyStatement hr _)))

theorem ifRule (hκ : Inland κ) : Spans text row κ lo H (ifRule rules) (StandsStmt text row lo) :=
  .advance hκ fun _ => .consume (by decide) fun _ => .bind hr.expression fun _ =>
    .consume (by decide) fun _ => .bind (.bodyStatement hr _) fun _ =>
      .bind (.elseBranch hr fun _ h => h.2.le) fun _ =>
        .pure fun _ h => .of (.pair h.1.1.1.2 (.pair h.1.2 h.2)) rfl trivial

theorem loopHeader : Spans text row κ lo H (loopHeader rules) (Stands text row lo) :=
  .past (.eat _) fun _ => .past (.commaSeparated rules (.consumeName _)) fun _ =>
    .consume (by decide) fun _ => .bind hr.expression fun _ =>
      .pure fun _ h => .pair (.of_list h.2.le fun _ _ => .bare h.2.le rfl) h.2

theorem loopInitializer (hle : ∀ u, H u → lo ≤ u.edge) :
    Spans text row κ lo H (loopInitializer rules) (Stands text row lo) := by
  refine .past (.eat _) fun _ => .ite (fun _ => .pure fun u h => .none (hle u h)) fun _ =>
    .startPos fun start line => .past (.check _) fun _ => .branch (Q := StandsStmt text row start)
      (.inNode (.map (.varDeclaration hr {}) fun _ h => .of h rfl trivial))
      (.inNode (.map hr.expression fun _ h => .of h rfl trivial)) fun kind =>
        .spanning (g := fun span => Stmt.mk kind span line) (f := fun init => do
          if (← Grammar.previous).kind != .semicolon then
            let _ ← Grammar.consume .semicolon "Expected ';' after loop initializer."
          return some init)
          (fun _ h => h.1.2) (fun _ h => h.2.le) (fun _ h hlies => .stmt hlies h.1.2.at h.2)
          fun init => ?_
  exact .look .previous fun _ => .guarded (.consume ..) (.pure fun _ h => .some h.2)

theorem exprUnless (hle : ∀ u, H u → lo ≤ u.edge) (close : Token.Kind) :
    Spans text row κ lo H (exprUnless rules close) (Stands text row lo) :=
  .past (.check _) fun _ => .ite (fun _ => .pure fun u h => .none (hle u h))
    fun _ => .bind hr.expression fun _ => .pure fun _ h => .some h.2

theorem forStatement (hκ : Inland κ) :
    Spans text row κ lo H (forStatement rules) (StandsStmt text row lo) := by
  refine .advance hκ fun _ => .consume (by decide) fun _ => .past .startsLoopHeader fun _ =>
    .ite (fun _ => ?_) fun _ => ?_
  · exact .bind (.loopHeader hr) fun (_, _) => .consume (by decide) fun _ =>
      .bind (.bodyStatement hr _) fun _ => .pure fun _ h => .of (.pair h.1.1.2.snd h.2) rfl trivial
  · exact .bind (.loopInitializer hr fun _ h => h.2.le) fun _ =>
      .bind (.exprUnless hr (fun _ h => h.2.le) _) fun _ => .consume (by decide) fun _ =>
        .bind (.exprUnless hr (fun _ h => h.2.le) _) fun _ => .consume (by decide) fun _ =>
          .bind (.bodyStatement hr _) fun _ => .pure fun _ h =>
            .of (.pair h.1.1.1.1.1.2 (.pair h.1.1.1.1.2 (.pair h.1.1.2 h.2))) rfl trivial

theorem whileStatement (hκ : Inland κ) :
    Spans text row κ lo H (whileStatement rules) (StandsStmt text row lo) :=
  .advance hκ fun _ => .consume (by decide) fun _ => .bind hr.expression fun _ =>
    .consume (by decide) fun _ => .bind (.bodyStatement hr _) fun _ =>
      .pure fun _ h => .of (.pair h.1.1.2 h.2) rfl trivial

theorem iterStatement (hκ : Inland κ) :
    Spans text row κ lo H (iterStatement rules) (StandsStmt text row lo) :=
  .advance hκ fun _ => .consume (by decide) fun _ => .bind (.loopHeader hr) fun (_, _) =>
    .consume (by decide) fun _ => .bind (.bodyStatement hr _) fun _ =>
      .pure fun _ h => .of (.pair h.1.1.2.snd h.2) rfl trivial

theorem returnStatement (hκ : Inland κ) :
    Spans text row κ lo H (returnStatement rules) (StandsStmt text row lo) := by
  have hrest : ∀ {G : State → Prop} {κ : Token → Prop} {p : Parse (Option Expr)},
      Spans text row κ lo G p (Stands text row lo) → Spans text row κ lo G (p >>= fun value => do
        let _ ← Grammar.eat .semicolon
        return StmtKind.returns value) (StandsStmt text row lo) :=
    fun hp => hp.bind fun _ => .past (.eat _) fun _ => .pure fun _ h => .of h.2 rfl trivial
  refine .advance hκ fun _ => .past .peek fun t => ?_
  dsimp only
  split
  iterate 3 · exact hrest (.pure fun _ h => .none h.2.le)
  · exact hrest (.map hr.expression fun _ h => .some h)

theorem concurrencyBlock (hκ : Inland κ) {keyword : String} (defaults : ConcurrencySettings) :
    Spans text row κ lo H (concurrencyBlock rules keyword defaults) (Stands text row lo) :=
  .advance hκ fun _ => .past (Twin.concurrencySettings hr.lawful defaults).alike fun _ =>
    .bind (.concurrently (.block hr)) fun _ =>
      .pure fun _ h => .pair (.bare h.2.le rfl) h.2

theorem taskStatement :
    Spans text row κ lo H (taskStatement rules) (StandsStmt text row lo) := by
  have hrest : ∀ {κ : Token → Prop} (var : Option String),
      Spans text row κ lo H (Pure.pure var >>= fun var => do
        let iterable ← rules.call .expression
        let _ ← Grammar.consume .rightParen "Expected ')' after task header."
        return StmtKind.task var iterable
          (← Grammar.block rules "task" "Expected '\x7b' after task header."))
        (StandsStmt text row lo) := by
    intro κ var
    rw [pure_bind]
    exact .bind hr.expression fun _ => .consume (by decide) fun _ => .bind (.block hr) fun _ =>
      .pure fun _ h => .of (.pair h.1.1.2 h.2) rfl trivial
  exact .past .advance fun _ => .past .advance fun _ => .past (.check _) fun _ =>
    .past (.checkAt ..) fun _ => .ite
      (fun _ => .past .advance fun _ => .past .advance fun _ => hrest _) fun _ => hrest _

theorem workerStatement :
    Spans text row κ lo H (workerStatement rules) (StandsStmt text row lo) := by
  have hrest : ∀ {κ : Token → Prop} (param : Option String),
      Spans text row κ lo H (Pure.pure param >>= fun param => do
        let _ ← Grammar.consume .rightParen "Expected ')' after worker parameter."
        return StmtKind.worker param
          (← Grammar.block rules "worker" "Expected '\x7b' after worker header."))
        (StandsStmt text row lo) := by
    intro κ param
    rw [pure_bind]
    exact .consume (by decide) fun _ => .bind (.block hr) fun _ =>
      .pure fun _ h => .of h.2 rfl trivial
  exact .past .advance fun _ => .past .advance fun _ => .past (.check _) fun _ =>
    .ite (fun _ => .past .advance fun _ => hrest _) fun _ => hrest _

theorem matchCase : Spans text row κ lo H (matchCase rules) (Stands text row lo) :=
  .inNode (.bind hr.pattern fun _ => .bind (.after (fun _ h => h.2.le) hr.expression) fun _ =>
    .consume (by decide) fun _ => .bind hr.statement fun _ => .past (.eat _) fun _ =>
      .pure fun _ h => .of (.pair h.1.1.1.2 (.pair h.1.1.2 h.2)) rfl)

theorem matchStatement (hκ : Inland κ) :
    Spans text row κ lo H (matchStatement rules) (StandsStmt text row lo) := by
  refine .advance hκ fun _ => .consume (by decide) fun _ => .bind hr.expression fun _ =>
    .consume (by decide) fun _ => .consume (by decide) fun brace => .bind (.inBody (.bind
      (.repeatUpTo (Q := Stands text row lo) (fun _ h => .nil h.2.le) fun cases => ?_) fun _ =>
        .following (.closeBlock _) fun _ => .pure fun _ h => h.2)) fun _ =>
          .pure fun _ h => .of (.pair h.1.1.1.2 h.2.reverse) rfl trivial
  exact .past .bodyEnds fun _ => .ite (fun _ => .pure fun _ h => h) fun _ =>
    .bind (.matchCase hr) fun _ => .pure fun _ h => .cons h.2 h.1

theorem contractStatement (hκ : Inland κ) :
    Spans text row κ lo H (contractStatement rules) (StandsStmt text row lo) :=
  .advance hκ fun _ => .consume (by decide) fun _ => .bind hr.expression fun _ =>
    .bind (.after (fun _ h => h.2.le) hr.expression) fun _ => .consume (by decide) fun _ =>
      .consume (by decide) fun _ => .pure fun _ h => .of (.pair h.1.1.1.2 h.1.1.2) rfl trivial

/-- A statement that makes a node starts with a token that was read. The node of an expression may
stand at the end. -/
theorem statementOf {node : Tree.Kind} (hκ : Inland κ ∨ node = .expressionStatement) :
    Spans text row κ lo H (statementOf rules node) (StandsStmt text row lo) := by
  have hexpr : Spans text row κ lo H (do
      let e ← Grammar.exprRule rules
      let _ ← Grammar.eat .semicolon
      return StmtKind.expression e) (StandsStmt text row lo) :=
    .bind (.exprRule hr) fun _ => .past (.eat _) fun _ => .pure fun _ h => .of h.2 rfl trivial
  rcases hκ with hκ | rfl
  swap
  · exact hexpr
  unfold Grammar.statementOf
  split
  · exact .printStatement hr hκ
  · exact .ifRule hr hκ
  · exact .forStatement hr hκ
  · exact .whileStatement hr hκ
  · exact .iterStatement hr hκ
  · exact .advance hκ fun brace => .bind (.blockBody hr (fun _ h => h.2) _) fun _ =>
      .pure fun _ h => .of h.2 rfl trivial
  · exact .returnStatement hr hκ
  · exact .advance hκ fun _ => .consume (by decide) fun _ =>
      .pure fun _ h => .bare h.2.le rfl trivial
  · exact .advance hκ fun _ => .consume (by decide) fun _ =>
      .pure fun _ h => .bare h.2.le rfl trivial
  · exact .bind (.concurrencyBlock hr hκ _) fun (_, _) =>
      .pure fun _ h => .of h.2.snd rfl trivial
  · exact .bind (.concurrencyBlock hr hκ _) fun (_, _) =>
      .pure fun _ h => .of h.2.snd rfl trivial
  · exact .taskStatement hr
  · exact .workerStatement hr
  · exact .matchStatement hr hκ
  · exact .advance hκ fun _ => .bind (.block hr) fun _ => .pure fun _ h => .of h.2 rfl trivial
  · exact .contractStatement hr hκ
  · exact .advance hκ fun _ => .bind hr.declaration fun _ =>
      .pure fun _ h => .of h.2 rfl trivial
  · exact hexpr

theorem statementRule : Spans text row κ lo H (statementRule rules) (Stands text row lo) := by
  refine .startPos fun _ _ => .look .get fun s => .peek fun first => .look (.peekAt 1) fun second =>
    .bind (.inNode (.statementOf hr ?_)) fun _ => .stmtFrom (fun _ h => h.1.2) fun _ h => h.2
  by_cases heof : first.kind = .eof
  · exact .inr (statementNode_eof heof ..)
  · exact .inl (.of_eq heof)

/-! ## Declarations -/

theorem destructuring :
    Spans text row κ lo H (destructuring rules) (StandsStmt text row lo) :=
  .past .advance fun _ => .past .advance fun _ =>
    .past (.commaSeparated rules (.consumeName _)) fun _ => .consume (by decide) fun _ =>
      .consume (by decide) fun _ => .bind hr.expression fun _ => .past (.eat _) fun _ =>
        .pure fun _ h => .of h.2 rfl trivial

theorem functionDeclaration (mods : Modifiers) :
    Spans text row κ lo H (functionDeclaration rules mods) (Stands text row lo) := by
  refine .startPos fun start line => .past .advance fun _ => .following (.consumeName _) fun _ =>
    .past (.describe _) fun _ => .past (Twin.genericNames rules).alike fun _ => .past (.check _) fun _ =>
      .guarded (d := id) (.fail _) ?_
  refine .bind (.parameters hr) fun (params, optionalParams) =>
    .bind (.after (fun _ h => h.2.le) hr.type) fun result => .past (.eat _) fun _ =>
      .branch (Q := Stands text row start) (.pure fun _ h => .none h.2.le)
        (.map (.block hr) fun _ h => .some h) fun body =>
          .piece (fun _ h => h.1.1.1.2) (fun _ h => h.2.le) fun _ h hlies => ?_
  obtain ⟨⟨⟨⟨-, hstart⟩, hparams⟩, hresult⟩, hbody⟩ := h
  exact .function hlies hstart.at
    (.pair hparams.stands.fst (.pair hparams.stands.snd (.pair hresult hbody)))

theorem constructorParts :
    Spans text row κ lo H (constructorParts rules) (Stands text row lo) :=
  .past .advance fun _ => .bind (.parameters hr) fun _ => .bind (.block hr) fun _ =>
    .pure fun _ h => .pair h.1.2.stands h.2

/-- A constructor starts behind its modifiers. -/
theorem constructorAt (mark : Option Tree.Checkpoint) :
    Spans text row κ lo H (Grammar.startPos >>= fun pos =>
      Grammar.inNodeAt mark .functionDeclaration (Grammar.constructorParts rules) >>= fun parts =>
        Grammar.spanFrom pos.1 >>= fun span =>
          Pure.pure (constructorOf parts.1 parts.2 span pos.2)) (Stands text row lo) :=
  .startPos fun _ _ => .bind (.inNodeAt (.constructorParts hr)) fun _ =>
    .piece (fun _ h => h.1.2) (fun _ h => h.2.le) fun _ h hlies => .function hlies h.1.2.at
      (.pair h.2.fst.fst (.pair h.2.fst.snd (.pair (.none h.2.le) (.some h.2.snd))))

theorem classMember {c : ClassDecl} (hc : ∀ u, H u → StandsClass text row lo u.edge c) :
    Spans text row κ lo H (classMember rules c) (StandsClass text row lo) := by
  refine .look .checkpoint fun mark => .past (Twin.modifiers rules).alike fun mods =>
    .past (.startsField mods) fun _ => .ite (fun _ => ?_) fun _ => .past (.check _) fun _ =>
      .ite (fun _ => ?_) fun _ => .past (.check _) fun _ => .past .peek fun t =>
        .past (.checkAt ..) fun _ => .ite (fun _ => ?_) fun _ => .fail
  · exact .bind (.inNodeAt (.varDeclaration hr mods)) fun _ =>
      .pure fun u h => (hc u h.1).addField h.2
  · exact .bind (.inNodeAt (.functionDeclaration hr mods)) fun _ =>
      .pure fun u h => (hc u h.1).addMethod h.2
  · have hctor : Spans text row (fun _ => True) lo H _ (Stands text row lo) := constructorAt hr mark
    have hmember := hctor.bind fun m => .pure (a := c.addMethod m) (Q := StandsClass text row lo)
      fun u h => (hc u h.1).addMethod h.2
    simp only [bind_assoc, pure_bind] at hmember
    exact hmember

theorem superclass (hle : ∀ u, H u → lo ≤ u.edge) :
    Spans text row κ lo H (superclass rules) (Stands text row lo) :=
  .past (.eat _) fun _ => .ite
    (fun _ => .following (.consumeName _) fun _ => .check
      (.bind (.arguments hr (.of_kind (by decide))) fun _ =>
        .pure fun _ h => .pair (.bare h.2.le rfl) h.2)
      (.bind (Q := Stands text row lo) (.pure fun u h => .nil (hle u h)) fun _ =>
        .pure fun _ h => .pair (.bare h.2.le rfl) h.2))
    fun _ => .pure fun u h => .pair (.none (hle u h)) (.nil (hle u h))

/-- The parameters in the header are those of its list, sorted; without a header there are none. -/
theorem classDeclaration (hκ : Inland κ) (mods : Modifiers) :
    Spans text row κ lo H (classDeclaration rules mods) (StandsClass text row lo) := by
  refine .startPos fun start line => .advance hκ fun _ => .following (.consumeName _)
    fun name => .past (.describe _) fun _ => .past (.check _) fun _ =>
      .branch (.parameters hr)
        (.pure fun _ h => ⟨.pair (.nil h.2.le) (.nil h.2.le), [], .nil, rfl⟩)
        fun (required, optional) => .bind (.superclass hr fun _ h => h.2.le)
          fun (base, superArgs) => .consume (by decide) fun brace =>
            .bind (Q := StandsClass text row start) (.inBody ?_) fun c => .ite
              (fun _ => .spanning (g := fun span => c.headerConstructor span line)
                (f := fun m => Pure.pure (c.addMethod m)) (fun _ h => h.1.1.1.1.1.2)
                (fun _ h => h.2.le) (fun _ h hlies => h.2.headerConstructor hlies h.1.1.1.1.1.2.at)
                fun m => .pure fun _ h => ?_)
              fun _ => .pure fun _ h => h.2.mono h.1.1.1.1.1.2.le (Nat.le_refl _)
  · refine .bind (.repeatUpTo (Q := StandsClass text row start) (fun _ h => ?_) fun c => ?_)
      fun _ => .following (.closeBlock _) fun _ => .pure fun _ h => h.2
    · obtain ⟨⟨⟨-, hparams⟩, hsuper⟩, -⟩ := h
      have hheader := hparams.stands.fst.append hparams.stands.snd
      exact .of (.pair hsuper.snd (.pair hheader (.pair (.nil (α := VarDecl) hsuper.le)
        (.nil (α := FunctionDecl) hsuper.le)))) rfl hparams.sorted
    · exact .past .bodyEnds fun _ => .ite (fun _ => .pure fun _ h => h) fun _ =>
        .bind (.classMember hr fun _ h => h) fun _ => .pure fun _ h => h.2
  · exact StandsClass.addMethod (h.1.2.mono h.1.1.1.1.1.1.2.le (Nat.le_refl _)) h.2

theorem enumVariant : Spans text row κ lo H (enumVariant rules) (Stands text row lo) :=
  .inNode (.bind .consumeName fun _ => .bind (.after (fun _ h => h.2.le)
    (.bind hr.type fun _ => .consume (by decide) fun _ => .pure fun _ h => h.1.2)) fun _ =>
      .pure fun _ h => .of h.2 rfl)

theorem enumDeclaration (hκ : Inland κ) :
    Spans text row κ lo H (enumDeclaration rules) (StandsStmt text row lo) := by
  refine .advance hκ fun _ => .following (.consumeName _) fun _ => .past (.describe _) fun _ =>
    .consume (by decide) fun brace => .bind (Q := Stands text row lo) (.inBody ?_) fun _ =>
      .pure fun _ h => .of h.2 rfl trivial
  exact .bind (.commaList (fun _ h => h.2.le) (.enumVariant hr)) fun (_, _) =>
    .following (.closeBlock _) fun _ => .past .atEnd fun _ =>
      .guarded (d := id) .giveUp (.pure fun _ h => h.2)

theorem typeDeclaration :
    Spans text row κ lo H (typeDeclaration rules) (StandsStmt text row lo) :=
  .past .advance fun _ => .following (.consumeName _) fun _ => .consume (by decide) fun _ =>
    .bind hr.type fun _ => .past (.eat _) fun _ => .pure fun _ h => .of h.2 rfl trivial

theorem traitDeclaration (mods : Modifiers) (keyword : String) :
    Spans text row κ lo H (traitDeclaration rules mods keyword) (Stands text row lo) := by
  refine .past .advance fun _ => .past (.check _) fun _ => .guarded (.inNode _ .advance) <|
    .following (.consumeName _) fun _ => .past (.describe _) fun _ =>
      .consume (by decide) fun brace => .bind (.inBody (.bind (.repeatUpTo (Q := Stands text row lo)
        (fun _ h => .nil h.2.le) fun methods => ?_) fun _ => .following (.closeBlock _) fun _ =>
          .pure fun _ h => h.2)) fun _ =>
            .pure fun _ h => .pair (.bare h.2.le rfl) (.pair (.bare h.2.le rfl) h.2.reverse)
  exact .past .bodyEnds fun _ => .ite (fun _ => .pure fun _ h => h) fun _ =>
    .past (.check _) fun _ => .guarded (d := id) (.fail _ append_append_ne_tooManyErrors)
      (.bind (.inNode (.functionDeclaration hr {})) fun _ => .pure fun _ h => .cons h.2 h.1)

theorem moduleDeclaration (hκ : Inland κ) :
    Spans text row κ lo H (moduleDeclaration rules) (StandsStmt text row lo) := by
  refine .advance hκ fun _ => .following (.consumeName _) fun _ => .past (.describe _) fun _ =>
    .consume (by decide) fun brace => .bind (Q := Stands text row lo) (.inBody
      (.bind (.deeper (.repeatUpTo (Q := Stands text row lo) (fun _ h => .bare h.2.le rfl)
        fun parts => ?_)) fun _ => .following (.closeBlock _) fun _ => .pure fun _ h => h.2))
          fun parts => .pure fun u h => ?_
  · exact .past .bodyEnds fun _ => .ite (fun _ => .pure fun _ h => h) fun _ => .past .peek fun _ =>
      .bind (.nextDeclaration hr fun _ h => h.le) fun _ => .pure fun _ h =>
        (Within.pair h.2 h.1).of_subset (ModuleParts.pieces_add ..)
  · have hall : Stands text row lo u.edge (parts.forEveryone, parts.forHeirs, parts.forOwner) :=
      h.2.of rfl
    exact .of (.pair hall.fst.reverse (.pair hall.snd.fst.reverse hall.snd.snd.reverse)) rfl trivial

theorem declarationOf (hκ : Inland κ) (mods : Modifiers) (node : Tree.Kind) :
    Spans text row κ lo H (declarationOf rules mods node) (StandsStmt text row lo) := by
  unfold Grammar.declarationOf
  split
  · exact .bind (.classDeclaration hr hκ mods) fun _ =>
      .pure fun _ h => .of h.2.stands rfl h.2.sorted
  · exact .bind (.functionDeclaration hr mods) fun _ => .pure fun _ h => .of h.2 rfl trivial
  · exact .destructuring hr
  · exact .bind (.varDeclaration hr mods) fun _ => .pure fun _ h => .of h.2 rfl trivial
  · exact .enumDeclaration hr hκ
  · have himport : Spans text row κ lo H (Grammar.importDeclaration rules) (Stands text row lo) :=
      .advance hκ fun _ => .past (Twin.importPath rules).alike fun _ => .past (.after _ (.consumeName _))
        fun _ => .past (Twin.importFilter rules).alike fun _ => .past (.eat _) fun _ =>
          .pure fun _ h => .bare h.2.le rfl
    exact .bind himport fun _ => .pure fun _ h => .bare h.2.le rfl trivial
  · exact .typeDeclaration hr
  · exact .bind (.traitDeclaration hr ..) fun (_, _, _) =>
      .pure fun _ h => .of h.2.snd.snd rfl trivial
  · exact .bind (.traitDeclaration hr ..) fun (_, _, _) =>
      .pure fun _ h => .of h.2.snd.snd rfl trivial
  · exact .moduleDeclaration hr hκ

theorem declarationRule :
    Spans text row κ lo H (declarationRule rules) (Stands text row lo) := by
  refine .startPos fun _ _ => .look .checkpoint fun c => .past (Twin.modifiers rules).alike
    fun mods => .peek fun first => .look (.peekAt 1) fun second => ?_
  split
  · exact .weaken (.statementRule hr) fun h hs => hs.mono h.2.le (Nat.le_refl _)
  next node hnode =>
    have hκ : Inland (· = first) := .of_eq fun heof => by
      rw [declarationNode?_eof mods heof] at hnode
      cases hnode
    exact .bind (.inNodeAt (.declarationOf hr hκ mods node)) fun _ =>
      .stmtFrom (fun _ h => h.1.2) fun _ h => h.2

theorem recoveredRule (hle : ∀ u, H u → lo ≤ u.edge) :
    Spans text row κ lo H (recoveredRule rules) (Stands text row lo) := by
  refine .weaken (.recovering (fun progress => (Twin.synchronize rules progress).stepwise)
    (.declarationRule hr)) fun {u stmt} h hstmt => ?_
  cases stmt with
  | none => exact .none (hle u h)
  | some stmt => exact .some (hstmt stmt rfl)

end Spans

/-! ## Programs -/

/-- Where calls may not be nested any deeper nothing is yielded. -/
theorem Spans.spent {α : Type} {text : String} {row : List Token} {κ : Token → Prop} {lo : Nat}
    {H : State → Prop} {Q : Nat → α → Prop} :
    Spans text row κ lo H (do spend; Grammar.giveUp : Parse α) Q :=
  .past .spend fun _ => .giveUp

/-- Rules that call each other put what they yield in its place. -/
theorem Rules.spans_upTo (text : String) (row : List Token) (n : Nat) :
    (Rules.upTo n).Spans text row := by
  induction n with
  | zero => exact {
      lawful := Rules.lawful_upTo 0
      bound := Nat.succ_pos 0
      expression := .spent
      power := .spent
      unary := .spent
      typeFrom := .spent
      basicType := .spent
      pattern := .spent
      ifStatement := fun _ => .spent
      statement := .spent
      declaration := .spent
      recovered := fun _ => .spent }
  | succ n hr => exact {
      lawful := Rules.lawful_upTo (n + 1)
      bound := Nat.succ_pos (n + 1)
      expression := .exprRule hr
      power := .powerRule hr
      unary := .unaryRule hr
      typeFrom := .typeWith hr true
      basicType := .basicTypeRule hr
      pattern := .patternRule hr
      ifStatement := .ifRule hr
      statement := .statementRule hr
      declaration := .declarationRule hr
      recovered := .recoveredRule hr }

theorem Spans.topDeclaration {rules : Rules} {text : String} {row : List Token}
    {κ : Token → Prop} {H : State → Prop} (hr : rules.Spans text row) :
    Spans text row κ 0 H (topDeclaration rules) (Stands text row 0) := by
  have hle : ∀ {G : State → Prop} u, G u → 0 ≤ u.edge := fun u _ => Nat.zero_le u.edge
  refine .following .get fun _ => .past (.check _) fun _ => .ite
    (fun _ => .past Twin.strayBrace.alike fun _ => .bind (Q := Stands text row 0)
      (.pure fun u _ => .none (Nat.zero_le u.edge)) fun _ => .following .get fun _ => ?_)
    fun _ => .bind (.recoveredRule hr hle) fun _ => .following .get fun _ => ?_
  all_goals exact .past .atEnd fun _ => .guarded .advance (.pure fun _ h => h.2)

/-- The statements of a program stand in its source. -/
theorem Spans.topDeclarations {text : String} {row : List Token} {H : State → Prop} (n : Nat) :
    Spans text row (fun _ => True) 0 H (topDeclarations (.upTo n)) (Stands text row 0) := by
  have hr : Rules.Spans (.upTo n) text row := Rules.spans_upTo text row n
  refine .bind (.repeatUpTo (Q := Stands text row 0) (fun u _ => .nil (Nat.zero_le u.edge))
    fun stmts => ?_) fun _ => .pure fun _ h => h.2.reverse
  exact .past .atEnd fun _ => .following .get fun _ => .ite (fun _ => .pure fun _ h => h) fun _ =>
    .bind (.topDeclaration hr) fun _ => .pure fun _ h => .append h.2.toList h.1

end LimitSyntax.Grammar
