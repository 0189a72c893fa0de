import LimitSyntax.Proofs.MakesTypes

/-!
# Syntax that meets a law: statements, declarations and programs

Statements and declarations meet a law if expressions and classes do. So does, by induction on
how deep rules call each other, the syntax of a program (`Grammar.Makes.topDeclarations`).
-/

namespace LimitSyntax

/-- The nodes of tasks and workers. -/
def Tree.Kind.isTask : Tree.Kind → Bool
  | .taskStatement | .workerStatement => true
  | _ => false

namespace Grammar

open Ast

instance : HasNodes ModuleParts :=
  ⟨fun parts => nodes (parts.forEveryone, parts.forHeirs, parts.forOwner)⟩

/-- A statement is read as a task or a worker only where they are known. -/
theorem concurrent_of_isTask {concurrent : Bool} {first second : Token}
    (h : (statementNode concurrent first second).isTask = true) : concurrent = true := by
  cases concurrent with
  | true => rfl
  | false =>
    unfold statementNode at h
    split at h <;> cases h

/-- A declaration is read as a class only behind the keyword. -/
theorem kind_of_declarationNode? {mods : Modifiers} {first second : Token}
    (h : declarationNode? mods first second = some .classDeclaration) : first.kind = .kwClass := by
  unfold declarationNode? at h
  split at h
  case h_1 hkind => exact hkind
  case h_3 | h_4 =>
    split at h
    all_goals cases h
  all_goals cases h

namespace Makes

variable {rules : Rules} {L : Law} {H : Prop} (hr : rules.Make L)
include hr

/-! ## Statements -/

theorem bodyStatement (kind : String) : Makes L H (bodyStatement rules kind) :=
  .past (.check _) fun _ => .ite
    (.past .startPos fun (_, _) => .bind
      (.inNode (.past .advance fun brace => .blockBody hr brace kind)) fun _ =>
        .past (.spanFrom _) fun _ => .pure fun h => .stmt h.2 rfl rfl)
    hr.statement

theorem printStatement : Makes L H (printStatement rules) := by
  have hrest : ∀ {G : Prop} {p : Parse (List Expr)}, Makes L G p →
      Makes L G (p >>= fun args => do let _ ← Grammar.eat .semicolon; return StmtKind.print args) :=
    fun hp => hp.bind fun _ => .past (.eat _) fun _ => .pure fun h => .stmt h.2 rfl rfl
  have hargs : ∀ {G : Prop}, Makes L G (Grammar.commaSeparated rules (rules.call .expression)) :=
    .commaSeparated hr.expression
  exact .past .advance fun _ => .past (.eat _) fun _ => .ite
    (.past (.check _) fun _ => .branch (.pure fun _ => .nil) hargs fun _ =>
      .past (.consume ..) fun _ => hrest (.pure And.right))
    (hrest hargs)

theorem elseBranch : Makes L H (elseBranch rules) :=
  .past (.check _) fun _ => .ite
    (.past .startPos fun (_, _) => .bind (.inNode hr.ifStatement) fun _ =>
      .past (.spanFrom _) fun _ => .pure fun h => .some h.2)
    (.after (.bodyStatement hr _))

theorem ifRule : Makes L H (ifRule rules) :=
  .past .advance fun _ => .past (.consume _ append_append_ne_tooManyErrors _) fun _ =>
    .bind hr.expression fun _ => .past (.consume ..) fun _ => .bind (.bodyStatement hr _) fun _ =>
      .bind (.elseBranch hr) fun _ => .pure fun h => .stmt (.pair h.1.1.2 (.pair h.1.2 h.2)) rfl rfl

theorem loopHeader : Makes L H (loopHeader rules) :=
  .past (.eat _) fun _ => .past (.commaSeparated rules (.consumeName _)) fun _ =>
    .past (.consume ..) fun _ => .bind hr.expression fun _ =>
      .pure fun h => .pair (.of_list fun _ _ => .bare rfl) h.2

theorem loopInitializer : Makes L H (loopInitializer rules) := by
  refine .past (.eat _) fun _ => .ite (.pure fun _ => .none) <| .past .startPos fun (start, line) =>
    .past (.check _) fun _ => .branch
      (.inNode (.map (.varDeclaration hr {}) fun h => .stmt h rfl rfl))
      (.inNode (.map hr.expression fun h => .stmt h rfl rfl)) fun _ => .past (.spanFrom _) fun _ => ?_
  exact .past .previous fun _ => .guarded (.consume ..) (.pure fun h => .some h.2)

theorem exprUnless (close : Token.Kind) : Makes L H (exprUnless rules close) :=
  .past (.check _) fun _ => .ite (.pure fun _ => .none)
    (.bind hr.expression fun _ => .pure fun h => .some h.2)

theorem forStatement : Makes L H (forStatement rules) := by
  refine .past .advance fun _ => .past (.consume ..) fun _ => .past .startsLoopHeader fun _ =>
    .ite ?_ ?_
  · exact .bind (.loopHeader hr) fun (_, _) => .past (.consume ..) fun _ =>
      .bind (.bodyStatement hr _) fun _ => .pure fun h => .stmt (.pair h.1.2.snd h.2) rfl rfl
  · exact .bind (.loopInitializer hr) fun _ => .bind (.exprUnless hr _) fun _ =>
      .past (.consume ..) fun _ => .bind (.exprUnless hr _) fun _ => .past (.consume ..) fun _ =>
        .bind (.bodyStatement hr _) fun _ => .pure fun h =>
          .stmt (.pair h.1.1.1.2 (.pair h.1.1.2 (.pair h.1.2 h.2))) rfl rfl

theorem whileStatement : Makes L H (whileStatement rules) :=
  .past .advance fun _ => .past (.consume ..) fun _ => .bind hr.expression fun _ =>
    .past (.consume ..) fun _ => .bind (.bodyStatement hr _) fun _ =>
      .pure fun h => .stmt (.pair h.1.2 h.2) rfl rfl

theorem iterStatement : Makes L H (iterStatement rules) :=
  .past .advance fun _ => .past (.consume ..) fun _ => .bind (.loopHeader hr) fun (_, _) =>
    .past (.consume ..) fun _ => .bind (.bodyStatement hr _) fun _ =>
      .pure fun h => .stmt (.pair h.1.2.snd h.2) rfl rfl

theorem returnStatement : Makes L H (returnStatement rules) := by
  have hrest : ∀ {G : Prop} {p : Parse (Option Expr)}, Makes L G p →
      Makes L G (p >>= fun value => do
        let _ ← Grammar.eat .semicolon
        return StmtKind.returns value) :=
    fun hp => hp.bind fun _ => .past (.eat _) fun _ => .pure fun h => .stmt h.2 rfl rfl
  refine .past .advance fun _ => .past .peek fun t => ?_
  dsimp only
  split
  iterate 3 · exact hrest (.pure fun _ => .none)
  · exact hrest (.map hr.expression .some)

/-- What follows a concurrency block may rely on its body if the law asks for that. -/
theorem concurrencyBlock {keyword : String} (defaults : ConcurrencySettings)
    {f : ConcurrencySettings × Block → Parse StmtKind}
    (hf : ∀ x, Makes L (H ∧ (L.outside = false → L.Meets x)) (f x)) :
    Makes L H (concurrencyBlock rules keyword defaults >>= f) := by
  cases houtside : L.outside with
  | false =>
    refine .bind (.past .advance fun _ => .past (Twin.concurrencySettings hr.lawful defaults).alike fun _ =>
      .bind (.concurrently (.block hr append_append_ne_tooManyErrors) houtside) fun _ =>
        .pure fun h => .pair (.bare rfl) h.2) fun x => ?_
    exact (hf x).under fun h => ⟨h.1, fun _ => h.2⟩
  | true =>
    refine .past (Alike.concurrencyBlock hr.lawful _ defaults) fun x => ?_
    exact (hf x).under fun h => ⟨h, fun hinside => nomatch houtside.symm.trans hinside⟩

theorem taskStatement (houtside : H → L.outside = false) : Makes L H (taskStatement rules) := by
  have hrest : ∀ (var : Option String), Makes L H (Pure.pure var >>= fun var => do
      let iterable ← rules.call .expression
      let _ ← Grammar.consume .rightParen "Expected ')' after task header."
      return StmtKind.task var iterable
        (← Grammar.block rules "task" "Expected '\x7b' after task header.")) := by
    intro var
    rw [pure_bind]
    exact .bind hr.expression fun _ => .past (.consume ..) fun _ => .bind (.block hr (by decide))
      fun _ => .pure fun h => .task (houtside h.1.1) (.pair h.1.2 h.2) rfl rfl
  exact .past .advance fun _ => .past .advance fun _ => .past (.check _) fun _ =>
    .past (.checkAt ..) fun _ => .ite (.past .advance fun _ => .past .advance fun _ => hrest _)
      (hrest _)

theorem workerStatement (houtside : H → L.outside = false) : Makes L H (workerStatement rules) := by
  have hrest : ∀ (param : Option String), Makes L H (Pure.pure param >>= fun param => do
      let _ ← Grammar.consume .rightParen "Expected ')' after worker parameter."
      return StmtKind.worker param
        (← Grammar.block rules "worker" "Expected '\x7b' after worker header.")) := by
    intro param
    rw [pure_bind]
    exact .past (.consume ..) fun _ => .bind (.block hr (by decide)) fun _ =>
      .pure fun h => .task (houtside h.1) h.2 rfl rfl
  exact .past .advance fun _ => .past .advance fun _ => .past (.check _) fun _ =>
    .ite (.past .advance fun _ => hrest _) (hrest _)

theorem matchCase : Makes L H (matchCase rules) :=
  .inNode (.bind hr.pattern fun _ => .bind (.after hr.expression) fun _ =>
    .past (.consume ..) fun _ => .bind hr.statement fun _ => .past (.eat _) fun _ =>
      .pure fun h => .pair h.1.1.2 (.pair h.1.2 h.2))

theorem matchStatement : Makes L H (matchStatement rules) := by
  refine .past .advance fun _ => .past (.consume ..) fun _ => .bind hr.expression fun _ =>
    .past (.consume ..) fun _ => .past (.consume ..) fun brace => .bind (.inBody
      (.bind (.repeatUpTo (fun _ => .nil) fun cases => ?_) fun _ => .past (.closeBlock _) fun _ =>
        .pure And.right)) fun _ => .pure fun h => .stmt (.pair h.1.2 h.2.reverse) rfl rfl
  exact .past .bodyEnds fun _ => .ite (.turn id) <| .bind (.matchCase hr) fun _ =>
    .turn fun h => .cons h.2 h.1

theorem contractStatement : Makes L H (contractStatement rules) :=
  .past .advance fun _ => .past (.consume ..) fun _ => .bind hr.expression fun _ =>
    .bind (.after hr.expression) fun _ => .past (.consume ..) fun _ => .past (.consume ..) fun _ =>
      .pure fun h => .stmt (.pair h.1.2 h.2) rfl rfl

section
variable (he : ∀ {G : Prop}, Makes L G (exprRule rules))
include he

theorem statementOf {node : Tree.Kind} (hknown : H → node.isTask = true → L.outside = false) :
    Makes L H (statementOf rules node) := by
  unfold Grammar.statementOf
  split
  · exact .printStatement hr
  · exact .ifRule hr
  · exact .forStatement hr
  · exact .whileStatement hr
  · exact .iterStatement hr
  · exact .past .advance fun brace => .bind (.blockBody hr brace _) fun _ =>
      .pure fun h => .stmt h.2 rfl rfl
  · exact .returnStatement hr
  · exact .past .advance fun _ => .past (.consume ..) fun _ => .pure fun _ => .stmtLeaf rfl rfl
  · exact .past .advance fun _ => .past (.consume ..) fun _ => .pure fun _ => .stmtLeaf rfl rfl
  · exact .concurrencyBlock hr _ fun (_, _) => .pure fun h =>
      .concurrency rfl (fun hinside => (h.2 hinside).snd) rfl
  · exact .concurrencyBlock hr _ fun (_, _) => .pure fun h =>
      .concurrency rfl (fun hinside => (h.2 hinside).snd) rfl
  · exact .taskStatement hr fun hH => hknown hH rfl
  · exact .workerStatement hr fun hH => hknown hH rfl
  · exact .matchStatement hr
  · exact .past .advance fun _ => .bind (.block hr (by decide)) fun _ =>
      .pure fun h => .stmt h.2 rfl rfl
  · exact .contractStatement hr
  · exact .past .advance fun _ => .bind hr.declaration fun _ => .pure fun h => .stmt h.2 rfl rfl
  · exact .bind he fun _ => .past (.eat _) fun _ => .pure fun h => .stmt h.2 rfl rfl

theorem statementRule : Makes L H (statementRule rules) :=
  .past .startPos fun (_, _) => .get fun _ => .past .peek fun _ => .past (.peekAt 1) fun _ =>
    .bind (.inNode (.statementOf hr he fun h htask => Bool.eq_false_iff.2 fun houtside =>
      nomatch (concurrent_of_isTask htask).symm.trans (h.2 houtside))) fun _ =>
        .past (.spanFrom _) fun _ => .pure fun h => h.2

end

/-! ## Declarations -/

theorem destructuring : Makes L H (destructuring rules) :=
  .past .advance fun _ => .past .advance fun _ =>
    .past (.commaSeparated rules (.consumeName _)) fun _ => .past (.consume ..) fun _ =>
      .past (.consume ..) fun _ => .bind hr.expression fun _ => .past (.eat _) fun _ =>
        .pure fun h => .stmt h.2 rfl rfl

theorem functionDeclaration (mods : Modifiers) : Makes L H (functionDeclaration rules mods) := by
  refine .past .startPos fun (start, line) => .past .advance fun _ => .past (.consumeName _)
    fun _ => .past (.describe _) fun _ => .past (Twin.genericNames rules).alike fun _ =>
      .past (.check _) fun _ => .guarded (d := id) (.fail _) ?_
  exact .bind (.parameters hr) fun (_, _) => .bind (.after hr.type) fun _ =>
    .past (.eat _) fun _ => .branch (.pure fun _ => .none) (.map (.block hr (by decide)) .some)
      fun _ => .past (.spanFrom _) fun _ => .pure fun h =>
        .pair h.1.1.2.fst (.pair h.1.1.2.snd (.pair h.1.2 h.2))

theorem constructorParts : Makes L H (constructorParts rules) :=
  .past .advance fun _ => .bind (.parameters hr) fun _ => .bind (.block hr (by decide)) fun _ =>
    .pure fun h => .pair h.1.2 h.2

omit hr in
theorem addMethod {c : ClassDecl} {m : FunctionDecl} (hc : L.Meets c) (hm : L.Meets m) :
    L.Meets (c.addMethod m) :=
  .pair hc.fst <| .pair hc.snd.fst <| .pair hc.snd.snd.fst <|
    .append hc.snd.snd.snd (.cons hm .nil)

theorem classMember {c : ClassDecl} (hc : H → L.Meets c) : Makes L H (classMember rules c) := by
  refine .past .checkpoint fun mark => .past (Twin.modifiers rules).alike fun mods =>
    .past (.startsField mods) fun _ => .ite ?_ <| .past (.check _) fun _ => .ite ?_ <|
      .past (.check _) fun _ => .past .peek fun t => .past (.checkAt ..) fun _ =>
        .ite ?_ (.fail (by decide))
  · refine .bind (.inNodeAt (.varDeclaration hr mods)) fun _ => .pure fun h => ?_
    have hc := hc h.1
    exact .pair hc.fst <| .pair hc.snd.fst <| .pair (.append hc.snd.snd.fst (.cons h.2 .nil))
      hc.snd.snd.snd
  · exact .bind (.inNodeAt (.functionDeclaration hr mods)) fun _ =>
      .pure fun h => addMethod (hc h.1) h.2
  · refine .past .startPos fun (_, _) => .bind (.inNodeAt (.constructorParts hr)) fun (_, _) =>
      .past (.spanFrom _) fun _ => .pure fun h => addMethod (hc h.1) ?_
    exact .pair h.2.fst.fst <| .pair h.2.fst.snd <| .pair .none (.some h.2.snd)

theorem superclass : Makes L H (superclass rules) :=
  .past (.eat _) fun _ => .ite
    (.past (.consumeName _) fun _ => .past (.check _) fun _ =>
      .branch (.arguments hr) (.pure fun _ => .nil) fun _ => .pure fun h => .pair (.bare rfl) h.2)
    (.pure fun _ => .pair .none .nil)

theorem classDeclaration (mods : Modifiers) : Makes L H (classDeclaration rules mods) := by
  refine .past .startPos fun (start, line) => .past .advance fun _ => .past (.consumeName _)
    fun name => .past (.describe _) fun _ => .past (.check _) fun _ =>
      .branch (.parameters hr) (.pure fun _ => .pair .nil .nil) fun (required, optional) =>
        .bind (.superclass hr) fun (base, superArgs) => .past (.consume ..) fun brace =>
          .bind (.inBody ?_) fun _ => .ite
            (.past (.spanFrom _) fun _ => .pure fun h => addMethod h.2 (L.header _ _ _ h.2))
            (.pure And.right)
  refine .bind (.repeatUpTo (fun h => ?_) fun c => ?_) fun _ => .past (.closeBlock _) fun _ =>
    .pure And.right
  · exact .pair h.2.snd (.pair (.append h.1.2.fst h.1.2.snd) (.pair .nil .nil))
  · exact .past .bodyEnds fun _ => .ite (.turn id) (.bind (.classMember hr id) fun _ =>
      .turn And.right)

theorem enumVariant : Makes L H (enumVariant rules) :=
  .inNode (.past (.consumeName _) fun _ =>
    .bind (.after (.bind hr.type fun _ => .past (.consume ..) fun _ => .pure And.right)) fun _ =>
      .pure And.right)

theorem enumDeclaration : Makes L H (enumDeclaration rules) := by
  refine .past .advance fun _ => .past (.consumeName _) fun _ => .past (.describe _) fun _ =>
    .past (.consume ..) fun brace => .bind (.inBody ?_) fun _ => .pure fun h => .stmt h.2 rfl rfl
  exact .bind (.commaList (.enumVariant hr)) fun (_, _) => .past (.closeBlock _) fun _ =>
    .past .atEnd fun _ => .guarded (d := id) .giveUp (.pure fun h => h.2.fst)

theorem typeDeclaration : Makes L H (typeDeclaration rules) :=
  .past .advance fun _ => .past (.consumeName _) fun _ => .past (.consume ..) fun _ =>
    .bind hr.type fun _ => .past (.eat _) fun _ => .pure fun h => .stmt h.2 rfl rfl

theorem traitDeclaration (mods : Modifiers) (keyword : String) :
    Makes L H (traitDeclaration rules mods keyword) := by
  refine .past .advance fun _ => .past (.check _) fun _ => .guarded (.inNode _ .advance) <|
    .past (.consumeName _ append_append_ne_tooManyErrors) fun _ => .past (.describe _) fun _ =>
      .past (.consume _ append_append_ne_tooManyErrors _) fun brace => .bind (.inBody
        (.bind (.repeatUpTo (fun _ => .nil) fun methods => ?_) fun _ =>
          .past (.closeBlock _ append_append_ne_tooManyErrors) fun _ => .pure And.right)) fun _ =>
            .pure fun h => .pair (.bare rfl) (.pair (.bare rfl) h.2.reverse)
  exact .past .bodyEnds fun _ => .ite (.turn id) <| .past (.check _) fun _ =>
    .guarded (d := id) (.fail _ append_append_ne_tooManyErrors)
      (.bind (.inNode (.functionDeclaration hr {})) fun _ => .turn fun h => .cons h.2 h.1)

omit hr in
theorem addMember {parts : ModuleParts} {member : Option Stmt} (hparts : L.Meets parts)
    (hmember : L.Meets member) (kind : Token.Kind) : L.Meets (parts.add kind member) := by
  have heveryone := hparts.fst
  have hheirs := hparts.snd.fst
  have howner := hparts.snd.snd
  unfold ModuleParts.add
  split
  · exact .pair (.append hmember heveryone) (.pair hheirs howner)
  · exact .pair heveryone (.pair (.append hmember hheirs) howner)
  · exact .pair heveryone (.pair hheirs (.append hmember howner))

theorem moduleDeclaration : Makes L H (moduleDeclaration rules) := by
  refine .past .advance fun _ => .past (.consumeName _) fun _ => .past (.describe _) fun _ =>
    .past (.consume ..) fun brace => .bind (.inBody
      (.bind (.deeper (.repeatUpTo (fun _ => .bare rfl) fun parts => ?_)) fun _ =>
        .past (.closeBlock _) fun _ => .pure And.right)) fun _ => .pure fun h =>
          .stmt (.pair h.2.fst.reverse (.pair h.2.snd.fst.reverse h.2.snd.snd.reverse)) rfl rfl
  exact .past .bodyEnds fun _ => .ite (.turn id) <| .past .peek fun _ =>
    .bind (.nextDeclaration hr) fun _ => .turn fun h => addMember h.1 h.2 _

theorem classStatement (hc : rules.MakeClasses L) (mods : Modifiers) :
    MakesAt L H .kwClass
      (do return StmtKind.classDecl (← Grammar.classDeclaration rules mods)) where
  tame := .bind (classDeclaration (H := H) hr mods).tame fun _ => .pure _
  meets hH i s t kind heof hs hnext hexec hspent := by
    obtain ⟨c, u, hclass, hdone⟩ := exec_bind_eq_ok hexec
    cases hdone
    exact .classDecl (hc mods heof hs hnext hclass)
      ((classDeclaration hr mods).meets hH heof hs hclass hspent)

theorem declarationOf (hc : rules.MakeClasses L) (mods : Modifiers) {kind : Token.Kind}
    {node : Tree.Kind} (hnode : node = .classDeclaration → kind = .kwClass) :
    MakesAt L H kind (declarationOf rules mods node) := by
  unfold Grammar.declarationOf
  split
  case h_1 =>
    rw [hnode rfl]
    exact classStatement hr hc mods
  all_goals apply MakesAt.always
  · exact .bind (.functionDeclaration hr mods) fun _ => .pure fun h => .stmt h.2 rfl rfl
  · exact .destructuring hr
  · exact .bind (.varDeclaration hr mods) fun _ => .pure fun h => .stmt h.2 rfl rfl
  · exact .enumDeclaration hr
  · exact .past (Twin.importDeclaration rules).alike fun _ => .pure fun _ => .stmtLeaf rfl rfl
  · exact .typeDeclaration hr
  · exact .bind (.traitDeclaration hr ..) fun (_, _, _) => .pure fun h => .stmt h.2.snd.snd rfl rfl
  · exact .bind (.traitDeclaration hr ..) fun (_, _, _) => .pure fun h => .stmt h.2.snd.snd rfl rfl
  · exact .moduleDeclaration hr

section
variable (he : ∀ {G : Prop}, Makes L G (exprRule rules)) (hc : rules.MakeClasses L)
include he hc

theorem declarationRule : Makes L H (declarationRule rules) := by
  refine .past .startPos fun (_, _) => .past .checkpoint fun c => .past (Twin.modifiers rules).alike
    fun mods => .peek fun _ => .peekAt fun _ => ?_
  split
  case h_1 => exact .always (.statementRule hr he)
  case h_2 node hdeclares =>
    have hclass (h : node = .classDeclaration) := kind_of_declarationNode? (h ▸ hdeclares)
    exact .bind (.inNodeAt (declarationOf hr hc mods hclass)) fun _ => .past (.spanFrom _) fun _ =>
      .pure And.right

theorem recoveredRule : Makes L H (recoveredRule rules) :=
  .recovering (fun progress => (Twin.synchronize rules progress).alike)
    (.declarationRule hr he hc)

end

end Makes

/-! ## Programs -/

/-- The rules for expressions and for classes meet the law if whatever they call does. -/
structure Law.Kept (L : Law) : Prop where
  expression : ∀ {n : Nat}, (Rules.upTo n).Make L →
    ∀ {H : Prop}, Makes L H (exprRule (.upTo n))
  power : ∀ {n : Nat}, (Rules.upTo n).Make L → ∀ {H : Prop}, Makes L H (powerRule (.upTo n))
  unary : ∀ {n : Nat}, (Rules.upTo n).Make L → ∀ {H : Prop}, Makes L H (unaryRule (.upTo n))
  classes : ∀ {n : Nat}, (Rules.upTo n).MakeClasses L

theorem Makes.spent {α : Type} [HasNodes α] {L : Law} {H : Prop} :
    Makes L H (do spend; Grammar.giveUp : Parse α) :=
  .past .spend fun _ => .giveUp

/-- If the rules for expressions and classes keep to a law, then all do. -/
theorem Rules.make_upTo {L : Law} (hL : L.Kept) (n : Nat) : (Rules.upTo n).Make L := by
  induction n with
  | zero =>
    refine ⟨Rules.lawful_upTo 0, ?_, ?_, ?_, ?_, ?_, ?_, ?_, ?_, ?_, ?_⟩
    all_goals exact .spent
  | succ n hr => exact {
      lawful := Rules.lawful_upTo (n + 1)
      expression := hL.expression hr
      power := hL.power hr
      unary := hL.unary hr
      type := .typeWith hr true
      basicType := .basicTypeRule hr
      pattern := .patternRule hr
      ifStatement := .ifRule hr
      statement := .statementRule hr (hL.expression hr)
      declaration := .declarationRule hr (hL.expression hr) hL.classes
      recovered := .recoveredRule hr (hL.expression hr) hL.classes }

theorem Makes.topDeclaration {rules : Rules} {L : Law} {H : Prop} (hr : rules.Make L)
    (he : ∀ {G : Prop}, Makes L G (exprRule rules)) (hc : rules.MakeClasses L) :
    Makes L H (topDeclaration rules) := by
  refine .following .get fun _ => .past (.check _) fun _ => .ite
    (.past Twin.strayBrace.alike fun _ => .bind (.pure fun _ => .none) fun _ =>
      .following .get fun _ => ?_)
    (.bind (.recoveredRule hr he hc) fun _ => .following .get fun _ => ?_)
  all_goals exact .past .atEnd fun _ => .guarded .advance (.pure And.right)

/-- If the rules for expressions and classes keep to a law, then programs do. -/
theorem Makes.topDeclarations {L : Law} {H : Prop} (hL : L.Kept) (n : Nat) :
    Makes L H (topDeclarations (.upTo n)) := by
  have hr : Rules.Make (.upTo n) L := Rules.make_upTo hL n
  refine .bind (.repeatUpTo (fun _ => .nil) fun stmts => ?_) fun _ => .pure fun h => h.2.reverse
  exact .past .atEnd fun _ => .following .get fun _ => .ite (.turn id) <|
    .bind (.topDeclaration hr (hL.expression hr) hL.classes) fun _ =>
      .turn fun h => .append h.2.toList h.1

end Grammar

end LimitSyntax
