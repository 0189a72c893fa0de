import LimitSyntax.Proofs.Makes

/-!
# Syntax that meets a law: types, patterns and bodies

The rules for types and patterns, and the parts that expressions, statements and declarations share,
make syntax that meets a law if the rules they call do.
-/

namespace LimitSyntax.Grammar

open Ast

/-! ## Parts that are put together later -/

instance : HasNodes RecordParts := ⟨fun parts => nodes parts.fields⟩
instance : HasNodes ListPatternParts := ⟨fun parts => nodes parts.elements⟩
instance : HasNodes DictPatternParts := ⟨fun _ => []⟩

namespace Makes

variable {rules : Rules} {L : Law} {H : Prop} (hr : rules.Make L)
include hr

/-! ## Types -/

theorem listType : Makes L H (listType rules) :=
  .past .advance fun _ => .past (.check _) fun _ =>
    .branch (.pure fun _ => .none) (.map hr.type .some) fun _ => .past (.consume ..) fun _ =>
      .pure fun h => .type h.2 rfl

omit hr in
/-- A type without suffix or refinement. -/
theorem plain {kind : TypeKind} {start line : Nat} (h : H → L.Meets kind) :
    Makes L H (do return TypeExpr.plain kind (← Grammar.spanFrom start) line) :=
  .past (.spanFrom _) fun _ => .pure fun hH => .plain (h hH)

theorem tupleType : Makes L H (tupleType rules) := by
  refine .past .startPos fun (start, line) => .past .advance fun _ =>
    .bind (.commaList hr.type) fun (members, comma) => .past (.consume ..) fun _ => ?_
  split
  · exact .pure fun h => h.2.fst.mem List.mem_cons_self
  · exact .plain fun h => .type h.2.fst rfl

theorem dictType : Makes L H (dictType rules) :=
  .past .advance fun _ => .bind hr.basicType fun _ => .past (.consume ..) fun _ =>
    .bind hr.type fun _ => .past (.consumeClose ..) fun _ =>
      .pure fun h => .type (.pair h.1.2 h.2) rfl

theorem recordPart {parts : RecordParts} (hparts : H → L.Meets parts) :
    Makes L H (recordPart rules parts) := by
  have hrest : ∀ {G : Prop} {parts : RecordParts}, (G → L.Meets parts) →
      Makes L G (Pure.pure parts >>= fun parts => do let _ ← Grammar.eat .comma; return parts) :=
    fun h => .bind (.pure h) fun _ => .past (.eat _) fun _ => .pure And.right
  refine .past (.eat _) fun _ => .ite ?_ ?_
  · exact .past (.check _) fun _ => .ite (.past .advance fun _ => hrest hparts) (hrest hparts)
  · exact .past Twin.typeFieldName.alike fun _ => .past (.consume ..) fun _ => .bind hr.type fun _ =>
      hrest fun h => .append (hparts h.1) (.cons h.2 .nil)

theorem recordType (start line : Nat) : Makes L H (recordType rules start line) := by
  refine .past .advance fun _ => .bind (.repeatUpTo (fun _ => .nil) fun parts => ?_) fun _ =>
    .past (.consumeClose ..) fun _ => .plain fun h => .type h.2 rfl
  exact .past (.check _) fun _ => .past .atEnd fun _ =>
    .ite (.turn id) (.bind (.recordPart hr id) fun _ => .turn And.right)

theorem typeParam : Makes L H (typeParam rules) := by
  refine .inNode (.past Twin.startsWithParamName.alike fun _ =>
    .ite ?_ (.bind hr.type fun _ => .pure And.right))
  exact .past .advance fun t => .past (.eat _) fun _ => .past (.consume ..) fun _ =>
    .guarded (.reportAt t _ append_ne_tooManyErrors) (.bind hr.type fun _ => .pure And.right)

theorem typeParams : Makes L H (typeParams rules) :=
  .bind (.commaList (.typeParam hr)) fun (_, _) => .past (.consume ..) fun _ =>
    .pure fun h => h.2.fst

theorem functionType : Makes L H (functionType rules) :=
  .past .advance fun _ => .past (.consume ..) fun _ => .bind (.typeParams hr) fun _ =>
    .past (.eat _) fun _ => .ite
      (.bind hr.type fun _ => .pure fun h => .type (.pair h.1.2 (.some h.2)) rfl)
      (.past .previous fun _ => .bind (.pure fun _ => .plain (.typeLeaf rfl)) fun _ =>
        .pure fun h => .type (.pair h.1.2 (.some h.2)) rfl)

theorem keywordFunctionType : Makes L H (keywordFunctionType rules) :=
  .past .advance fun _ => .past (.eat _) fun _ =>
    .branch (.typeParams hr) (.pure fun _ => .nil) fun _ => .bind (.after hr.basicType) fun _ =>
      .pure fun h => .type (.pair h.1.2 h.2) rfl

omit hr in
/-- A type of one word. -/
theorem typeWord {kind : Token → TypeKind} (h : ∀ t, (Node.type (kind t)).children = []) :
    Makes L H (do let t ← Grammar.advance; return kind t) :=
  .past .advance fun t => .pure fun _ => .typeLeaf (h t)

theorem simpleType (kind : Token.Kind) : Makes L H (simpleType rules kind) := by
  unfold Grammar.simpleType
  split
  · exact .listType hr
  iterate 2 · exact .typeWord fun _ => rfl
  · exact .dictType hr
  · exact .typeWord fun _ => rfl
  · exact .functionType hr
  · exact .keywordFunctionType hr
  all_goals exact .typeWord fun _ => rfl

omit hr in
theorem typeSuffix {t : TypeExpr} (ht : H → L.Meets t) : Makes L H (typeSuffix rules t) :=
  .past (.eat _) fun _ => .ite
    (.past (.check _) fun _ => .ite (.past (.errorTypes rules) fun _ => .pure ht) (.pure ht))
    (.pure ht)

theorem basicTypeRule : Makes L H (basicTypeRule rules) := by
  refine .past .startPos fun (start, line) => .past .peek fun first =>
    .past (.peekAt 1) fun second => ?_
  split
  · exact .fail (by decide)
  · refine .bind (.inNode ?_) fun _ => .past (.spanFrom _) fun _ => .pure And.right
    split
    · exact .bind (.tupleType hr) fun _ => .typeSuffix And.right
    · exact .bind (.recordType hr start line) fun _ => .typeSuffix And.right
    · exact .bind (.simpleType hr first.kind) fun _ => .past (.spanFrom _) fun _ =>
        .bind (.pure fun h => .plain h.2) fun _ => .typeSuffix And.right

theorem typeMembers {separator : Token.Kind} {first : TypeExpr} (hfirst : H → L.Meets first) :
    Makes L H (typeMembers rules separator first) := by
  refine .bind (.repeatUpTo (fun h => .cons (hfirst h) .nil) fun members => ?_) fun _ =>
    .pure fun h => h.2.reverse
  exact .past (.eat _) fun _ =>
    .ite (.bind (.basicTypeRule hr) fun _ => .turn fun h => .cons h.2 h.1) (.turn id)

theorem typeWith (refinable : Bool) : Makes L H (typeWith rules refinable) := by
  refine .past .checkpoint fun c => .past .startPos fun (start, line) =>
    .bind (.basicTypeRule hr) fun first => .past .peek fun t => ?_
  split
  · exact .bind (.inNodeAt (.typeMembers hr And.right)) fun _ => .plain fun h => .type h.2 rfl
  · exact .bind (.inNodeAt (.typeMembers hr And.right)) fun _ => .plain fun h => .type h.2 rfl
  · exact .ite (.bind (.inNodeAt (.past .advance fun _ => hr.expression)) fun _ =>
      .past (.spanFrom _) fun _ => .pure fun h => .pair h.1.2.fst (.some h.2)) (.pure And.right)
  · exact .pure And.right

/-! ## Patterns -/

theorem listPattern : Makes L H (listPattern rules) := by
  have hrest : ∀ {G : Prop} {parts : ListPatternParts}, (G → L.Meets parts) →
      Makes L G (Pure.pure parts >>= fun parts => do return (parts, ← Grammar.eat .comma)) :=
    fun h => .bind (.pure h) fun _ => .past (.eat _) fun _ => .turn And.right
  refine .past .advance fun _ => .bind (.repeatUpTo (fun _ => .nil) fun parts => ?_) fun _ =>
    .past (.consume ..) fun _ => .pure fun h => .pattern h.2 rfl
  exact .past (.check _) fun _ => .past .atEnd fun _ => .ite (.turn id) <| .past (.eat _) fun _ =>
    .ite (.past (.consumeName _) fun _ => hrest id)
      (.bind hr.pattern fun _ => hrest fun h => .append h.1 (.cons h.2 .nil))

omit hr in
/-- A pattern that has no patterns or types in it. -/
theorem patternLeaf {kind : PatternKind} (h : (Node.pattern kind).children = []) :
    Makes L H (Pure.pure kind) :=
  .pure fun _ => .patternLeaf h

omit hr in
theorem dictPattern : Makes L H (dictPattern rules) := by
  have hrest : ∀ {G : Prop} (parts : DictPatternParts),
      Makes L G (Pure.pure parts >>= fun parts => do return (parts, ← Grammar.eat .comma)) :=
    fun _ => .bind (.pure fun _ => .bare rfl) fun _ => .past (.eat _) fun _ => .turn And.right
  refine .past .advance fun _ => .bind (.repeatUpTo (fun _ => .bare rfl) fun parts => ?_) fun _ =>
    .past (.consumeClose ..) fun _ => .patternLeaf rfl
  exact .past (.check _) fun _ => .past .atEnd fun _ => .ite (.turn id) <| .past (.eat _) fun _ =>
    .ite (.past (.check _) fun _ => .ite (.past .advance fun _ => hrest _) (hrest _))
      (.past Twin.fieldBinding.alike fun _ => hrest _)

theorem tuplePattern : Makes L H (tuplePattern rules) :=
  .past .advance fun _ => .bind (.commaList hr.pattern) fun (_, _) => .past (.consume ..) fun _ =>
    .pure fun h => .pattern h.2.fst rfl

theorem patternOf (node : Tree.Kind) (first : Token) :
    Makes L H (patternOf rules node first) := by
  unfold Grammar.patternOf
  split
  · exact .past .advance fun _ => .past (.consumeName _) fun _ => .patternLeaf rfl
  · exact .past .advance fun _ => .past (.consumeName _) fun _ => .patternLeaf rfl
  · exact .past .advance fun _ => .past (.eat _) fun _ => .ite
      (.past (.commaList rules _ (.consumeName _)) fun (_, _) => .past (.consume ..) fun _ =>
        .patternLeaf rfl) (.patternLeaf rfl)
  · exact .past .advance fun _ => .patternLeaf rfl
  · exact .listPattern hr
  · exact .dictPattern
  · exact .tuplePattern hr
  · exact .past .advance fun _ => .past .advance fun _ => .past (.consumeName _) fun _ =>
      .past (.consume ..) fun _ => .patternLeaf rfl
  · exact .past .advance fun _ => .patternLeaf rfl
  · exact .past .advance fun _ => .patternLeaf rfl

theorem patternRule : Makes L H (patternRule rules) := by
  refine .past .startPos fun (start, line) => .past .peek fun first =>
    .past (.peekAt 1) fun second => ?_
  split
  · exact .fail (by decide)
  · exact .past .checkpoint fun c => .bind (.typeWith hr false) fun _ =>
      .past (.inNodeAt (e := id) c _ (.pure _)) fun _ => .past (.spanFrom _) fun _ =>
        .pure fun h => .pattern h.2 rfl
  · exact .bind (.inNode (.patternOf hr _ _)) fun _ => .past (.spanFrom _) fun _ =>
      .pure And.right

/-! ## Bodies, parameters, arguments and variables -/

theorem nextDeclaration : Makes L H (nextDeclaration rules) :=
  .following .get fun _ => .bind hr.recovered fun _ => .following .get fun _ => .past (.check _) fun _ =>
    .guarded .advance (.pure And.right)

theorem declarations : Makes L H (declarations rules) := by
  refine .bind (.repeatUpTo (fun _ => .nil) fun stmts => ?_) fun _ => .pure fun h => h.2.reverse
  exact .past .bodyEnds fun _ => .ite (.turn id) <| .bind (.nextDeclaration hr) fun _ =>
    .turn fun h => .append h.2 h.1

theorem blockBody (brace : Token) (kind : String) : Makes L H (blockBody rules brace kind) :=
  .bind (.inBody (.deeper (.bind (.declarations hr) fun _ => .past (.closeBlock _) fun _ =>
    .pure And.right))) fun _ => .past (.spanFrom _) fun _ => .pure And.right

theorem block {kind description : String}
    (h : autoParam (description ≠ tooManyErrors) Rat.reduced._autoParam) :
    Makes L H (block rules kind description) :=
  .inNode (.past (.consume description h _) fun brace => .blockBody hr brace kind)

theorem parameter : Makes L H (parameter rules) := by
  refine .past .startPos fun (start, line) => .bind (.inNode ?_) fun (_, _, _) =>
    .past (.spanFrom _) fun _ => .pure fun h => h.2.snd
  exact .past (.consumeName _) fun _ => .bind (.after hr.type) fun _ =>
    .bind (.after hr.expression) fun _ => .pure fun h => .pair (.bare rfl) (.pair h.1.2 h.2)

theorem parameters : Makes L H (parameters rules) :=
  .inNode (.past (.consume ..) fun _ => .past (.check _) fun _ =>
    .branch (.pure fun _ => .nil) (.commaSeparated (.parameter hr)) fun _ =>
      .past (.consume ..) fun _ => .pure fun h => .pair (h.2.filter _) (h.2.filter _))

theorem arguments : Makes L H (arguments rules) :=
  .inNode (.past .advance fun _ => .past (.check _) fun _ =>
    .branch (.pure fun _ => .nil) (.commaSeparated hr.expression) fun _ =>
      .past (.consume ..) fun _ => .pure And.right)

theorem varDeclaration (mods : Modifiers) : Makes L H (varDeclaration rules mods) :=
  .past (.eat _) fun _ => .past (.consumeName _) fun _ => .past (.describe _) fun _ =>
    .bind (.after hr.type) fun _ => .bind (.after hr.expression) fun _ => .past (.eat _) fun _ =>
      .pure fun h => .pair h.1.2 h.2

end Makes

end LimitSyntax.Grammar
