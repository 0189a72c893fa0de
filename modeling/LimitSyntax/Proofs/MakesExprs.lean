import LimitSyntax.Proofs.Levels
import LimitSyntax.Proofs.MakesDecls
import LimitSyntax.Proofs.SparingDecls

/-!
# Syntax that meets a law: expressions

A law is lenient if it asks nothing of graded expressions, of strings with interpolations apart
(`Grammar.Law.Lenient`). The operands that the rules for expressions yield are of the levels that
their operators ask for, so these rules keep to every lenient law under which strings with
interpolations can be read (`Grammar.Law.Lenient.kept`).
-/

namespace LimitSyntax

namespace Ast

def ExprKind.isInterpolated : ExprKind → Bool
  | .interpolated _ => true
  | _ => false

/-- Nothing is asked of graded expressions, unless they are strings with interpolations, and of what
is no expression and no class, tasks outside of concurrency blocks apart. -/
structure Lenient (outside : Bool) (P : Node → Prop) : Prop where
  graded : ∀ {kind : ExprKind}, kind.Graded → kind.isInterpolated = false → P (.expr kind)
  other : ∀ n : Node, n.isAsked = false → (n.isTask = true → outside = false) → P n

namespace Lenient

variable {outside : Bool} {P : Node → Prop} (hP : Lenient outside P) {α : Type} [HasNodes α] {a : α}
include hP

/-- An expression without a text of its own. -/
theorem expr {kind : ExprKind} {span : Span} {line : Nat} (hgraded : kind.Graded)
    (hkind : kind.isInterpolated = false) (ha : Throughout outside P a)
    (h : (Node.expr kind).children = nodes a) : Throughout outside P (Expr.mk kind span line) :=
  List.forall_mem_singleton.2 (Throughout.node (hP.graded hgraded hkind) ha h)

/-- The constructor that the header of a class makes has graded expressions only. -/
theorem headerConstructor (c : ClassDecl) (span : Span) (line : Nat)
    (h : Throughout outside P c) : Throughout outside P (c.headerConstructor span line) := by
  have hstmt : ∀ kind : ExprKind, Throughout outside P (Expr.mk kind span line) →
      Throughout outside P (Stmt.mk (.expression ⟨kind, span, line⟩) span line) :=
    fun kind hkind => List.forall_mem_singleton.2 (Throughout.node (hP.other _ rfl nofun) hkind rfl)
  have hleaf : ∀ kind : ExprKind, kind.Graded → kind.isInterpolated = false →
      (Node.expr kind).children = [] → Throughout outside P (Expr.mk kind span line) :=
    fun kind hgraded hkind hchildren => hP.expr (a := ([] : List Expr)) hgraded hkind .nil hchildren
  have hparams := h.snd.fst
  refine .pair (hparams.filter _) (.pair (hparams.filter _) (.pair .none (.some (.append ?_ ?_))))
  · split
    · refine .cons (hstmt _ (hP.expr rfl rfl (.pair ?_ (.pair h.fst .nil)) rfl)) .nil
      exact hP.expr rfl rfl (hleaf .super trivial rfl rfl) rfl
    · exact .nil
  · refine .of_list fun stmt hmem => ?_
    obtain ⟨p, -, rfl⟩ := List.mem_map.1 hmem
    refine hstmt _ (hP.expr rfl rfl (.pair ?_ (hleaf (.variable _) trivial rfl rfl)) rfl)
    exact hleaf .self trivial rfl rfl

end Lenient

end Ast

namespace Grammar

open Ast

instance : HasNodes Token := ⟨fun _ => []⟩

instance : HasNodes Argument where
  nodes
    | .positional e | .named _ e => nodes e

/-- A law of which the rules need to know little: it is lenient, strings with interpolations and
classes meet it as they are read, and so does an assignment to an expression that meets it. -/
structure Law.Lenient (L : Law) : Prop extends Ast.Lenient L.outside L.holds where
  strings : ∀ {rules : Rules}, rules.Make L → ∀ {H : Prop},
    MakesAt L H .interpolationStart (interpolatedString rules)
  targets : ∀ {e : Expr} {target : AssignTarget}, L.Meets e → assignTarget? e = some target →
    ∀ op value, L.holds (.expr (.assign target op value))
  classes : ∀ {n : Nat}, (Rules.upTo n).MakeClasses L

namespace Law.Meets

variable {L : Law} (hL : Ast.Lenient L.outside L.holds) {α : Type} [HasNodes α] {a : α}
include hL

/-- An expression that is graded and no string with interpolations. -/
theorem graded {kind : ExprKind} (hgraded : kind.Graded) (hkind : kind.isInterpolated = false)
    (ha : L.Meets a) (h : (Node.expr kind).children = nodes a) : L.Meets kind :=
  .expr (hL.graded hgraded hkind) ha h

/-- An expression of a kind that asks nothing of its operands. -/
theorem leaf {kind : ExprKind} (hgraded : kind.Graded) (hkind : kind.isInterpolated = false)
    (h : (Node.expr kind).children = []) : L.Meets kind :=
  .graded hL (a := ([] : List Expr)) hgraded hkind .nil h

omit hL in
/-- What an expression is does not depend on where it stands. -/
theorem ofKind {e : Expr} (h : L.Meets e.kind) : L.Meets e := h

end Law.Meets

namespace Makes

variable {L : Law} {H : Prop}

section
variable {start line : Nat}

theorem exprFrom {kind : ExprKind} (h : H → L.Meets kind) :
    Makes L H (exprFrom kind start line) :=
  .past (.spanFrom _) fun _ => .pure h

/-- An expression that is a node of its own. -/
theorem exprNode {p : Parse ExprKind} {node : Tree.Kind} (h : Makes L H p) :
    Makes L H (do Grammar.exprFrom (← Grammar.inNode node p) start line) :=
  .bind (.inNode h) fun _ => .exprFrom And.right

/-- An expression of one token. -/
theorem word {kind : ExprKind} {node : Tree.Kind} (h : L.Meets kind) :
    Makes L H (do
      Grammar.exprFrom
        (← Grammar.inNode node do
          let _ ← Grammar.advance
          return kind) start line) :=
  .exprNode (.past .advance fun _ => .pure fun _ => h)

end

variable {rules : Rules} (hL : L.Lenient) (hr : rules.Make L)

/-! ## Primary expressions -/

section
include hr

theorem argument : Makes L H (argument rules) :=
  .past (.check _) fun _ => .past (.checkAt ..) fun _ => .ite
    (.past .advance fun _ => .past .advance fun _ => .bind hr.expression fun _ => .pure And.right)
    (.bind hr.expression fun _ => .pure And.right)

theorem callArguments : Makes L H (callArguments rules) := by
  refine .inNode (.past .advance fun _ => .past (.check _) fun _ =>
    .branch (.pure fun _ => .nil) (.commaSeparated (.argument hr)) fun args =>
      .past (.consume ..) fun _ => .pure fun h => .pair (h.2.filterMap ?_) (h.2.filterMap ?_))
  · rintro (e | ⟨name, e⟩) _ hpositional
    · cases hpositional
      exact List.Subset.refl _
    · cases hpositional
  · rintro (e | ⟨name, e⟩) _ hnamed
    · cases hnamed
    · cases hnamed
      exact List.Subset.refl _

theorem failureHandler : Makes L H (failureHandler rules) := by
  have hrest : ∀ {G : Prop} (name : Option String), Makes L G (Pure.pure name >>=
      fun name => do return (name, some (← rules.call .statement))) := by
    intro G name
    rw [pure_bind]
    exact .bind hr.statement fun _ =>
      .pure fun h => .pair (.bare (by cases name <;> rfl)) (.some h.2)
  exact .past (.eat _) fun _ => .ite (.past (.check _) fun _ => .past (.checkAt ..) fun _ =>
    .ite (.past .advance fun _ => hrest _) (hrest _)) (.pure fun _ => .pair .none .none)

end

include hr in
/-- A string whose parts are asked nothing. -/
theorem interpolatedString (h : ∀ parts, L.holds (.expr (.interpolated parts))) :
    Makes L H (interpolatedString rules) := by
  have hend : ∀ {G : Prop} (parts : List StringPart), (G → L.Meets parts) →
      Makes L G (Pure.pure parts >>= fun parts => do
        return ExprKind.interpolated parts.reverse) := by
    intro G parts hparts
    rw [pure_bind]
    exact .pure fun hG => .expr (h _) (hparts hG).reverse rfl
  refine .bind (.repeatUpTo (fun _ => .nil) fun parts => .past (.check _) fun _ => .ite ?_ (.turn id))
    fun parts => .past (.check _) fun _ => .ite ?_ (hend parts And.right)
  · exact .past .advance fun _ => .bind hr.expression fun _ => .past (.consumeClose ..) fun _ =>
      .turn fun h => .cons h.2 (.cons (.bare rfl) h.1)
  · exact .past .advance fun t => hend (.str t.text :: parts) fun h => .cons (.bare rfl) h.2

section
include hL hr

theorem objectLiteral : Makes L H (objectLiteral rules) := by
  refine .past .advance fun _ => .past .advance fun _ => .bind (.commaList ?_) fun (_, _) =>
    .past (.consumeClose ..) fun _ => .pure fun h => .graded hL.1 trivial rfl h.2.fst rfl
  exact .past (.consumeName _) fun _ => .past (.consume ..) fun _ => .bind hr.expression fun _ =>
    .pure fun h => .pair (.bare rfl) h.2

theorem errorValue : Makes L H (errorValue rules) :=
  .past .advance fun _ => .past (.consume ..) fun _ => .past (.consumeName _) fun _ =>
    .past (.check _) fun _ => .branch (.arguments hr) (.pure fun _ => .nil) fun _ =>
      .past (.consume ..) fun _ => .pure fun h => .graded hL.1 trivial rfl h.2 rfl

theorem okValue : Makes L H (okValue rules) :=
  .past .advance fun _ => .past (.consume ..) fun _ => .bind hr.expression fun _ =>
    .past (.consume ..) fun _ => .pure fun h => .graded hL.1 trivial rfl h.2 rfl

theorem lambda : Makes L H (lambda rules) :=
  .past .advance fun _ => .past (.check _) fun _ => .guarded (d := id) (.fail _) <|
    .bind (.parameters hr) fun (_, _) => .bind (.after hr.type) fun _ =>
      .bind (.block hr (by decide)) fun _ => .pure fun h =>
        .graded hL.1 trivial rfl (.pair (.append h.1.1.2.fst h.1.1.2.snd) (.pair h.1.2 h.2)) rfl

theorem parenthesized : Makes L H (parenthesized rules) := by
  refine .past .checkpoint fun c => .past .startPos fun (_, _) => .past .advance fun _ =>
    .past (.eat _) fun _ => .ite ?_ (.bind hr.expression fun _ => .past (.check _) fun _ =>
      .ite ?_ ?_)
  · exact .past (.inNodeAt (e := id) c _ (.pure _)) fun _ =>
      .exprFrom fun _ => .leaf hL.1 trivial rfl rfl
  · refine .bind (.inNodeAt (.bind (.repeatUpTo (fun h => .cons h.2 .nil) fun elements => ?_)
      fun _ => .past (.consume ..) fun _ => .pure fun h => h.2.reverse)) fun _ =>
        .exprFrom fun h => .graded hL.1 trivial rfl h.2 rfl
    exact .past (.eat _) fun _ => .ite
      (.past (.check _) fun _ => .ite (.turn id) (.bind hr.expression fun _ =>
        .turn fun h => .cons h.2 h.1)) (.turn id)
  · exact .following (.inNodeAt (.bind (Alike.consume ..).tame fun _ => .pure _)) fun _ =>
      .exprFrom fun h => .graded hL.1 trivial rfl h.2 rfl

theorem listLiteral : Makes L H (listLiteral rules) :=
  .past .advance fun _ => .bind (.commaList hr.expression) fun (_, _) =>
    .past (.consume ..) fun _ => .pure fun h => .graded hL.1 trivial rfl h.2.fst rfl

theorem dictLiteral : Makes L H (dictLiteral rules) := by
  refine .past .advance fun _ => .bind (.commaList ?_) fun (_, _) =>
    .past (.consumeClose ..) fun _ => .pure fun h => .graded hL.1 trivial rfl h.2.fst rfl
  exact .bind hr.expression fun _ => .past (.consume ..) fun _ => .bind hr.expression fun _ =>
    .pure fun h => .pair h.1.2 h.2

omit hr in
theorem missingExpr (start line : Nat) : Makes L H (missingExpr start line) :=
  .past (.reportHere _) fun _ => .past (.inNode (e := id) _ (.pure _)) fun _ =>
    .pure fun _ => .ofKind (.leaf hL.1 trivial rfl rfl)

theorem primary : Makes L H (primary rules) := by
  refine .past .startPos fun (start, line) => .peek fun t => ?_
  dsimp only
  split
  · exact .always (.word (.leaf hL.1 trivial rfl rfl))
  split
  next hkind =>
    rw [hkind]
    exact .bind (.inNode (hL.strings hr)) fun _ => .exprFrom And.right
  · exact .always (.word (.leaf hL.1 trivial rfl rfl))
  · exact .always (.word (.leaf hL.1 trivial rfl rfl))
  · exact .always (.word (.leaf hL.1 trivial rfl rfl))
  · exact .always (.past (.checkAt ..) fun _ => .ite (.exprNode (.objectLiteral hL hr))
      (.word (.leaf hL.1 trivial rfl rfl)))
  · exact .always (.exprNode (.errorValue hL hr))
  · exact .always (.exprNode (.okValue hL hr))
  · exact .always (.exprNode (.lambda hL hr))
  · exact .always (.parenthesized hL hr)
  · exact .always (.exprNode (.listLiteral hL hr))
  · exact .always (.exprNode (.dictLiteral hL hr))
  · exact .always (.past (.noteError _) fun _ => .giveUp)
  iterate 5 · exact .always (.missingExpr hL start line)
  · exact .always (.fail (by decide))

/-! ## What follows a primary expression -/

omit hr in
theorem tupleIndex : Makes L H tupleIndex :=
  .past .advance fun t => .guarded (.reportAt t _ append_ne_tooManyErrors) <|
    .pure fun _ => .ofKind (.leaf hL.1 trivial rfl rfl)

theorem applied? (c : Option Tree.Checkpoint) {e : Expr} (he : H → L.Meets e ∧ e.level = 9) :
    Makes L H (applied? rules c e) := by
  refine .past .peek fun t => ?_
  split
  · refine .map (.inNodeAt (.bind (.callArguments hr) fun (_, _) => .pure fun h => ?_)) .some
    exact .graded hL.1 (he h.1).2 rfl (.pair (he h.1).1 h.2) rfl
  · refine .past (.peekAt 1) fun _ => .ite (.map (.inNodeAt ?_) .some) (.map (.inNodeAt ?_) .some)
    · exact .past .advance fun _ => .bind (.tupleIndex hL) fun _ =>
        .pure fun h => .graded hL.1 (he h.1).2 rfl (.pair (he h.1).1 h.2) rfl
    · exact .past .advance fun _ => .past (.consumeName _) fun _ =>
        .pure fun h => .graded hL.1 (he h).2 rfl (he h).1 rfl
  · exact .map (.inNodeAt (.past .advance fun _ => .bind hr.expression fun _ =>
      .past (.consume ..) fun _ => .pure fun h =>
        .graded hL.1 (he h.1).2 rfl (.pair (he h.1).1 h.2) rfl)) .some
  · exact .map (.inNodeAt (.past .advance fun _ => .bind (.failureHandler hr) fun (_, _) =>
      .pure fun h => .graded hL.1 (he h.1).2 rfl (.pair (he h.1).1 h.2.snd) rfl)) .some
  · exact .pure fun _ => .none

theorem callRule : Makes L H (callRule rules) := by
  refine .past .checkpoint fun c => .past .startPos fun (start, line) =>
    .bindYields (.primary hL hr) .primary fun _ => .repeatYields (fun h => ⟨h.1.2, h.2⟩)
      (fun e => .bind (.applied? hL hr c id) fun kind => ?_) fun _ => .callTurn
  cases kind with
  | some kind =>
    exact .bind (.exprFrom fun h => h.2.mem List.mem_cons_self) fun _ => .turn And.right
  | none => exact .turn fun h => h.1.1

theorem unaryRule (hl : rules.Leveled) : Makes L H (unaryRule rules) := by
  refine .past .peek fun t => ?_
  split
  · exact .callRule hL hr
  · refine .past .startPos fun (_, _) => .bindYields (.inNode (.past .advance fun _ => hr.unary))
      (.inNode (.bind fun _ => hl.unary)) fun _ => .exprFrom fun h => ?_
    exact .graded hL.1 h.2 rfl h.1.2 rfl

omit hr in
/-- Two operands and an operator that asks for their levels. -/
theorem binary {left right : Expr} {op : BinaryOp} (h : op.Grades left right)
    (hleft : L.Meets left) (hright : L.Meets right) : L.Meets (binary left op right) :=
  .graded hL.1 h rfl (.pair hleft hright) rfl

theorem powerRule (hl : rules.Leveled) : Makes L H (powerRule rules) := by
  refine .past .checkpoint fun _ => .bindYields (.unaryRule hL hr hl) .unaryRule fun _ =>
    .past (.check _) fun _ => .ite (.bindYields (.inNodeAt (.past .advance fun _ => hr.power))
      (.inNodeAt (.bind fun _ => hl.power)) fun _ => .pure fun h => ?_) (.pure fun h => h.1.2)
  exact binary hL ⟨h.1.1.2, h.2⟩ h.1.1.1.2 h.1.2

omit hr in
theorem operators {n : Nat} {p : Parse Expr} (hp : ∀ {G : Prop}, Makes L G p)
    (hlevel : Yields (n + 1 ≤ ·.level) p) {c : Option Tree.Checkpoint} {left : Expr}
    (hleft : H → L.Meets left ∧ left.Leads n) :
    Makes L H (operators rules (leftOp? n) p c left) := by
  refine .repeatYields hleft (fun left => .past .peek fun t => ?_) fun _ => .operatorTurn
  split
  next op hkind =>
    refine .bindYields (.inNodeAt (.past .advance fun _ => hp)) (.inNodeAt (.bind fun _ => hlevel))
      fun right => .turn fun ⟨⟨⟨hleft, hleads⟩, hright⟩, hlt⟩ => binary hL ?_ hleft hright
    obtain ⟨rfl, hn⟩ := level_of_leftOp? hkind
    exact .of_leads hn hleads hlt
  next => exact .turn And.left

omit hr in
theorem leftAssociative {n : Nat} {p : Parse Expr} (hp : ∀ {G : Prop}, Makes L G p)
    (hlevel : Yields (n + 1 ≤ ·.level) p) : Makes L H (leftAssociative rules (leftOp? n) p) :=
  .past .checkpoint fun _ => .bindYields hp hlevel fun _ =>
    .operators hL hp hlevel fun h => ⟨h.1.2, .of_lt h.2⟩

section
variable (hl : rules.Leveled)
include hl

theorem product : Makes L H (product rules) :=
  leftAssociative hL (n := 6) (.powerRule hL hr hl) .powerRule

theorem sum : Makes L H (sum rules) := leftAssociative hL (n := 5) (.product hL hr hl) .product

theorem comparison : Makes L H (comparison rules) := by
  refine .past .checkpoint fun _ => .past .startPos fun (_, _) => .bindYields (.sum hL hr hl) .sum
    fun _ => .past (.check _) fun _ => .ite ?_ ?_
  · refine .bindYields (.inNodeAt (.past .advance fun _ => .sum hL hr hl))
      (.inNodeAt (.bind fun _ => .sum)) fun _ => .exprFrom fun h => ?_
    exact .graded hL.1 ⟨h.1.1.2, h.2⟩ rfl (.pair h.1.1.1.2 h.1.2) rfl
  · exact operators hL (n := 4) (.sum hL hr hl) .sum fun h => ⟨h.1.2, .of_lt h.2⟩

theorem equality : Makes L H (equality rules) :=
  leftAssociative hL (n := 3) (.comparison hL hr hl) .comparison

theorem conjunction : Makes L H (conjunction rules) :=
  leftAssociative hL (n := 2) (.equality hL hr hl) .equality

theorem disjunction : Makes L H (disjunction rules) :=
  leftAssociative hL (n := 1) (.conjunction hL hr hl) .conjunction

end
end

/-! ## Assignments -/

/-- The target of an assignment is made of the expression on its left. -/
theorem assignTarget {e : Expr} {target : AssignTarget} (he : L.Meets e)
    (h : assignTarget? e = some target) : L.Meets target := by
  have hbelow : ∀ m, (Node.expr e.kind).Reaches L.outside m → L.holds m :=
    List.forall_mem_singleton.1 he
  unfold assignTarget? at h
  split at h
  next hkind =>
    cases h
    exact .bare rfl
  next hkind =>
    cases h
    exact .below hbelow rfl (by rw [hkind]; rfl)
  next hkind =>
    cases h
    exact .below hbelow rfl (by rw [hkind]; rfl)
  next => cases h

include hL hr in
theorem exprRule (hl : rules.Leveled) : Makes L H (exprRule rules) := by
  refine .past .checkpoint fun c => .bindYields (.disjunction hL hr hl) .disjunction fun left =>
    .past .peek fun t => ?_
  split
  · exact .pure fun h => h.1.2
  · refine .bind (.inNodeAt (.past .advance fun _ => .bind hr.expression fun _ =>
      .pure fun h => .pair (.bare rfl) h.2)) fun (opToken, value) => ?_
    dsimp only
    split
    next target htarget =>
      rw [pure_bind]
      refine .pure fun ⟨⟨⟨_, hleft⟩, _⟩, hvalue⟩ => ?_
      exact .expr (hL.targets hleft htarget _ _) (.pair (assignTarget hleft htarget) hvalue.snd) rfl
    next =>
      simp only [pure_bind]
      refine .past (.reportAt opToken _) fun _ => .pure fun ⟨⟨⟨_, hleft⟩, hlevel⟩, hvalue⟩ => ?_
      exact .ofKind (.graded hL.1 hlevel rfl (.pair hleft hvalue.snd) rfl)

end Makes

/-- The rules for expressions keep to a lenient law. -/
theorem Law.Lenient.kept {L : Law} (hL : L.Lenient) : L.Kept where
  expression hr := .exprRule hL hr (.call ..)
  power hr := .powerRule hL hr (.call ..)
  unary hr := .unaryRule hL hr (.call ..)
  classes := hL.classes

/-- A program whose tokens are as a law asks meets the law, if the rules for expressions keep to it:
no task is known where it starts. -/
theorem Law.Kept.runProgram {L : Law} (hL : L.Kept) {stream : Scan.Stream} {config : Config}
    {errors : Diagnostic.Collector} (h : L.tokens stream.tokens) :
    L.Meets (runProgram stream config errors).1 := by
  have hmoves := moves_topDeclarations stream config errors
  have hmakes : Makes L True (topDeclarations (.upTo stream.tokens.length)) :=
    .topDeclarations hL _
  rw [runProgram_eq]
  rcases hrun : exec (topDeclarations (.upTo stream.tokens.length)) (.of stream config)
    (.start stream config errors) with ⟨_ | stmts, t⟩
  · exact .nil
  · rw [hrun] at hmoves
    exact hmakes.meets trivial (s := .start stream config errors) (endOf_kind stream.tokens)
      ⟨h, fun _ => rfl⟩ hrun hmoves.spent_eq

end Grammar

end LimitSyntax
