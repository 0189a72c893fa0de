import LimitSyntax.Proofs.SparingExprs
import LimitSyntax.Proofs.SpansTypes

/-!
# Where syntax stands: expressions

The rules for expressions put what they yield in its place if the rules they call do. An expression
starts with the first token read for it. Where an operator stands between two operands that is the
first token of the left one, as the right one is read behind it (`Grammar.Spans.operand`). There is
no expression that was not found where nothing is reported.
-/

namespace LimitSyntax.Grammar

open Ast

instance : HasPieces Token := ⟨fun _ => []⟩

instance : HasPieces Argument where
  pieces
    | .positional e | .named _ e => pieces e

theorem Argument.pieces_positional? {a : Argument} {e : Expr} (h : a.positional? = some e) :
    pieces e ⊆ pieces a := by
  cases a with
  | positional =>
    cases h
    exact List.Subset.refl _
  | named => cases h

theorem Argument.pieces_named? {a : Argument} {arg : String × Expr} (h : a.named? = some arg) :
    pieces arg ⊆ pieces a := by
  cases a with
  | positional => cases h
  | named =>
    cases h
    exact List.Subset.refl _

namespace Spans

variable {rules : Rules} {text : String} {row : List Token} {κ : Token → Prop} {lo : Nat}
  {H : State → Prop}

section
variable {κ' : Token → Prop} {lo' line : Nat} (hstart : ∀ u, H u → Start text row κ' lo' lo line)
include hstart

theorem exprFrom {kind : ExprKind} (h : ∀ u, H u → StandsExpr text row lo u.edge kind) :
    Spans text row κ lo H (exprFrom kind lo line) (Stands text row lo') :=
  .piece hstart (fun u hu => (h u hu).le) fun u hu hlies => .expr hlies (hstart u hu).at (h u hu)

/-- An expression that is a node of its own. -/
theorem exprNode {p : Parse ExprKind} {node : Tree.Kind}
    (h : Spans text row κ lo H p (StandsExpr text row lo)) :
    Spans text row κ lo H (do Grammar.exprFrom (← Grammar.inNode node p) lo line)
      (Stands text row lo') :=
  .bind (.inNode h) fun _ => .exprFrom (fun u h => hstart u h.1) fun _ h => h.2

/-- An expression of one token. -/
theorem word {kind : ExprKind} {node : Tree.Kind} (hκ : Inland κ) (h : pieces kind = [])
    (hsorted : kind.Sorted) : Spans text row κ lo H (do
      Grammar.exprFrom
        (← Grammar.inNode node do
          let _ ← Grammar.advance
          return kind) lo line) (Stands text row lo') :=
  .exprNode hstart (.advance hκ fun _ => .pure fun _ hu => .bare hu.2.le h hsorted)

end

variable (hr : rules.Spans text row)
include hr

/-! ## Arguments -/

theorem argument : Spans text row κ lo H (argument rules) (Stands text row lo) :=
  .past (.check _) fun _ => .past (.checkAt ..) fun _ => .ite
    (fun _ => .past .advance fun _ => .past .advance fun _ => .bind hr.expression fun _ =>
      .pure fun _ h => .of h.2 rfl)
    fun _ => .bind hr.expression fun _ => .pure fun _ h => .of h.2 rfl

theorem callArguments (hκ : Inland κ) :
    Spans text row κ lo H (callArguments rules) (Stands text row lo) :=
  .inNode <| .advance hκ fun _ => .past (.check _) fun _ =>
    .branch (.pure fun _ h => .nil h.2.le) (.commaSeparated (.argument hr)) fun args =>
      .consume (by decide) fun _ => .pure fun _ h =>
        .pair (h.1.2.filterMap Argument.pieces_positional?)
          (h.1.2.filterMap Argument.pieces_named?)

/-! ## Primary expressions -/

/-- A string with interpolations starts with one, and so does not yield before it has read. -/
theorem interpolatedString : Spans text row (·.kind = .interpolationStart) lo H
    (interpolatedString rules) (StandsExpr text row lo) := by
  obtain ⟨n, hn⟩ := Nat.exists_eq_succ_of_ne_zero (Nat.ne_of_gt hr.bound)
  have hturn : ∀ {κ : Token → Prop} {G : State → Prop} {parts : List StringPart},
      (∀ u, G u → lo ≤ u.edge → Stands text row lo u.edge parts) →
      Spans text row (fun t => κ t ∧ t.kind ≠ .interpolationStart) lo G (Pure.pure (parts, false))
        (fun e r => Stands text row lo e r.1) →
      Spans text row κ lo G (do
        if ← Grammar.check .interpolationStart then
          let text := (← Grammar.advance).text
          let e ← rules.call .expression
          Grammar.consumeClose .interpolationEnd "Expected '\x7d' after interpolation expression."
          return (.expr e :: .str text :: parts, true)
        else return (parts, false)) fun e r => Stands text row lo e r.1 := by
    intro κ G parts hparts hend
    refine .check (.advance (.of_kind (by decide)) fun t => .bind hr.expression fun e =>
      .following (.consumeClose _ _) fun _ => .pure fun u h => ?_) hend
    have hstr : Stands text row lo u.edge (StringPart.str t.text) := .bare h.2.le rfl
    exact .cons (h.2.of rfl) (.cons hstr (hparts u h.1.1 h.2.le))
  refine .bind (Q := Stands text row lo) ?_ fun parts => .past (.check _) fun _ => .ite
    (fun _ => .past .advance fun t => ?_) fun _ => ?_
  · rw [hn]
    refine .bind (hturn (fun _ _ hle => .nil hle) (.nowhere (fun _ h => h.2 h.1) (.pure _)))
      fun (parts, more) => .ite (fun _ => .repeatUpTo (fun _ h => h.2) fun parts => ?_)
        fun _ => .pure fun _ h => h.2
    exact hturn (fun _ h _ => h) (.pure fun _ h => h)
  · refine .bind (Q := Stands text row lo) (.pure fun u h => .cons ?_ h.2) fun _ =>
      .pure fun _ h => .of h.2.reverse rfl trivial
    exact .bare h.2.le rfl
  · exact .bind (Q := Stands text row lo) (.pure fun _ h => h.2) fun _ =>
      .pure fun _ h => .of h.2.reverse rfl trivial

theorem objectLiteral (hκ : Inland κ) :
    Spans text row κ lo H (objectLiteral rules) (StandsExpr text row lo) := by
  refine .advance hκ fun _ => .past .advance fun _ => .bind (.commaList (fun _ h => h.2.le) ?_)
    fun (_, _) => .following (.consumeClose _ _) fun _ => .pure fun _ h => .of h.2 rfl trivial
  exact .following (.consumeName _) fun _ => .consume (by decide) fun _ =>
    .bind hr.expression fun _ => .pure fun _ h => .pair (.bare h.2.le rfl) h.2

theorem errorValue (hκ : Inland κ) :
    Spans text row κ lo H (errorValue rules) (StandsExpr text row lo) :=
  .advance hκ fun _ => .consume (by decide) fun _ => .following (.consumeName _) fun _ =>
    .check (.bind (.arguments hr (.of_kind (by decide))) fun _ => .consume (by decide) fun _ =>
        .pure fun _ h => .of h.1.2 rfl trivial)
      (.bind (Q := Stands text row lo) (.pure fun _ h => .nil h.2.le) fun _ =>
        .consume (by decide) fun _ => .pure fun _ h => .of h.1.2 rfl trivial)

theorem okValue (hκ : Inland κ) :
    Spans text row κ lo H (okValue rules) (StandsExpr text row lo) :=
  .advance hκ fun _ => .consume (by decide) fun _ => .bind hr.expression fun _ =>
    .consume (by decide) fun _ => .pure fun _ h => .of h.1.2 rfl trivial

/-- The parameters of a function without a name are those of its list, sorted. -/
theorem lambda (hκ : Inland κ) :
    Spans text row κ lo H (lambda rules) (StandsExpr text row lo) :=
  .advance hκ fun _ => .past (.check _) fun _ => .guarded (d := id) (.fail _) <|
    .bind (.parameters hr) fun (_, _) => .bind (.after (fun _ h => h.2.le) hr.type) fun _ =>
      .bind (.block hr) fun _ => .pure fun _ h => .of
        (.pair (.append h.1.1.2.stands.fst h.1.1.2.stands.snd) (.pair h.1.2 h.2)) rfl h.1.1.2.sorted

theorem parenthesized (hκ : Inland κ) :
    Spans text row κ lo H (parenthesized rules) (Stands text row lo) := by
  refine .look .checkpoint fun c => .startPos fun start line => .advance hκ fun _ =>
    .past (.eat _) fun _ => .ite (fun _ => ?_) fun _ => .bind hr.expression fun first =>
      .past (.check _) fun _ => .ite (fun _ => ?_) fun _ => ?_
  · exact .past (.inNodeAt (e := id) c _ (.pure _)) fun _ =>
      .exprFrom (fun _ h => h.1.2) fun _ h => .bare h.2.le rfl trivial
  · refine .bind (.inNodeAt (.bind (.repeatUpTo (Q := Stands text row start)
      (fun _ h => .cons h.2 (.nil h.2.le)) fun elements => ?_) fun _ =>
        .consume (by decide) fun _ => .pure fun _ h => h.1.2.reverse)) fun _ =>
          .exprFrom (fun _ h => h.1.1.1.2) fun _ h => .of h.2 rfl trivial
    exact .past (.eat _) fun _ => .ite (fun _ => .past (.check _) fun _ => .ite
      (fun _ => .pure fun _ h => h) fun _ => .bind hr.expression fun _ =>
        .pure fun _ h => .cons h.2 h.1) fun _ => .pure fun _ h => h
  · exact .following (.inNodeAt c _ (.bind (.consume _ _) fun _ => .pure _)) fun _ =>
      .exprFrom (fun _ h => h.1.1.2) fun _ h => .of h.2 rfl trivial

theorem listLiteral (hκ : Inland κ) :
    Spans text row κ lo H (listLiteral rules) (StandsExpr text row lo) :=
  .advance hκ fun _ => .bind (.commaList (fun _ h => h.2.le) hr.expression) fun (_, _) =>
    .consume (by decide) fun _ => .pure fun _ h => .of h.1.2 rfl trivial

theorem dictLiteral (hκ : Inland κ) :
    Spans text row κ lo H (dictLiteral rules) (StandsExpr text row lo) := by
  refine .advance hκ fun _ => .bind (.commaList (fun _ h => h.2.le) ?_) fun (_, _) =>
    .following (.consumeClose _ _) fun _ => .pure fun _ h => .of h.2 rfl trivial
  exact .bind hr.expression fun _ => .consume (by decide) fun _ => .bind hr.expression fun _ =>
    .pure fun _ h => .pair h.1.1.2 h.2

omit hr in
/-- An expression that was not found is reported. -/
theorem missingExpr (hκ : ∀ t, κ t → t.kind ≠ .error) (start line : Nat) :
    Spans text row κ lo H (missingExpr start line) (Stands text row lo) :=
  .reportedHere hκ (.bind (.inNode _ (.pure _)) fun _ => .pure _)

theorem primary : Spans text row κ lo H (primary rules) (Stands text row lo) := by
  refine .ranged fun start line => .peek fun t => ?_
  have hstart : ∀ u, H u ∧ Start text row κ start start line → Start text row κ start start line :=
    fun _ h => h.2
  have hsure : ∀ {kind : Token.Kind}, t.kind = kind → kind ≠ .eof → Inland (· = t) :=
    fun hkind hne => .of_eq (hkind ▸ hne)
  dsimp only
  split
  next value hvalue =>
    refine .word hstart (.of_eq fun heof => ?_) rfl trivial
    rw [literal?_eof heof] at hvalue
    cases hvalue
  split
  next hkind =>
    exact .exprNode hstart ((interpolatedString hr).ofNext fun _ h => h ▸ hkind)
  next hkind => exact .word hstart (hsure hkind (by decide)) rfl trivial
  next hkind => exact .word hstart (hsure hkind (by decide)) rfl trivial
  next hkind => exact .word hstart (hsure hkind (by decide)) rfl trivial
  next hkind =>
    have hκ := hsure hkind (by decide)
    exact .look (.checkAt _ _) fun _ => .ite (fun _ => .exprNode hstart (.objectLiteral hr hκ))
      fun _ => .word hstart hκ rfl trivial
  next hkind => exact .exprNode hstart (.errorValue hr (hsure hkind (by decide)))
  next hkind => exact .exprNode hstart (.okValue hr (hsure hkind (by decide)))
  next hkind => exact .exprNode hstart (.lambda hr (hsure hkind (by decide)))
  next hkind => exact .parenthesized hr (hsure hkind (by decide))
  next hkind => exact .exprNode hstart (.listLiteral hr (hsure hkind (by decide)))
  next hkind => exact .exprNode hstart (.dictLiteral hr (hsure hkind (by decide)))
  next => exact .past (.noteError _) fun _ => .giveUp
  iterate 5
    next hkind =>
      refine .missingExpr (fun u h => ?_) start line
      rw [h, hkind]
      decide
  next => exact .fail

/-! ## What follows a primary expression -/

omit hr in
/-- The number of an element is a token that was read, as it is no end. -/
theorem tupleIndex : Spans text row κ lo H tupleIndex (Stands text row lo) := by
  refine .glance fun t => ?_
  have hindex : ∀ {G : State → Prop}, (∀ u, G u → Took text row lo t u) →
      Spans text row (fun _ => True) lo G
        (Pure.pure (Expr.mk (.literal (.int t.lexeme)) t.span t.line)) (Stands text row lo) :=
    fun hG => .pure fun u h => .expr (hG u h).lies (hG u h).start.at
      (.bare (hG u h).lies.order rfl trivial)
  refine .ite (fun _ => ?_) fun hnumber => hindex fun u h => h.2 ?_
  · by_cases herror : t.kind = .error
    · exact .past (.reportAt t _ append_ne_tooManyErrors) fun _ => hindex fun u h =>
        h.2 (by rw [herror]; decide)
    · exact .reported herror (.pure _)
  · intro heof
    simp [heof] at hnumber

theorem failureHandler (hle : ∀ u, H u → lo ≤ u.edge) :
    Spans text row κ lo H (failureHandler rules) (Stands text row lo) := by
  have hrest : ∀ {κ : Token → Prop} (name : Option String), Spans text row κ lo H
      (Pure.pure name >>= fun name => do return (name, some (← rules.call .statement)))
      (Stands text row lo) := by
    intro κ name
    rw [pure_bind]
    exact .bind hr.statement fun _ =>
      .pure fun _ h => .pair (.bare h.2.le (by cases name <;> rfl)) (.some h.2)
  exact .past (.eat _) fun _ => .ite (fun _ => .past (.check _) fun _ => .past (.checkAt ..) fun _ =>
    .ite (fun _ => .past .advance fun _ => hrest _) fun _ => hrest _)
    fun _ => .pure fun u h => .pair (.none (hle u h)) (.none (hle u h))

theorem applied? (c : Option Tree.Checkpoint) {e : Expr}
    (he : ∀ u, H u → Stands text row lo u.edge e) : Spans text row κ lo H (applied? rules c e)
      fun hi r => ∀ kind ∈ r, StandsExpr text row lo hi kind := by
  have hsome : ∀ {hi : Nat} {kind : ExprKind}, StandsExpr text row lo hi kind →
      ∀ k ∈ some kind, StandsExpr text row lo hi k := by
    rintro hi kind h k hk
    cases hk
    exact h
  refine .peek fun t => ?_
  split
  next hkind =>
    refine .map (.inNodeAt (.bind (.callArguments hr (.of_eq ?_)) fun (_, _) => .pure fun u h => ?_))
      fun _ => hsome
    · rw [hkind]
      decide
    · exact .of (.pair (he u h.1) h.2) rfl trivial
  next =>
    refine .look (.peekAt 1) fun _ => .ite (fun _ => .map (.inNodeAt ?_) fun _ => hsome)
      fun _ => .map (.inNodeAt ?_) fun _ => hsome
    · exact .past .advance fun _ => .bind .tupleIndex fun _ =>
        .pure fun u h => .of (.pair (he u h.1) h.2) rfl trivial
    · exact .past .advance fun _ => .following (.consumeName _) fun _ =>
        .pure fun u h => .of (he u h) rfl trivial
  next =>
    exact .map (.inNodeAt (.past .advance fun _ => .bind hr.expression fun _ =>
      .consume (by decide) fun _ => .pure fun u h =>
        .of (.pair (he u h.1.1) h.1.2) rfl trivial)) fun _ => hsome
  next =>
    exact .map (.inNodeAt (.past .advance fun _ => .bind (.failureHandler hr fun u h => (he u h).le)
      fun (_, _) => .pure fun u h => .of (.pair (he u h.1) h.2.snd) rfl trivial)) fun _ => hsome
  next => exact .pure fun _ _ _ hk => nomatch hk

theorem callRule : Spans text row κ lo H (callRule rules) (Stands text row lo) := by
  refine .look .checkpoint fun c => .ranged fun start line => .bind (.primary hr) fun _ =>
    .repeatKnowing (fun _ h => h.2) fun e => .bind (.applied? hr c fun _ h => h.2) fun kind => ?_
  cases kind with
  | some kind =>
    exact .bind (.exprFrom (fun _ h => h.1.1.1.2) fun _ h => h.2 kind rfl) fun _ =>
      .pure fun _ h => h.2
  | none => exact .pure fun _ h => h.1.2

/-! ## Operators -/

theorem unaryRule : Spans text row κ lo H (unaryRule rules) (Stands text row lo) := by
  refine .peek fun t => ?_
  split
  · exact .callRule hr
  · exact .startPos fun _ _ => .bind (.inNode (.past .advance fun _ => hr.unary)) fun _ =>
      .exprFrom (fun _ h => h.1.2) fun _ h => .of h.2 rfl trivial

omit hr in
/-- The operand behind an operator is read behind the one in front of it. -/
theorem operand {α : Type} {p : Token → Parse α} {Q : Nat → α → Prop} {c : Option Tree.Checkpoint}
    {node : Tree.Kind} {left : Expr} (hleft : ∀ u, H u → Stands text row lo u.edge left)
    (hp : ∀ t, Spans text row (fun _ => True) left.span.stop H (p t) Q) :
    Spans text row κ lo H (Grammar.inNodeAt c node (Grammar.advance >>= p)) Q :=
  .behind (fun u h => ((hleft u h).lies (p := .expr left) rfl).upper)
    (.inNodeAt (.past .advance hp))

omit hr in
/-- Two operands and an operator. -/
theorem binary {hi : Nat} {left right : Expr} {op : BinaryOp} (hleft : Stands text row lo hi left)
    (hright : Stands text row left.span.stop hi right) :
    Stands text row lo hi (binary left op right) :=
  Stands.covering hleft hright fun hleft hright => .of (.pair hleft hright) rfl trivial

theorem powerRule : Spans text row κ lo H (powerRule rules) (Stands text row lo) :=
  .look .checkpoint fun _ => .bind (.unaryRule hr) fun _ => .past (.check _) fun _ => .ite
    (fun _ => .bind (.operand (fun _ h => h.2) fun _ => hr.power) fun _ =>
      .pure fun _ h => binary h.1.2 h.2) fun _ => .pure fun _ h => h.2

omit hr in
theorem operators {op? : Token.Kind → Option BinaryOp} {p : Parse Expr}
    (hp : ∀ {lo : Nat} {G : State → Prop},
      Spans text row (fun _ => True) lo G p (Stands text row lo))
    {c : Option Tree.Checkpoint} {left : Expr} (hleft : ∀ u, H u → Stands text row lo u.edge left) :
    Spans text row κ lo H (operators rules op? p c left) (Stands text row lo) := by
  refine .repeatUpTo hleft fun left => .peek fun t => ?_
  split
  · exact .bind (.operand (fun _ h => h) fun _ => hp) fun _ => .pure fun _ h => binary h.1 h.2
  · exact .pure fun _ h => h

omit hr in
theorem leftAssociative {op? : Token.Kind → Option BinaryOp} {p : Parse Expr}
    (hp : ∀ {lo : Nat} {G : State → Prop},
      Spans text row (fun _ => True) lo G p (Stands text row lo)) :
    Spans text row κ lo H (leftAssociative rules op? p) (Stands text row lo) :=
  .look .checkpoint fun _ => .bind (.here hp) fun _ => .operators hp fun _ h => h.2

theorem product : Spans text row κ lo H (product rules) (Stands text row lo) :=
  .leftAssociative (.powerRule hr)

theorem sum : Spans text row κ lo H (sum rules) (Stands text row lo) :=
  .leftAssociative (.product hr)

theorem comparison : Spans text row κ lo H (comparison rules) (Stands text row lo) := by
  refine .look .checkpoint fun _ => .ranged fun _ _ => .bind (.sum hr) fun _ =>
    .past (.check _) fun _ => .ite (fun _ => ?_) fun _ => .operators (.sum hr) fun _ h => h.2
  exact .bind (.inNodeAt (.past .advance fun _ => .sum hr)) fun _ =>
    .exprFrom (fun _ h => h.1.1.2) fun _ h => .of (.pair h.1.2 h.2) rfl trivial

theorem equality : Spans text row κ lo H (equality rules) (Stands text row lo) :=
  .leftAssociative (.comparison hr)

theorem conjunction : Spans text row κ lo H (conjunction rules) (Stands text row lo) :=
  .leftAssociative (.equality hr)

theorem disjunction : Spans text row κ lo H (disjunction rules) (Stands text row lo) :=
  .leftAssociative (.conjunction hr)

/-! ## Assignments -/

omit hr in
/-- The target of an assignment has the pieces of the expression on its left. -/
theorem pieces_assignTarget {e : Expr} {target : AssignTarget}
    (h : assignTarget? e = some target) : pieces target = pieces e.kind := by
  unfold assignTarget? at h
  split at h
  next hkind =>
    cases h
    rw [hkind]
    rfl
  next hkind =>
    cases h
    rw [hkind]
    rfl
  next hkind =>
    cases h
    rw [hkind]
    rfl
  next => cases h

theorem exprRule : Spans text row κ lo H (exprRule rules) (Stands text row lo) := by
  refine .look .checkpoint fun c => .bind (.disjunction hr) fun left => .peek fun t => ?_
  split
  · exact .pure fun _ h => h.2
  · refine .bind (Q := fun e r => Stands text row left.span.stop e r.2) (.operand (fun _ h => h.2)
      fun _ => .bind hr.expression fun _ => .pure fun _ h => h.2) fun (opToken, value) => ?_
    have hassign : ∀ {hi : Nat} {target : AssignTarget} {op : AssignOp},
        Stands text row lo hi left → Stands text row left.span.stop hi value →
        (∀ {lo hi}, Stands text row lo hi left → Stands text row lo hi target) →
        Stands text row lo hi
          (Expr.mk (.assign target op value) (left.span.cover value.span) left.line) :=
      fun hleft hvalue htarget => Stands.covering hleft hvalue fun hleft hvalue =>
        .of (.pair (htarget hleft) hvalue) rfl trivial
    dsimp only
    split
    next target htarget =>
      rw [pure_bind]
      exact .pure fun _ h => hassign h.1.2 h.2 fun hleft =>
        (hleft.inner (b := left.kind) rfl rfl).of (pieces_assignTarget htarget)
    next =>
      simp only [pure_bind]
      exact .past (.reportAt opToken _) fun _ => .pure fun _ h =>
        hassign h.1.2 h.2 fun hleft => hleft.of rfl

end Spans

end LimitSyntax.Grammar
