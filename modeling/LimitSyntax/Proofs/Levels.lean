import LimitSyntax.Proofs.Parsers

/-!
# The levels of operators

How tightly an expression holds together is its level, from assignments up to what no operator takes
apart (`Ast.ExprKind.level`). An expression is graded if its operands are of the levels that its
operator asks for (`Ast.ExprKind.Graded`). Each rule for operators yields expressions of its level
and above, if the rules it calls do (`Grammar.Rules.Leveled`).
-/

namespace LimitSyntax

namespace Ast

/-- The level of an operator with two operands. -/
def BinaryOp.level : BinaryOp → Nat
  | .or => 1
  | .and => 2
  | .eq | .ne => 3
  | .lt | .le | .gt | .ge => 4
  | .add | .sub => 5
  | .mul | .div | .mod => 6
  | .pow => 7

/-- The level of an expression. -/
def ExprKind.level : ExprKind → Nat
  | .assign .. => 0
  | .binary _ op _ => op.level
  | .range .. => 4
  | .unary .. => 8
  | _ => 9

def ExprKind.isRange : ExprKind → Bool
  | .range .. => true
  | _ => false

abbrev Expr.level (e : Expr) : Nat := e.kind.level

/-- The expression may stand before an operator that groups from the left. A range is of the level
of comparisons, but not the left operand of one. -/
structure Expr.Leads (e : Expr) (n : Nat) : Prop where
  level : n ≤ e.level
  noRange : n = 4 → e.kind.isRange = false

/-- The operands of an operator are of the levels it asks for: powers group from the right, all other
operators from the left. -/
def BinaryOp.Grades (op : BinaryOp) (left right : Expr) : Prop :=
  match op with
  | .pow => 8 ≤ left.level ∧ 7 ≤ right.level
  | op => left.Leads op.level ∧ op.level < right.level

/-- What is assigned to is of the level its place asks for. -/
def AssignTarget.Graded : AssignTarget → Prop
  | .variable _ => True
  | .member base _ => base.level = 9
  | .index base _ => base.level = 9
  | .invalid e => 1 ≤ e.level

/-- The operands right below an expression are of the levels it asks for. -/
def ExprKind.Graded : ExprKind → Prop
  | .binary left op right => op.Grades left right
  | .unary _ operand => 8 ≤ operand.level
  | .range first last => 5 ≤ first.level ∧ 5 ≤ last.level
  | .call callee _ _ => callee.level = 9
  | .member base _ => base.level = 9
  | .index base _ => base.level = 9
  | .fallible inner _ _ => inner.level = 9
  | .assign target _ _ => target.Graded
  | _ => True

theorem ExprKind.level_le (kind : ExprKind) : kind.level ≤ 9 := by
  cases kind with
  | binary _ op _ =>
    show op.level ≤ 9
    cases op <;> decide
  | _ => exact Nat.le_of_ble_eq_true rfl

theorem Expr.Leads.of_lt {e : Expr} {n : Nat} (h : n < e.level) : e.Leads n where
  level := Nat.le_of_lt h
  noRange hn := by
    cases hkind : e.kind with
    | range first last =>
      have hlevel : e.level = 4 := congrArg ExprKind.level hkind
      omega
    | _ => rfl

theorem BinaryOp.Grades.cases {op : BinaryOp} {left right : Expr} (h : op.Grades left right) :
    (op.level < 7 ∧ left.Leads op.level ∧ op.level < right.level) ∨
      (op = .pow ∧ 8 ≤ left.level ∧ 7 ≤ right.level) := by
  cases op with
  | pow => exact .inr ⟨rfl, h⟩
  | _ => exact .inl ⟨by decide, h⟩

theorem BinaryOp.Grades.of_leads {op : BinaryOp} {left right : Expr} (hop : op.level < 7)
    (hleft : left.Leads op.level) (hright : op.level < right.level) : op.Grades left right := by
  cases op with
  | pow => exact absurd hop (Nat.lt_irrefl _)
  | _ => exact ⟨hleft, hright⟩

end Ast

namespace Grammar

open Ast

/-! ## Operators of a level -/

/-- The operators of a level that group from the left. -/
def leftOp? : Nat → Token.Kind → Option BinaryOp
  | 1 => orOp?
  | 2 => andOp?
  | 3 => equalityOp?
  | 4 => comparisonOp?
  | 5 => sumOp?
  | 6 => productOp?
  | _ => fun _ => none

theorem level_of_leftOp? {n : Nat} {kind : Token.Kind} {op : BinaryOp}
    (h : leftOp? n kind = some op) : op.level = n ∧ n < 7 := by
  unfold leftOp? at h
  split at h
  · unfold orOp? at h
    split at h <;> cases h
    exact ⟨rfl, by decide⟩
  · unfold andOp? at h
    split at h <;> cases h
    exact ⟨rfl, by decide⟩
  · unfold equalityOp? at h
    split at h <;> cases h
    all_goals exact ⟨rfl, by decide⟩
  · unfold comparisonOp? at h
    split at h <;> cases h
    all_goals exact ⟨rfl, by decide⟩
  · unfold sumOp? at h
    split at h <;> cases h
    all_goals exact ⟨rfl, by decide⟩
  · unfold productOp? at h
    split at h <;> cases h
    all_goals exact ⟨rfl, by decide⟩
  · cases h

/-! ## Turns

What the loops of the rules do in one turn, and whether they go on. -/

/-- What is applied to an expression, if anything is. -/
def callTurn (rules : Rules) (c : Option Tree.Checkpoint) (start line : Nat) (e : Expr) :
    Parse (Expr × Bool) := do
  match ← applied? rules c e with
  | some kind => return (← exprFrom kind start line, true)
  | none => return (e, false)

/-- An operator of a level and its right operand, if there is one. -/
def operatorTurn (n : Nat) (operand : Parse Expr) (c : Option Tree.Checkpoint) (left : Expr) :
    Parse (Expr × Bool) := do
  match leftOp? n (← peek).kind with
  | some op =>
    let right ← inNodeAt c .binaryExpr do
      let _ ← advance
      operand
    return (binary left op right, true)
  | none => return (left, false)

/-! ## The levels of what rules yield -/

/-- The operands that the rules for operators call for are of their levels. -/
structure Rules.Leveled (rules : Rules) : Prop where
  unary : Yields (8 ≤ ·.level) (rules.call .unary)
  power : Yields (7 ≤ ·.level) (rules.call .power)

namespace Yields

theorem exprFrom {Q : Expr → Prop} {kind : ExprKind} {start line : Nat}
    (h : ∀ span, Q ⟨kind, span, line⟩) : Yields Q (exprFrom kind start line) :=
  .bind fun _ => .pure (h _)

/-- A primary expression that is a node of its own. -/
theorem exprNode {p : Parse ExprKind} {node : Tree.Kind} {start line : Nat}
    (h : Yields (·.level = 9) p) :
    Yields (·.level = 9) (do Grammar.exprFrom (← Grammar.inNode node p) start line) :=
  .chain (.inNode h) fun _ hkind => .exprFrom fun _ => hkind

theorem word {kind : ExprKind} (h : kind.level = 9) :
    Yields (·.level = 9) (do let _ ← Grammar.advance; return kind : Parse ExprKind) :=
  .bind fun _ => .pure h

variable {rules : Rules}

theorem parenthesized : Yields (·.level = 9) (parenthesized rules) := by
  refine .bind fun _ => .bind fun (_, _) => .bind fun _ => .bind fun _ => .ite
    (.bind fun _ => .exprFrom fun _ => rfl) (.bind fun _ => .bind fun _ => .ite ?_ ?_)
  · exact .bind fun _ => .exprFrom fun _ => rfl
  · exact .bind fun _ => .exprFrom fun _ => rfl

theorem primary : Yields (·.level = 9) (primary rules) := by
  refine .bind fun (start, line) => .bind fun t => ?_
  dsimp only
  split
  · exact .exprNode (.word rfl)
  split
  · exact .exprNode (.bind fun _ => .bind fun _ => .ite
      (.bind fun _ => .bind fun _ => .pure rfl) (.bind fun _ => .pure rfl))
  · exact .exprNode (.word rfl)
  · exact .exprNode (.word rfl)
  · exact .exprNode (.word rfl)
  · exact .bind fun _ => .ite
      (.exprNode (.bind fun _ => .bind fun _ => .bind fun _ => .bind fun _ => .pure rfl))
      (.exprNode (.word rfl))
  · exact .exprNode (.bind fun _ => .bind fun _ => .bind fun _ => .bind fun _ => .ite
      (.bind fun _ => .bind fun _ => .pure rfl) (.bind fun _ => .bind fun _ => .pure rfl))
  · exact .exprNode (.bind fun _ => .bind fun _ => .bind fun _ => .bind fun _ => .pure rfl)
  · exact .exprNode (.bind fun _ => .bind fun _ => .ite (.bind fun _ => .bind fun _ => .bind fun _ =>
      .bind fun _ => .pure rfl) (.bind fun _ => .bind fun _ => .bind fun _ => .pure rfl))
  · exact .parenthesized
  · exact .exprNode (.bind fun _ => .bind fun _ => .bind fun _ => .pure rfl)
  · exact .exprNode (.bind fun _ => .bind fun _ => .bind fun _ => .pure rfl)
  · exact .bind fun _ => .giveUp
  iterate 5 · exact .bind fun _ => .bind fun _ => .pure rfl
  · exact .bind fun _ => .giveUp

/-- Whatever is applied to an expression makes one that no operator takes apart. -/
theorem applied? {c : Option Tree.Checkpoint} {e : Expr} :
    Yields (∀ kind ∈ ·, kind.level = 9) (applied? rules c e) := by
  have hsome : ∀ {node : Tree.Kind} {p : Parse ExprKind}, Yields (·.level = 9) p →
      Yields (∀ kind ∈ ·, kind.level = 9) (some <$> Grammar.inNodeAt c node p) := by
    intro node p hp
    refine .map (.inNodeAt hp) fun kind hkind => ?_
    rintro _ ⟨⟩
    exact hkind
  refine .bind fun t => ?_
  split
  · exact hsome (.bind fun _ => .pure rfl)
  · exact .bind fun _ => .ite (hsome (.bind fun _ => .bind fun _ => .pure rfl))
      (hsome (.bind fun _ => .bind fun _ => .pure rfl))
  · exact hsome (.bind fun _ => .bind fun _ => .bind fun _ => .pure rfl)
  · exact hsome (.bind fun _ => .bind fun _ => .pure rfl)
  · exact .pure nofun

theorem callTurn {c : Option Tree.Checkpoint} {start line : Nat} {e : Expr} (he : e.level = 9) :
    Yields (·.1.level = 9) (callTurn rules c start line e) := by
  refine .chain .applied? fun kind? hkind => ?_
  cases kind? with
  | some kind => exact .chain (.exprFrom fun _ => hkind kind rfl) fun _ h => .pure h
  | none => exact .pure he

theorem callRule : Yields (·.level = 9) (callRule rules) :=
  .bind fun _ => .bind fun (_, _) => .chain .primary fun _ hfirst =>
    .repeatUpTo hfirst fun _ => .callTurn

theorem unaryRule : Yields (8 ≤ ·.level) (unaryRule rules) := by
  refine .bind fun t => ?_
  split
  · exact callRule.mono fun _ h => by omega
  · exact .bind fun (_, _) => .bind fun _ => .exprFrom fun _ => Nat.le_refl 8

theorem powerRule : Yields (7 ≤ ·.level) (powerRule rules) :=
  .bind fun _ => .chain .unaryRule fun _ hbase => .bind fun _ => .ite
    (.bind fun _ => .pure (Nat.le_refl 7)) (.pure (Nat.le_of_succ_le hbase))

theorem operatorTurn {n : Nat} {p : Parse Expr} {c : Option Tree.Checkpoint} {left : Expr}
    (hleft : left.Leads n) : Yields (·.1.Leads n) (operatorTurn n p c left) := by
  refine .bind fun t => ?_
  split
  next op h =>
    have hlevel := (level_of_leftOp? h).1
    exact .bind fun _ => .pure ⟨Nat.le_of_eq hlevel.symm, fun _ => rfl⟩
  next => exact .pure hleft

/-- Operators of a level yield what may stand before a further one. -/
theorem operators {n : Nat} {p : Parse Expr} {c : Option Tree.Checkpoint} {left : Expr}
    (hleft : left.Leads n) : Yields (Expr.Leads · n) (operators rules (leftOp? n) p c left) :=
  .repeatUpTo hleft fun _ => .operatorTurn

theorem leftAssociative {n : Nat} {p : Parse Expr} (hp : Yields (n + 1 ≤ ·.level) p) :
    Yields (n ≤ ·.level) (leftAssociative rules (leftOp? n) p) :=
  .bind fun _ => hp.chain fun _ hleft => (operators (.of_lt hleft)).mono fun _ h => h.level

theorem product : Yields (6 ≤ ·.level) (product rules) := .leftAssociative .powerRule

theorem sum : Yields (5 ≤ ·.level) (sum rules) := .leftAssociative .product

theorem comparison : Yields (4 ≤ ·.level) (comparison rules) :=
  .bind fun _ => .bind fun (_, _) => .chain .sum fun _ hleft => .bind fun _ => .ite
    (.bind fun _ => .exprFrom fun _ => Nat.le_refl 4)
    ((operators (.of_lt hleft)).mono fun _ h => h.level)

theorem equality : Yields (3 ≤ ·.level) (equality rules) := .leftAssociative .comparison

theorem conjunction : Yields (2 ≤ ·.level) (conjunction rules) := .leftAssociative .equality

theorem disjunction : Yields (1 ≤ ·.level) (disjunction rules) := .leftAssociative .conjunction

end Yields

/-- The operands that the rules call for are of their levels, however deep calls may be nested. -/
theorem Rules.Leveled.call (bound fuel : Nat) : Rules.Leveled ⟨bound, Rule.call fuel⟩ := by
  cases fuel with
  | zero => exact ⟨.bind fun _ => .giveUp, .bind fun _ => .giveUp⟩
  | succ fuel => exact ⟨Yields.unaryRule, Yields.powerRule⟩

end Grammar

end LimitSyntax
