import LimitSyntax.Proofs.MakesExprs

/-!
# The operands of operators

Wherever an expression stands in a program, its operands are of the levels that its operator asks
for (`Ast.ExprKind.Graded`), whatever the tokens are and whatever is reported about them
(`Grammar.operands_graded`).
-/

namespace LimitSyntax.Grammar

open Ast

/-- What a node must be like: an expression is graded. -/
def IsGraded : Node → Prop
  | .expr kind => kind.Graded
  | _ => True

theorem lenient_isGraded : Ast.Lenient false IsGraded where
  graded hkind _ := hkind
  other
    | .type _, _, _ | .pattern _, _, _ | .stmt _, _, _ => trivial

/-- Expressions are graded, whatever the tokens. -/
def precedence : Law where
  holds := IsGraded
  tokens _ := True
  tokens_suffix _ _ := trivial
  other := lenient_isGraded.other
  header := lenient_isGraded.headerConstructor

/-- An assignment to a member or an element of an expression asks what that does. -/
theorem AssignTarget.graded_of_assignTarget? {e : Expr} {target : AssignTarget}
    (he : e.kind.Graded) (h : assignTarget? e = some target) : target.Graded := by
  unfold assignTarget? at h
  split at h
  next hkind =>
    cases h
    trivial
  next hkind =>
    cases h
    rw [hkind] at he
    exact he
  next hkind =>
    cases h
    rw [hkind] at he
    exact he
  next => cases h

theorem lenient_precedence : precedence.Lenient where
  toLenient := lenient_isGraded
  strings hr := .always (.interpolatedString hr fun _ => trivial)
  targets he htarget _ _ :=
    AssignTarget.graded_of_assignTarget? (he _ (List.mem_singleton_self _) _ .refl) htarget
  classes _ _ _ _ _ _ _ _ _ := trivial

/-- Whatever the tokens are, every expression in the program they are parsed to has operands of the
levels that its operator asks for. -/
theorem operands_graded (stream : Scan.Stream) (config : Config) (errors : Diagnostic.Collector)
    (kind : ExprKind) (h : (parse stream config errors).1.program.Holds (.expr kind)) :
    kind.Graded := by
  obtain ⟨n, hn, hholds⟩ := h
  exact lenient_precedence.kept.runProgram (L := precedence) trivial n hn _ hholds.reaches

/-- An assignment to a sum, which is reported, and what stands on its sides. -/
theorem operands_graded_invalid : ∃ kind : ExprKind, kind.level = 0 ∧
    (parse (Scan.scan ⟨"1 + x = y;", "a"⟩ .lossy {}).1 {} {}).1.program.Holds (.expr kind) ∧
      kind.Graded := by
  have hany : (parse (Scan.scan ⟨"1 + x = y;", "a"⟩ .lossy {}).1 {} {}).1.program.statements.any
      (fun s => match s.kind with
        | .expression e => e.level == 0
        | _ => false) = true := by decide +kernel
  obtain ⟨stmt, hmem, hstmt⟩ := List.any_eq_true.1 hany
  split at hstmt
  next e hkind =>
    have hholds : (parse (Scan.scan ⟨"1 + x = y;", "a"⟩ .lossy {}).1 {} {}).1.program.Holds
        (.expr e.kind) := by
      refine ⟨.stmt stmt.kind, List.mem_flatMap.2 ⟨stmt, hmem, List.mem_singleton_self _⟩, ?_⟩
      exact .single (by simp [hkind, Node.children, nodes])
    exact ⟨e.kind, beq_iff_eq.1 hstmt, hholds, operands_graded _ _ _ _ hholds⟩
  next => cases hstmt

end LimitSyntax.Grammar
