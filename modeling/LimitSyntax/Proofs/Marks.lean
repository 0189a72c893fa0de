import LimitSyntax.Proofs.Pieces
import LimitSyntax.Token.Basic

/-!
# Lines and order in syntax

A piece is marked by a row of tokens if its line is that of the token it starts with, and if the
parameters in it are in the order in which they are written, those that may be left out behind the
others (`Grammar.marks`). Of the line of a type that is less than it seems: in parentheses, a type
keeps the line of its inside (`Grammar.TypeStart`). Syntax stands between two offsets if it is
within them and all of its pieces are marked (`Grammar.Stands`).
-/

namespace LimitSyntax

/-! ## The order of parameters -/

namespace Ast

/-- Each parameter ends before the next one starts, and none is empty. -/
def Rising (params : List Param) : Prop :=
  params.Pairwise fun p q => p.span.start < p.span.stop ∧ p.span.stop ≤ q.span.start

/-- Parameters as they are written, but those that may be left out behind the others. -/
def Sorted (params : List Param) : Prop :=
  ∃ written, Rising written ∧ params = written.filter (!·.isOptional) ++ written.filter (·.isOptional)

/-- The parameters of a function without a name are sorted. -/
def ExprKind.Sorted : ExprKind → Prop
  | .lambda params _ _ => Ast.Sorted params
  | _ => True

/-- The parameters in the header of a class are sorted. -/
def ClassDecl.Sorted (c : ClassDecl) : Prop := Ast.Sorted c.ctorParams

def StmtKind.Sorted : StmtKind → Prop
  | .classDecl c => c.Sorted
  | _ => True

end Ast

namespace Grammar

open Ast

/-! ## Pieces in a row of tokens -/

section
variable (row : List Token)

/-- A token of the row stands at the offset, on the line. -/
def StartsAt (start line : Nat) : Prop := ∃ t ∈ row, t.span.start = start ∧ t.line = line

/-- Where a type starts, and its line. A type in parentheses has the line of what stands in them,
and one that is left out behind the parameters of a function that of their parenthesis. -/
inductive TypeStart : Nat → Nat → Prop where
  | token {start line : Nat} (h : StartsAt row start line) : TypeStart start line
  | behind {t : Token} (ht : t ∈ row) (hkind : t.kind = .rightParen) : TypeStart t.span.stop t.line
  | grouped {before after : List Token} {paren t : Token} {line : Nat}
      (hrow : row = before ++ paren :: t :: after) (hkind : paren.kind = .leftParen)
      (h : TypeStart t.span.start line) : TypeStart paren.span.start line

/-- The piece starts with a token on its line, and parameters in it are sorted. -/
def marks : Piece → Prop
  | .stmt s => StartsAt row s.span.start s.line ∧ s.kind.Sorted
  | .block b => StartsAt row b.span.start b.line
  | .expr e => StartsAt row e.span.start e.line ∧ e.kind.Sorted
  | .pattern p => StartsAt row p.span.start p.line
  | .type t => TypeStart row t.span.start t.line
  | .param _ => True
  | .function f => StartsAt row f.span.start f.line

end

/-- The pieces of a value lie between two offsets, their spans nest, and all that is in them is
marked. -/
abbrev Stands {α : Type} [HasPieces α] (text : String) (row : List Token) (lo hi : Nat) (a : α) :
    Prop := Within text (marks row) lo hi a

/-- Syntax that stands between two offsets and has its parameters sorted. -/
structure Arranged {α : Type} [HasPieces α] (sorted : α → Prop) (text : String) (row : List Token)
    (lo hi : Nat) (a : α) : Prop where
  stands : Stands text row lo hi a
  sorted : sorted a

abbrev StandsExpr (text : String) (row : List Token) (lo hi : Nat) (kind : ExprKind) : Prop :=
  Arranged ExprKind.Sorted text row lo hi kind

abbrev StandsStmt (text : String) (row : List Token) (lo hi : Nat) (kind : StmtKind) : Prop :=
  Arranged StmtKind.Sorted text row lo hi kind

abbrev StandsClass (text : String) (row : List Token) (lo hi : Nat) (c : ClassDecl) : Prop :=
  Arranged ClassDecl.Sorted text row lo hi c

section
variable {text : String} {row : List Token} {lo hi lo' hi' : Nat}

namespace Arranged

variable {α β : Type} [HasPieces α] [HasPieces β] {sorted : α → Prop} {a : α} {b : β}

theorem le (h : Arranged sorted text row lo hi a) : lo ≤ hi := h.stands.le

theorem mono (h : Arranged sorted text row lo hi a) (hlo : lo' ≤ lo) (hhi : hi ≤ hi') :
    Arranged sorted text row lo' hi' a := ⟨h.stands.mono hlo hhi, h.sorted⟩

theorem of (h : Stands text row lo hi b) (heq : pieces a = pieces b) (hsorted : sorted a) :
    Arranged sorted text row lo hi a := ⟨Within.of h heq, hsorted⟩

theorem bare (hle : lo ≤ hi) (heq : pieces a = []) (hsorted : sorted a) :
    Arranged sorted text row lo hi a := ⟨.bare hle heq, hsorted⟩

end Arranged

/-! ## Pieces that stand in their place -/

namespace Stands

variable {span : Span} {line : Nat}

theorem expr {kind : ExprKind} (hlies : span.Lies text lo hi)
    (hstart : StartsAt row span.start line) (h : StandsExpr text row span.start span.stop kind) :
    Stands text row lo hi (Expr.mk kind span line) :=
  .piece (b := kind) rfl rfl hlies ⟨hstart, h.sorted⟩ h.stands

theorem stmt {kind : StmtKind} (hlies : span.Lies text lo hi)
    (hstart : StartsAt row span.start line) (h : StandsStmt text row span.start span.stop kind) :
    Stands text row lo hi (Stmt.mk kind span line) :=
  .piece (b := kind) rfl rfl hlies ⟨hstart, h.sorted⟩ h.stands

theorem block {statements : List Stmt} (hlies : span.Lies text lo hi)
    (hstart : StartsAt row span.start line) (h : Stands text row span.start span.stop statements) :
    Stands text row lo hi (Block.mk statements span line) :=
  .piece (b := statements) rfl rfl hlies hstart h

theorem pattern {kind : PatternKind} (hlies : span.Lies text lo hi)
    (hstart : StartsAt row span.start line) (h : Stands text row span.start span.stop kind) :
    Stands text row lo hi (Pattern.mk kind span line) :=
  .piece (b := kind) rfl rfl hlies hstart h

theorem type {t : TypeExpr} (hlies : t.span.Lies text lo hi)
    (hstart : TypeStart row t.span.start t.line)
    (h : Stands text row t.span.start t.span.stop (t.kind, t.refinement)) :
    Stands text row lo hi t :=
  .piece (b := (t.kind, t.refinement)) rfl rfl hlies hstart h

theorem param {p : Param} (hlies : p.span.Lies text lo hi)
    (h : Stands text row p.span.start p.span.stop (p.type, p.default?)) :
    Stands text row lo hi p :=
  .piece (b := (p.type, p.default?)) rfl rfl hlies trivial h

theorem function {f : FunctionDecl} (hlies : f.span.Lies text lo hi)
    (hstart : StartsAt row f.span.start f.line)
    (h : Stands text row f.span.start f.span.stop (f.params, f.optionalParams, f.result, f.body)) :
    Stands text row lo hi f :=
  .piece (b := (f.params, f.optionalParams, f.result, f.body)) rfl rfl hlies hstart h

/-- An expression around two others, of which one stands behind the other. It starts with the
first. -/
theorem covering {left right : Expr} {kind : ExprKind} (hleft : Stands text row lo hi left)
    (hright : Stands text row left.span.stop hi right)
    (hkind : Stands text row left.span.start right.span.stop left →
      Stands text row left.span.start right.span.stop right →
        StandsExpr text row left.span.start right.span.stop kind) :
    Stands text row lo hi (Expr.mk kind (left.span.cover right.span) left.line) := by
  have hl : left.span.Lies text lo hi := hleft.lies (p := .expr left) rfl
  have hr : right.span.Lies text left.span.stop hi := hright.lies (p := .expr right) rfl
  have hstart : StartsAt row left.span.start left.line := (hleft.property (p := .expr left) rfl).1
  refine .expr (hl.cover hr) ?_ ?_
  · rwa [hl.cover_eq hr]
  · rw [hl.cover_eq hr]
    exact hkind
      ((hleft.self (p := .expr left) rfl).mono (Nat.le_refl _) (Nat.le_trans hr.lower hr.order))
      ((hright.self (p := .expr right) rfl).mono (Nat.le_trans hl.order hr.lower) (Nat.le_refl _))

end Stands

end

end Grammar

end LimitSyntax
