import LimitSyntax.Ast.Members
import Mathlib.Logic.Relation
import Mathlib.Order.MinMax

/-!
# Pieces of syntax and their spans

Statements, blocks, expressions, patterns, types, parameters and functions carry a span: they are
the pieces of a program (`Ast.Piece`). The children of a piece are the pieces inside of it that no
other piece is around. The spans of a piece nest if every piece in it lies in the span of the piece
it is a child of, and starts and ends between characters (`Ast.Piece.Nested`). Syntax stands within
two offsets if its pieces do and their spans nest (`Ast.Within`). Both go along with a property that
each of the pieces has.
-/

namespace LimitSyntax

/-! ## Spans -/

/-- The span lies between two offsets, and starts and ends between characters of the text. -/
structure Span.Lies (text : String) (lo hi : Nat) (s : Span) : Prop where
  lower : lo ≤ s.start
  order : s.start ≤ s.stop
  upper : s.stop ≤ hi
  validStart : String.Pos.Raw.IsValid text ⟨s.start⟩
  validStop : String.Pos.Raw.IsValid text ⟨s.stop⟩

namespace Span.Lies

variable {text : String} {lo hi lo' hi' : Nat} {s t : Span}

theorem le (h : s.Lies text lo hi) : lo ≤ hi := Nat.le_trans h.lower (Nat.le_trans h.order h.upper)

theorem mono (h : s.Lies text lo hi) (hlo : lo' ≤ lo) (hhi : hi ≤ hi') : s.Lies text lo' hi' where
  lower := Nat.le_trans hlo h.lower
  order := h.order
  upper := Nat.le_trans h.upper hhi
  validStart := h.validStart
  validStop := h.validStop

/-- A span lies between its own ends. -/
theorem self (h : s.Lies text lo hi) : s.Lies text s.start s.stop where
  lower := Nat.le_refl _
  order := h.order
  upper := Nat.le_refl _
  validStart := h.validStart
  validStop := h.validStop

/-- What covers a span and one behind it goes from the start of the one to the end of the other. -/
theorem cover_eq (hs : s.Lies text lo hi) (ht : t.Lies text s.stop hi) :
    s.cover t = ⟨s.start, t.stop⟩ := by
  rw [Span.cover, Nat.min_eq_left (Nat.le_trans hs.order ht.lower),
    Nat.max_eq_right (Nat.le_trans ht.lower ht.order)]

theorem cover (hs : s.Lies text lo hi) (ht : t.Lies text s.stop hi) :
    (s.cover t).Lies text lo hi := by
  rw [hs.cover_eq ht]
  exact ⟨hs.lower, Nat.le_trans hs.order (Nat.le_trans ht.lower ht.order), ht.upper, hs.validStart,
    ht.validStop⟩

end Span.Lies

namespace Ast

/-! ## Pieces -/

/-- Syntax that carries a span. -/
inductive Piece where
  | stmt (s : Stmt)
  | block (b : Block)
  | expr (e : Expr)
  | pattern (p : Pattern)
  | type (t : TypeExpr)
  | param (p : Param)
  | function (f : FunctionDecl)

def Piece.span : Piece → Span
  | .stmt s => s.span
  | .block b => b.span
  | .expr e => e.span
  | .pattern p => p.span
  | .type t => t.span
  | .param p => p.span
  | .function f => f.span

/-- Values in which pieces occur. -/
class HasPieces (α : Type) where
  /-- The outermost pieces of a value. -/
  pieces : α → List Piece

export HasPieces (pieces)

section
variable {α β : Type} [HasPieces α] [HasPieces β]

instance : HasPieces Unit := ⟨fun _ => []⟩
instance : HasPieces Bool := ⟨fun _ => []⟩
instance : HasPieces String := ⟨fun _ => []⟩
instance : HasPieces ConcurrencySettings := ⟨fun _ => []⟩
instance : HasPieces Import := ⟨fun _ => []⟩
instance : HasPieces (List α) := ⟨fun xs => xs.flatMap pieces⟩
instance : HasPieces (Option α) := ⟨fun x => x.toList.flatMap pieces⟩
instance : HasPieces (α × β) := ⟨fun x => pieces x.1 ++ pieces x.2⟩

instance : HasPieces Stmt := ⟨fun s => [.stmt s]⟩
instance : HasPieces Block := ⟨fun b => [.block b]⟩
instance : HasPieces Expr := ⟨fun e => [.expr e]⟩
instance : HasPieces Pattern := ⟨fun p => [.pattern p]⟩
instance : HasPieces TypeExpr := ⟨fun t => [.type t]⟩
instance : HasPieces Param := ⟨fun p => [.param p]⟩
instance : HasPieces FunctionDecl := ⟨fun f => [.function f]⟩

instance : HasPieces StringPart where
  pieces
    | .str _ => []
    | .expr e => pieces e

instance : HasPieces AssignTarget where
  pieces
    | .variable _ => []
    | .member object _ => pieces object
    | .index object index => pieces (object, index)
    | .invalid e => pieces e

instance : HasPieces TypeParam := ⟨fun p => pieces p.type⟩
instance : HasPieces TypeField := ⟨fun f => pieces f.type⟩
instance : HasPieces VarDecl := ⟨fun d => pieces (d.type, d.initializer)⟩
instance : HasPieces EnumVariant := ⟨fun v => pieces v.payload⟩
instance : HasPieces MatchCase := ⟨fun c => pieces (c.pattern, c.guard, c.body)⟩

instance : HasPieces ClassDecl :=
  ⟨fun c => pieces (c.superArgs, c.ctorParams, c.fields, c.methods)⟩

instance : HasPieces ExprKind where
  pieces
    | .literal _ | .variable _ | .self | .super | .missing => []
    | .tuple elements | .list elements => pieces elements
    | .dict entries => pieces entries
    | .object _ fields => pieces fields
    | .binary left _ right => pieces (left, right)
    | .unary _ operand => pieces operand
    | .grouping inner => pieces inner
    | .call callee args named => pieces (callee, args, named)
    | .member object _ => pieces object
    | .index object index => pieces (object, index)
    | .assign target _ value => pieces (target, value)
    | .range first last => pieces (first, last)
    | .interpolated parts => pieces parts
    | .lambda params result body => pieces (params, result, body)
    | .fallible inner _ handler => pieces (inner, handler)
    | .errorValue _ args => pieces args
    | .okValue value => pieces value

instance : HasPieces TypeKind where
  pieces
    | .primitive _ | .named _ | .literal _ | .array | .anyDict => []
    | .list element => pieces element
    | .dict key value => pieces (key, value)
    | .tuple members | .union members | .intersection members => pieces members
    | .function params result => pieces (params, result)
    | .record fields _ _ => pieces fields

instance : HasPieces PatternKind where
  pieces
    | .value _ | .error .. | .errorType .. | .wildcard | .dict .. | .binding .. | .literal _
    | .identifier _ => []
    | .list elements _ | .tuple elements => pieces elements
    | .type t => pieces t

instance : HasPieces StmtKind where
  pieces
    | .breaks | .continues | .imports _ => []
    | .varDecl decl => pieces decl
    | .destructuring _ initializer => pieces initializer
    | .function decl => pieces decl
    | .classDecl decl => pieces decl
    | .enumDecl _ variants => pieces variants
    | .typeAlias _ t => pieces t
    | .traitDecl _ _ methods | .interfaceDecl _ _ methods => pieces methods
    | .moduleDecl _ forEveryone forHeirs forOwner => pieces (forEveryone, forHeirs, forOwner)
    | .ifElse condition thenBranch elseBranch => pieces (condition, thenBranch, elseBranch)
    | .forLoop init condition increment body => pieces (init, condition, increment, body)
    | .forEach _ iterable body | .iterLoop _ iterable body => pieces (iterable, body)
    | .whileLoop condition body => pieces (condition, body)
    | .matchCases scrutinee cases => pieces (scrutinee, cases)
    | .block body | .parallel _ body | .concurrent _ body | .worker _ body
    | .unsafeBlock body => pieces body
    | .expression e => pieces e
    | .returns value => pieces value
    | .print args => pieces args
    | .task _ iterable body => pieces (iterable, body)
    | .contract condition message => pieces (condition, message)
    | .comptime s => pieces s

end

namespace Piece

/-- The pieces right inside of a piece: of those around it, the piece is the nearest. -/
def children : Piece → List Piece
  | .stmt s => pieces s.kind
  | .block b => pieces b.statements
  | .expr e => pieces e.kind
  | .pattern p => pieces p.kind
  | .type t => pieces (t.kind, t.refinement)
  | .param p => pieces (p.type, p.default?)
  | .function f => pieces (f.params, f.optionalParams, f.result, f.body)

/-- The parameters of a function without a name. -/
def params? : Piece → Option (List Param)
  | .expr ⟨.lambda params _ _, _, _⟩ => some params
  | _ => none

theorem exists_lambda (p : Piece) {params : List Param} (h : p.params? = some params) :
    ∃ e result body, p = .expr e ∧ e.kind = .lambda params result body := by
  unfold params? at h
  split at h
  next =>
    obtain rfl := Option.some.inj h
    exact ⟨_, _, _, rfl, rfl⟩
  next => cases h

/-- `q` is `p` or occurs in it. -/
def Holds (p q : Piece) : Prop := Relation.ReflTransGen (fun p q => q ∈ p.children) p q

/-- The piece lies between two offsets, the spans in it nest, and all that is in it has the
property. -/
inductive Nested (text : String) (P : Piece → Prop) : Nat → Nat → Piece → Prop where
  | intro {lo hi : Nat} {p : Piece} (lies : p.span.Lies text lo hi) (property : P p)
      (children : ∀ c ∈ p.children, Nested text P p.span.start p.span.stop c) :
      Nested text P lo hi p

variable {text : String} {P : Piece → Prop} {lo hi lo' hi' : Nat} {p q : Piece}

theorem Nested.lies (h : p.Nested text P lo hi) : p.span.Lies text lo hi := by
  cases h with
  | intro lies => exact lies

theorem Nested.property (h : p.Nested text P lo hi) : P p := by
  cases h with
  | intro _ property => exact property

theorem Nested.child (h : p.Nested text P lo hi) (hq : q ∈ p.children) :
    q.Nested text P p.span.start p.span.stop := by
  cases h with
  | intro _ _ children => exact children q hq

theorem Nested.mono (h : p.Nested text P lo hi) (hlo : lo' ≤ lo) (hhi : hi ≤ hi') :
    p.Nested text P lo' hi' :=
  .intro (h.lies.mono hlo hhi) h.property fun _ => h.child

/-- What occurs in a piece lies where the piece does, and its spans nest, too. -/
theorem Nested.holds (h : p.Nested text P lo hi) (hq : p.Holds q) : q.Nested text P lo hi := by
  induction hq with
  | refl => exact h
  | tail _ hchild ih => exact (ih.child hchild).mono ih.lies.lower ih.lies.upper

end Piece

/-- The piece occurs in the program. -/
def Program.HoldsPiece (program : Program) (p : Piece) : Prop :=
  ∃ q ∈ pieces program.statements, q.Holds p

/-! ## Syntax between two offsets -/

section
variable {α β : Type} [HasPieces α] [HasPieces β]

/-- The pieces of a value lie between two offsets, their spans nest, and all that is in them has the
property. -/
structure Within (text : String) (P : Piece → Prop) (lo hi : Nat) (a : α) : Prop where
  le : lo ≤ hi
  nested : ∀ p ∈ pieces a, p.Nested text P lo hi

namespace Within

variable {text : String} {P : Piece → Prop} {lo hi lo' hi' : Nat}

theorem mono {a : α} (h : Within text P lo hi a) (hlo : lo' ≤ lo) (hhi : hi ≤ hi') :
    Within text P lo' hi' a where
  le := Nat.le_trans hlo (Nat.le_trans h.le hhi)
  nested p hp := (h.nested p hp).mono hlo hhi

/-- A value with the same pieces. -/
theorem of {a : α} {b : β} (h : Within text P lo hi a) (heq : pieces b = pieces a) :
    Within text P lo hi b := ⟨h.le, heq ▸ h.nested⟩

/-- A value with no pieces besides. -/
theorem of_subset {a : α} {b : β} (h : Within text P lo hi a) (hsub : pieces b ⊆ pieces a) :
    Within text P lo hi b := ⟨h.le, fun p hp => h.nested p (hsub hp)⟩

/-- A value without pieces. -/
theorem bare {a : α} (hle : lo ≤ hi) (h : pieces a = []) : Within text P lo hi a := by
  refine ⟨hle, fun p hp => ?_⟩
  rw [h] at hp
  cases hp

theorem pair {a : α} {b : β} (ha : Within text P lo hi a) (hb : Within text P lo hi b) :
    Within text P lo hi (a, b) :=
  ⟨ha.le, List.forall_mem_append.2 ⟨ha.nested, hb.nested⟩⟩

theorem fst {x : α × β} (h : Within text P lo hi x) : Within text P lo hi x.1 :=
  ⟨h.le, (List.forall_mem_append.1 h.nested).1⟩

theorem snd {x : α × β} (h : Within text P lo hi x) : Within text P lo hi x.2 :=
  ⟨h.le, (List.forall_mem_append.1 h.nested).2⟩

/-! ### Lists and optional values -/

theorem of_list {xs : List α} (hle : lo ≤ hi) (h : ∀ x ∈ xs, Within text P lo hi x) :
    Within text P lo hi xs := by
  refine ⟨hle, fun p hp => ?_⟩
  obtain ⟨x, hx, hp⟩ := List.mem_flatMap.1 hp
  exact (h x hx).nested p hp

theorem mem {xs : List α} (h : Within text P lo hi xs) {x : α} (hx : x ∈ xs) :
    Within text P lo hi x :=
  ⟨h.le, fun p hp => h.nested p (List.mem_flatMap.2 ⟨x, hx, hp⟩)⟩

theorem nil (hle : lo ≤ hi) : Within text P lo hi ([] : List α) := .bare hle rfl

theorem subset {xs ys : List α} (h : Within text P lo hi xs) (hsub : ys ⊆ xs) :
    Within text P lo hi ys :=
  of_list h.le fun _ hy => h.mem (hsub hy)

theorem cons {x : α} {xs : List α} (hx : Within text P lo hi x) (hxs : Within text P lo hi xs) :
    Within text P lo hi (x :: xs) :=
  of_list hx.le (List.forall_mem_cons.2 ⟨hx, fun _ => hxs.mem⟩)

theorem append {xs ys : List α} (hxs : Within text P lo hi xs) (hys : Within text P lo hi ys) :
    Within text P lo hi (xs ++ ys) :=
  of_list hxs.le (List.forall_mem_append.2 ⟨fun _ => hxs.mem, fun _ => hys.mem⟩)

theorem reverse {xs : List α} (h : Within text P lo hi xs) : Within text P lo hi xs.reverse :=
  h.subset fun _ hx => List.mem_reverse.1 hx

theorem filter {xs : List α} (h : Within text P lo hi xs) (p : α → Bool) :
    Within text P lo hi (xs.filter p) :=
  h.subset List.filter_sublist.subset

/-- Values that are made of those in a list, with no pieces added. -/
theorem filterMap {f : α → Option β} (hf : ∀ {x y}, f x = Option.some y → pieces y ⊆ pieces x)
    {xs : List α} (h : Within text P lo hi xs) : Within text P lo hi (xs.filterMap f) := by
  refine of_list h.le fun y hy => ?_
  obtain ⟨x, hx, hxy⟩ := List.mem_filterMap.1 hy
  exact (h.mem hx).of_subset (hf hxy)

theorem none (hle : lo ≤ hi) : Within text P lo hi (none : Option α) := .bare hle rfl

theorem some {x : α} (h : Within text P lo hi x) : Within text P lo hi (some x) :=
  h.of (List.append_nil _)

theorem toList {x : Option α} (h : Within text P lo hi x) : Within text P lo hi x.toList := h.of rfl

/-! ### Pieces -/

/-- A piece with the property whose inside stands within its span. -/
theorem piece {a : α} {b : β} {p : Piece} (ha : pieces a = [p])
    (hchildren : p.children = pieces b) (hlies : p.span.Lies text lo hi) (hp : P p)
    (hb : Within text P p.span.start p.span.stop b) : Within text P lo hi a := by
  refine ⟨hlies.le, ?_⟩
  rw [ha]
  exact List.forall_mem_singleton.2 (.intro hlies hp (hchildren ▸ hb.nested))

theorem property {a : α} {p : Piece} (h : Within text P lo hi a) (ha : pieces a = [p]) : P p :=
  (h.nested p (ha ▸ List.mem_singleton_self p)).property

theorem lies {a : α} {p : Piece} (h : Within text P lo hi a) (ha : pieces a = [p]) :
    p.span.Lies text lo hi :=
  (h.nested p (ha ▸ List.mem_singleton_self p)).lies

/-- The inside of a piece stands within its span. -/
theorem inside {a : α} {b : β} {p : Piece} (h : Within text P lo hi a) (ha : pieces a = [p])
    (hchildren : p.children = pieces b) : Within text P p.span.start p.span.stop b :=
  ⟨(h.lies ha).order,
    hchildren ▸ fun _ => (h.nested p (ha ▸ List.mem_singleton_self p)).child⟩

/-- A piece stands within its own span. -/
theorem self {a : α} {p : Piece} (h : Within text P lo hi a) (ha : pieces a = [p]) :
    Within text P p.span.start p.span.stop a := by
  have hp := h.nested p (ha ▸ List.mem_singleton_self p)
  refine ⟨hp.lies.order, ?_⟩
  rw [ha]
  exact List.forall_mem_singleton.2 (.intro hp.lies.self hp.property fun _ => hp.child)

/-- The inside of a piece stands where the piece does. -/
theorem inner {a : α} {b : β} {p : Piece} (h : Within text P lo hi a) (ha : pieces a = [p])
    (hchildren : p.children = pieces b) : Within text P lo hi b :=
  (h.inside ha hchildren).mono (h.lies ha).lower (h.lies ha).upper

end Within

end

end Ast

end LimitSyntax
