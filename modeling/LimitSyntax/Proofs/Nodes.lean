import LimitSyntax.Ast.Members
import LimitSyntax.Token.Basic
import Mathlib.Logic.Relation

/-!
# What occurs in a program

The expressions, types, patterns and statements in a program are its nodes (`Ast.Node`). A node has
the nodes right below it as children (`Ast.Node.children`), and holds all that is reached through
children (`Ast.Node.Holds`). A property holds throughout a piece of syntax if it holds of all nodes
in it, or of all that stand outside of concurrency blocks (`Ast.Throughout`); it does if it holds of
the top nodes and throughout their children.
-/

namespace LimitSyntax.Ast

/-- A part of a program, wherever it stands. -/
inductive Node where
  | expr (kind : ExprKind)
  | type (kind : TypeKind)
  | pattern (kind : PatternKind)
  | stmt (kind : StmtKind)

/-- An expression or a class. -/
def Node.isAsked : Node → Bool
  | .expr _ | .stmt (.classDecl _) => true
  | _ => false

/-- A task or a worker. -/
def Node.isTask : Node → Bool
  | .stmt (.task ..) | .stmt (.worker ..) => true
  | _ => false

/-- A node of which nothing is asked, wherever it stands. -/
def Node.isPlain (n : Node) : Bool := !n.isAsked && !n.isTask

/-- A statement in whose body tasks and workers are known. -/
def Node.isConcurrency : Node → Bool
  | .stmt (.parallel ..) | .stmt (.concurrent ..) => true
  | _ => false

/-- Values in which nodes occur. -/
class HasNodes (α : Type) where
  /-- The topmost nodes of a value. -/
  nodes : α → List Node

export HasNodes (nodes)

/-! ## The topmost nodes -/

section
variable {α β : Type} [HasNodes α] [HasNodes β]

instance : HasNodes Bool := ⟨fun _ => []⟩
instance : HasNodes String := ⟨fun _ => []⟩
instance : HasNodes ConcurrencySettings := ⟨fun _ => []⟩
instance : HasNodes (List α) := ⟨fun xs => xs.flatMap nodes⟩
instance : HasNodes (Option α) := ⟨fun x => x.toList.flatMap nodes⟩
instance : HasNodes (α × β) := ⟨fun x => nodes x.1 ++ nodes x.2⟩

instance : HasNodes ExprKind := ⟨fun kind => [.expr kind]⟩
instance : HasNodes TypeKind := ⟨fun kind => [.type kind]⟩
instance : HasNodes PatternKind := ⟨fun kind => [.pattern kind]⟩
instance : HasNodes StmtKind := ⟨fun kind => [.stmt kind]⟩

instance : HasNodes Expr := ⟨fun e => nodes e.kind⟩
instance : HasNodes TypeExpr := ⟨fun t => nodes (t.kind, t.refinement)⟩
instance : HasNodes Pattern := ⟨fun p => nodes p.kind⟩
instance : HasNodes Stmt := ⟨fun s => nodes s.kind⟩

instance : HasNodes StringPart where
  nodes
    | .str _ => []
    | .expr e => nodes e

instance : HasNodes AssignTarget where
  nodes
    | .variable _ => []
    | .member object _ => nodes object
    | .index object index => nodes (object, index)
    | .invalid e => nodes e

instance : HasNodes TypeParam := ⟨fun p => nodes p.type⟩
instance : HasNodes TypeField := ⟨fun f => nodes f.type⟩
instance : HasNodes Param := ⟨fun p => nodes (p.type, p.default?)⟩
instance : HasNodes Block := ⟨fun b => nodes b.statements⟩
instance : HasNodes VarDecl := ⟨fun d => nodes (d.type, d.initializer)⟩
instance : HasNodes EnumVariant := ⟨fun v => nodes v.payload⟩
instance : HasNodes MatchCase := ⟨fun c => nodes (c.pattern, c.guard, c.body)⟩

instance : HasNodes FunctionDecl :=
  ⟨fun d => nodes (d.params, d.optionalParams, d.result, d.body)⟩

instance : HasNodes ClassDecl := ⟨fun c => nodes (c.superArgs, c.ctorParams, c.fields, c.methods)⟩

end

/-! ## Children -/

/-- The nodes right below a node. -/
def Node.children : Node → List Node
  | .expr kind => match kind with
    | .literal _ | .variable _ | .self | .super | .missing => []
    | .tuple elements | .list elements => nodes elements
    | .dict entries => nodes entries
    | .object _ fields => nodes fields
    | .binary left _ right => nodes (left, right)
    | .unary _ operand => nodes operand
    | .grouping inner => nodes inner
    | .call callee args named => nodes (callee, args, named)
    | .member object _ => nodes object
    | .index object index => nodes (object, index)
    | .assign target _ value => nodes (target, value)
    | .range first last => nodes (first, last)
    | .interpolated parts => nodes parts
    | .lambda params result body => nodes (params, result, body)
    | .fallible inner _ handler => nodes (inner, handler)
    | .errorValue _ args => nodes args
    | .okValue value => nodes value
  | .type kind => match kind with
    | .primitive _ | .named _ | .literal _ | .array | .anyDict => []
    | .list element => nodes element
    | .dict key value => nodes (key, value)
    | .tuple members | .union members | .intersection members => nodes members
    | .function params result => nodes (params, result)
    | .record fields _ _ => nodes fields
  | .pattern kind => match kind with
    | .value _ | .error .. | .errorType .. | .wildcard | .dict .. | .binding .. | .literal _
    | .identifier _ => []
    | .list elements _ | .tuple elements => nodes elements
    | .type t => nodes t
  | .stmt kind => match kind with
    | .breaks | .continues | .imports _ => []
    | .varDecl decl => nodes decl
    | .destructuring _ initializer => nodes initializer
    | .function decl => nodes decl
    | .classDecl decl => nodes decl
    | .enumDecl _ variants => nodes variants
    | .typeAlias _ t => nodes t
    | .traitDecl _ _ methods | .interfaceDecl _ _ methods => nodes methods
    | .moduleDecl _ forEveryone forHeirs forOwner => nodes (forEveryone, forHeirs, forOwner)
    | .ifElse condition thenBranch elseBranch => nodes (condition, thenBranch, elseBranch)
    | .forLoop init condition increment body => nodes (init, condition, increment, body)
    | .forEach _ iterable body | .iterLoop _ iterable body => nodes (iterable, body)
    | .whileLoop condition body => nodes (condition, body)
    | .matchCases scrutinee cases => nodes (scrutinee, cases)
    | .block body | .parallel _ body | .concurrent _ body | .worker _ body
    | .unsafeBlock body => nodes body
    | .expression e => nodes e
    | .returns value => nodes value
    | .print args => nodes args
    | .task _ iterable body => nodes (iterable, body)
    | .contract condition message => nodes (condition, message)
    | .comptime s => nodes s

/-- `m` is `n` or occurs in it. -/
def Node.Holds (n m : Node) : Prop := Relation.ReflTransGen (fun n m => m ∈ n.children) n m

/-- The node occurs in the program. -/
def Program.Holds (p : Program) (m : Node) : Prop := ∃ n ∈ nodes p.statements, n.Holds m

/-- `m` is `n` or occurs in it, if `outside` is set then outside of the concurrency blocks in it. -/
def Node.Reaches (outside : Bool) (n m : Node) : Prop :=
  Relation.ReflTransGen
    (fun n m => (outside = true → n.isConcurrency = false) ∧ m ∈ n.children) n m

theorem Node.Holds.reaches {n m : Node} (h : n.Holds m) : n.Reaches false m := by
  induction h with
  | refl => exact .refl
  | tail _ hchild ih => exact .tail ih ⟨nofun, hchild⟩

/-! ## Properties of all nodes -/

section
variable {α β : Type} [HasNodes α] [HasNodes β] {outside : Bool} {P : Node → Prop}

/-- The property holds of all nodes in a value, or of those outside of concurrency blocks. -/
def Throughout (outside : Bool) (P : Node → Prop) (a : α) : Prop :=
  ∀ n ∈ nodes a, ∀ m, n.Reaches outside m → P m

namespace Throughout

/-- A node has the property if it has, and its children have throughout. -/
theorem node {n : Node} {a : α} (hn : P n) (ha : Throughout outside P a)
    (h : n.children = nodes a) : ∀ m, n.Reaches outside m → P m := by
  intro m hm
  rcases Relation.ReflTransGen.cases_head hm with rfl | ⟨c, ⟨-, hc⟩, hrest⟩
  · exact hn
  · exact ha c (h ▸ hc) m hrest

/-- A concurrency block has a property outside of such blocks if it has the property itself. -/
theorem block {n : Node} (hn : P n) (hblock : n.isConcurrency = true) :
    ∀ m, n.Reaches true m → P m := by
  intro m hm
  rcases Relation.ReflTransGen.cases_head hm with rfl | ⟨_, ⟨houtside, -⟩, _⟩
  · exact hn
  · rw [houtside rfl] at hblock
    cases hblock

/-- What holds throughout a node that is no concurrency block holds throughout its children. -/
theorem below {n : Node} {a : α} (hn : ∀ m, n.Reaches outside m → P m)
    (hblock : n.isConcurrency = false) (h : n.children = nodes a) : Throughout outside P a :=
  fun _ hc m hm => hn m (.head ⟨fun _ => hblock, h ▸ hc⟩ hm)

/-- A value without nodes. -/
theorem bare {a : α} (h : nodes a = []) : Throughout outside P a := by
  intro n hn
  rw [h] at hn
  cases hn

theorem pair {a : α} {b : β} (ha : Throughout outside P a) (hb : Throughout outside P b) :
    Throughout outside P (a, b) :=
  List.forall_mem_append.2 ⟨ha, hb⟩

theorem fst {x : α × β} (h : Throughout outside P x) : Throughout outside P x.1 :=
  (List.forall_mem_append.1 h).1

theorem snd {x : α × β} (h : Throughout outside P x) : Throughout outside P x.2 :=
  (List.forall_mem_append.1 h).2

/-! ## Lists and optional values -/

theorem of_list {xs : List α} (h : ∀ x ∈ xs, Throughout outside P x) : Throughout outside P xs := by
  intro n hn
  obtain ⟨x, hx, hn⟩ := List.mem_flatMap.1 hn
  exact h x hx n hn

theorem mem {xs : List α} (h : Throughout outside P xs) {x : α} (hx : x ∈ xs) :
    Throughout outside P x :=
  fun n hn => h n (List.mem_flatMap.2 ⟨x, hx, hn⟩)

theorem nil : Throughout outside P ([] : List α) := of_list (by simp)

theorem subset {xs ys : List α} (h : Throughout outside P xs) (hsub : ys ⊆ xs) :
    Throughout outside P ys :=
  of_list fun _ hy => h.mem (hsub hy)

theorem cons {x : α} {xs : List α} (hx : Throughout outside P x) (hxs : Throughout outside P xs) :
    Throughout outside P (x :: xs) :=
  of_list (List.forall_mem_cons.2 ⟨hx, fun _ => hxs.mem⟩)

theorem append {xs ys : List α} (hxs : Throughout outside P xs) (hys : Throughout outside P ys) :
    Throughout outside P (xs ++ ys) :=
  of_list (List.forall_mem_append.2 ⟨fun _ => hxs.mem, fun _ => hys.mem⟩)

theorem reverse {xs : List α} (h : Throughout outside P xs) : Throughout outside P xs.reverse :=
  h.subset fun _ hx => List.mem_reverse.1 hx

theorem filter {xs : List α} (h : Throughout outside P xs) (p : α → Bool) :
    Throughout outside P (xs.filter p) :=
  h.subset List.filter_sublist.subset

/-- Values that are made of those in a list, with no nodes added. -/
theorem filterMap {f : α → Option β} (hf : ∀ {x y}, f x = Option.some y → nodes y ⊆ nodes x)
    {xs : List α} (h : Throughout outside P xs) : Throughout outside P (xs.filterMap f) := by
  refine of_list fun y hy => ?_
  obtain ⟨x, hx, hxy⟩ := List.mem_filterMap.1 hy
  exact fun n hn => h.mem hx n (hf hxy hn)

theorem none : Throughout outside P (none : Option α) := nil

theorem some {x : α} (h : Throughout outside P x) : Throughout outside P (some x) := cons h nil

theorem toList {x : Option α} (h : Throughout outside P x) : Throughout outside P x.toList := h

end Throughout

end

end LimitSyntax.Ast

namespace LimitSyntax.Grammar

open Ast

/-! ## Laws -/

/-- A law for the expressions and classes of a program, under a condition on its tokens, or for what
stands outside of concurrency blocks where tasks and workers are not known. -/
structure Law where
  holds : Node → Prop
  /-- Whether only of what stands outside of concurrency blocks something is asked. -/
  outside : Bool := false
  /-- What the tokens to be read must meet. -/
  tokens : List Token → Prop
  tokens_suffix : ∀ {ts us : List Token}, us <:+ ts → tokens ts → tokens us
  /-- Only of expressions and classes something is asked, and perhaps of tasks outside of blocks. -/
  other : ∀ n : Node, n.isAsked = false → (n.isTask = true → outside = false) → holds n
  /-- The constructor that the header of a class makes meets the law if the class does. -/
  header : ∀ (c : ClassDecl) (span : Span) (line : Nat), Throughout outside holds c →
    Throughout outside holds (c.headerConstructor span line)

/-- A value meets the law throughout. -/
abbrev Law.Meets {α : Type} [HasNodes α] (L : Law) (a : α) : Prop :=
  Throughout L.outside L.holds a

namespace Law

variable {α : Type} [HasNodes α] {L : Law} {a : α}

theorem Meets.expr {kind : ExprKind} (hkind : L.holds (.expr kind)) (ha : L.Meets a)
    (h : (Node.expr kind).children = nodes a) : L.Meets kind :=
  List.forall_mem_singleton.2 (Throughout.node hkind ha h)

theorem Meets.type {kind : TypeKind} (ha : L.Meets a) (h : (Node.type kind).children = nodes a) :
    L.Meets kind :=
  List.forall_mem_singleton.2 (Throughout.node (L.other _ rfl nofun) ha h)

theorem Meets.typeLeaf {kind : TypeKind} (h : (Node.type kind).children = []) : L.Meets kind :=
  .type (a := ([] : List Expr)) .nil h

/-- A type without suffix or refinement. -/
theorem Meets.plain {kind : TypeKind} {span : Span} {line : Nat} (h : L.Meets kind) :
    L.Meets (TypeExpr.plain kind span line) :=
  .pair h .none

theorem Meets.pattern {kind : PatternKind} (ha : L.Meets a)
    (h : (Node.pattern kind).children = nodes a) : L.Meets kind :=
  List.forall_mem_singleton.2 (Throughout.node (L.other _ rfl nofun) ha h)

theorem Meets.patternLeaf {kind : PatternKind} (h : (Node.pattern kind).children = []) :
    L.Meets kind :=
  .pattern (a := ([] : List Expr)) .nil h

/-- A statement that is no class and no task meets every law. -/
theorem holds_of_isPlain {kind : StmtKind} (hplain : (Node.stmt kind).isPlain = true) :
    L.holds (.stmt kind) := by
  have hnone : (Node.stmt kind).isAsked = false ∧ (Node.stmt kind).isTask = false := by
    simpa [Node.isPlain] using hplain
  exact L.other _ hnone.1 fun htask => nomatch hnone.2.symm.trans htask

theorem Meets.stmt {kind : StmtKind} (ha : L.Meets a) (h : (Node.stmt kind).children = nodes a)
    (hplain : (Node.stmt kind).isPlain = true) : L.Meets kind :=
  List.forall_mem_singleton.2 (Throughout.node (holds_of_isPlain hplain) ha h)

theorem Meets.stmtLeaf {kind : StmtKind} (h : (Node.stmt kind).children = [])
    (hplain : (Node.stmt kind).isPlain = true) : L.Meets kind :=
  .stmt (a := ([] : List Expr)) .nil h hplain

/-- A statement that is no class. -/
theorem Meets.task {kind : StmtKind} (houtside : L.outside = false) (ha : L.Meets a)
    (h : (Node.stmt kind).children = nodes a) (hasked : (Node.stmt kind).isAsked = false) :
    L.Meets kind :=
  List.forall_mem_singleton.2 (Throughout.node (L.other _ hasked fun _ => houtside) ha h)

/-- A class of which the law holds. -/
theorem Meets.classDecl {c : ClassDecl} (hc : L.holds (.stmt (.classDecl c))) (h : L.Meets c) :
    L.Meets (StmtKind.classDecl c) :=
  List.forall_mem_singleton.2 (Throughout.node hc h rfl)

/-- What stands in a concurrency block counts only if it is asked for. -/
theorem Meets.concurrency {kind : StmtKind} (hblock : (Node.stmt kind).isConcurrency = true)
    (ha : L.outside = false → L.Meets a) (h : (Node.stmt kind).children = nodes a) :
    L.Meets kind := by
  have hplain : (Node.stmt kind).isPlain = true := by
    cases kind <;> first | rfl | cases hblock
  cases houtside : L.outside with
  | false => exact .stmt (ha houtside) h hplain
  | true =>
    have hholds : L.holds (.stmt kind) := holds_of_isPlain hplain
    exact List.forall_mem_singleton.2 (houtside ▸ Throughout.block hholds hblock)

end Law

end LimitSyntax.Grammar
