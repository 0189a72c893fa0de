import LimitSyntax.Ast.Names
import LimitSyntax.Proofs.ContextRestored

/-!
# Statements and their nodes

A statement and its node are made side by side: a rule yields the one, and opens and closes the other
on the way. A declaration that is read adds one node to the current one, which has the name of the
statement; modifiers and what is skipped add tokens, annotations and error nodes only
(`Grammar.exec_recoveredRule_gains`).
-/

namespace LimitSyntax

/-! ## Growing nodes -/

namespace Tree

/-- The statements and declarations in a row of elements. -/
def statementsIn (es : List Element) : List Node :=
  (es.filterMap Element.node?).filter fun n => n.kind.isStatement || n.kind.isDeclaration

@[simp] theorem statementsIn_nil : statementsIn [] = [] := rfl

@[simp] theorem statementsIn_append (es fs : List Element) :
    statementsIn (es ++ fs) = statementsIn es ++ statementsIn fs := by
  simp [statementsIn]

@[simp] theorem statementsIn_token (t : Token) : statementsIn [.token t] = [] := rfl

theorem statementsIn_node (n : Node) : statementsIn [.node n] =
    if n.kind.isStatement || n.kind.isDeclaration then [n] else [] := by
  cases h : n.kind.isStatement || n.kind.isDeclaration <;> simp_all [statementsIn, Element.node?]

namespace Builder

variable {b b' b'' : Builder} {ns ms : List Node} {n : Node}

/-- Elements were added to the current node, and `ns` are the statements and declarations among
them. -/
structure Gains (ns : List Node) (b b' : Builder) : Prop where
  below : b'.below = b.below
  start : b'.top.start = b.top.start
  elements : ∃ es, b'.top.elements.toList = b.top.elements.toList ++ es ∧ statementsIn es = ns

/-- The node `n` was added to the current node. -/
structure Adds (n : Node) (b b' : Builder) : Prop where
  below : b'.below = b.below
  start : b'.top.start = b.top.start
  elements : b'.top.elements.toList = b.top.elements.toList ++ [.node n]

theorem Gains.refl (b : Builder) : Gains [] b b := ⟨rfl, rfl, [], by simp, rfl⟩

theorem Gains.trans (h : Gains ns b b') (h' : Gains ms b' b'') : Gains (ns ++ ms) b b'' := by
  obtain ⟨es, hes, hns⟩ := h.elements
  obtain ⟨fs, hfs, hms⟩ := h'.elements
  refine ⟨h'.below.trans h.below, h'.start.trans h.start, es ++ fs, ?_, ?_⟩
  · rw [hfs, hes, List.append_assoc]
  · rw [statementsIn_append, hns, hms]

/-- What was added can be read off. -/
theorem Gains.unique (h : Gains ns b b') (h' : Gains ms b b') : ns = ms := by
  obtain ⟨es, hes, rfl⟩ := h.elements
  obtain ⟨fs, hfs, rfl⟩ := h'.elements
  rw [List.append_cancel_left (hes.symm.trans hfs)]

theorem gains_token (b : Builder) (t : Token) : Gains [] b (b.token t) :=
  ⟨rfl, rfl, [.token t], by simp [token], rfl⟩

theorem gains_foldl_token (b : Builder) (ts : List Token) :
    Gains [] b (ts.foldl Builder.token b) := by
  induction ts generalizing b with
  | nil => exact .refl b
  | cons t ts ih => exact (b.gains_token t).trans (ih _)

/-- A node that is no statement adds none. -/
theorem Adds.gains_nil (h : Adds n b b')
    (hn : (n.kind.isStatement || n.kind.isDeclaration) = false) : Gains [] b b' :=
  ⟨h.below, h.start, _, h.elements, by rw [statementsIn_node, hn]; rfl⟩

theorem Adds.gains (h : Adds n b b') (hn : (n.kind.isStatement || n.kind.isDeclaration) = true) :
    Gains [n] b b' :=
  ⟨h.below, h.start, _, h.elements, by rw [statementsIn_node, hn]; rfl⟩

/-- If the elements tile the text before and after a node was added, then the node spans all that was
read in between. -/
theorem Adds.span_eq (h : Adds n b b') (hb : b.Ordered) (hb' : b'.Ordered) :
    n.span = ⟨b.offset, b'.offset⟩ := by
  obtain ⟨⟨htiles, -⟩, -⟩ := hb
  obtain ⟨⟨htiles', -⟩, -⟩ := hb'
  rw [h.elements, h.start, List.map_append] at htiles'
  obtain ⟨middle, hinit, hstart, -, hstop⟩ := htiles'.of_append
  have hmiddle : middle = b.offset := hinit.stop_unique htiles
  exact congrArg₂ Span.mk (hstart.trans hmiddle) hstop

/-- A checkpoint is found again after more elements were added. -/
theorem Gains.outline_startAt (h : Gains ns b b') (kind : Kind) :
    (b'.startAt b.checkpoint kind).outline =
      (kind, { b'.top with elements := b.top.elements } :: b'.below) := by
  obtain ⟨es, hes, -⟩ := h.elements
  have hdepth : b.depth = b'.depth := by rw [depth, depth, h.below]
  have hsize : b.top.elements.size ≤ b'.top.elements.size := by
    have := congrArg List.length hes
    simp at this
    omega
  have hkept : b'.top.elements.shrink b.top.elements.size = b.top.elements := by
    apply Array.toList_inj.1
    rw [Array.toList_shrink, hes, ← Array.length_toList, List.take_left]
  have hfound : ¬ (b.checkpoint.depth ≠ b'.depth ∨ b'.top.elements.size < b.checkpoint.index) := by
    rintro (hne | hlt)
    · exact hne hdepth
    · exact absurd hsize (Nat.not_le_of_lt hlt)
  rw [startAt, if_neg hfound]
  simp only [push, outline, checkpoint, hkept]

end Builder

end Tree

namespace Grammar

open Ast
open LimitSyntax.Tree (Builder)

section
variable {α : Type} {p : Parse α} {f : Builder → Builder} {kind : Tree.Kind}
  {parent : Tree.Frame} {below : List Tree.Frame} {i : Input} {s t : State} {b : Builder} {a : α}

/-- A node that is opened and closed is added to the node around it. -/
theorem Framed.adds (hp : Framed p) (hb : s.tree = some b)
    (hopen : (f b).outline = (kind, parent :: below))
    (h : exec (Grammar.onTree f >>= fun _ => p >>= fun a => closeNode >>= fun _ => Pure.pure a) i s =
      (.ok a, t)) :
    ∃ b' n, t.tree = some b' ∧ n.kind = kind ∧ b'.below = below ∧
      b'.top = { parent with elements := parent.elements.push (.node n) } := by
  obtain ⟨u, hrun, rfl⟩ := exec_node_eq_ok h
  have htree := (hp.ok hrun).tree
  rw [State.mapTree, hb, Option.map_some] at htree
  obtain ⟨b', hu, houtline⟩ : ∃ b', u.tree = some b' ∧ b'.outline = (f b).outline := by
    generalize u.tree = x at htree
    cases htree with
    | some hb' => exact ⟨_, rfl, hb'⟩
  rw [hopen] at houtline
  obtain ⟨hbelow, htop⟩ := Tree.Builder.finish_of_below (congrArg Prod.snd houtline)
  exact ⟨b'.finish, _, by simp [State.mapTree, hu], congrArg Prod.fst houtline, hbelow, htop⟩

/-- A node that was left open is in the node around it. -/
theorem Framed.leaves (hp : Framed p) (hb : s.tree = some b)
    (hopen : (f b).outline = (kind, parent :: below)) {e : Unit}
    (h : exec (Grammar.onTree f >>= fun _ => p >>= fun a => closeNode >>= fun _ => Pure.pure a) i s =
      (.error e, t)) :
    ∃ b' inner, t.tree = some b' ∧ b'.top :: b'.below = inner ++ parent :: below := by
  have htree := (hp.error (exec_node_eq_error h)).tree
  rw [State.mapTree, hb, Option.map_some] at htree
  obtain ⟨b', ht, inner, g, happend, -⟩ : ∃ b', t.tree = some b' ∧ (f b).Within b' := by
    generalize t.tree = x at htree
    cases htree with
    | some hb' => exact ⟨_, rfl, hb'⟩
  have hbelow : (f b).below = parent :: below := congrArg Prod.snd hopen
  exact ⟨b', inner ++ [g], ht, by rw [happend, hbelow]; simp⟩

variable {b₁ : Builder} {ns : List Tree.Node} {e : Unit}

theorem exec_inNode_adds (hp : Framed p) (hb : s.tree = some b)
    (h : exec (inNode kind p) i s = (.ok a, t)) :
    ∃ b' n, t.tree = some b' ∧ n.kind = kind ∧ b.Adds n b' := by
  have hopen : (b.start kind).outline = (kind, b.top :: b.below) := rfl
  obtain ⟨b', n, ht, hkind, hbelow, htop⟩ := hp.adds hb hopen h
  exact ⟨b', n, ht, hkind, hbelow, by rw [htop], by rw [htop]; simp⟩

/-- A node around all that was added since a checkpoint takes its place. -/
theorem exec_inNodeAt_adds (hp : Framed p) (hb : s.tree = some b₁) (hgains : b.Gains ns b₁)
    (h : exec (inNodeAt (some b.checkpoint) kind p) i s = (.ok a, t)) :
    ∃ b' n, t.tree = some b' ∧ n.kind = kind ∧ b.Adds n b' := by
  obtain ⟨b', n, ht, hkind, hbelow, htop⟩ := hp.adds hb (hgains.outline_startAt kind) h
  refine ⟨b', n, ht, hkind, hbelow.trans hgains.below, ?_, ?_⟩
  · rw [htop]
    exact hgains.start
  · rw [htop]
    simp

end

/-! ## Modifiers -/

section
variable {rules : Rules} {i : Input} {s t : State} {b : Builder}

theorem exec_advance_gains {token : Token} (hb : s.tree = some b)
    (h : exec advance i s = (.ok token, t)) : ∃ b', t.tree = some b' ∧ b.Gains [] b' := by
  rw [exec_advance] at h
  cases hrest : s.rest with
  | nil =>
    rw [hrest] at h
    cases h
    exact ⟨b, hb, .refl b⟩
  | cons u us =>
    rw [hrest] at h
    obtain ⟨-, rfl⟩ := Prod.mk.inj h
    split
    · exact ⟨b, hb, .refl b⟩
    · exact ⟨b.token u, by simp [State.take, hb], b.gains_token u⟩

/-- Modifiers are tokens and annotations. -/
theorem exec_modifiers_gains {mods : Modifiers} (hb : s.tree = some b)
    (h : exec (modifiers rules) i s = (.ok mods, t)) :
    ∃ b', t.tree = some b' ∧ b.Gains [] b' := by
  rw [modifiers] at h
  generalize ({} : Modifiers) = start at h
  generalize rules.bound = bound at h
  induction bound generalizing start s b with
  | zero =>
    cases h
    exact ⟨b, hb, .refl b⟩
  | succ bound ih =>
    obtain ⟨⟨next, more⟩, u, hturn, hrest⟩ := exec_bind_eq_ok h
    obtain ⟨b₁, hu, hgains⟩ : ∃ b₁, u.tree = some b₁ ∧ b.Gains [] b₁ := by
      obtain ⟨token, v, hpeek, hturn⟩ := exec_bind_eq_ok hturn
      cases hpeek
      dsimp only at hturn
      split at hturn
      next =>
        cases hturn
        exact ⟨b, hb, .refl b⟩
      next =>
        split at hturn
        · obtain ⟨_, v, hnode, hturn⟩ := exec_bind_eq_ok hturn
          cases hturn
          obtain ⟨b₁, n, hv, hkind, hadds⟩ := exec_inNode_adds .advance hb hnode
          exact ⟨b₁, hv, hadds.gains_nil (by rw [hkind]; rfl)⟩
        · obtain ⟨_, v, hadvance, hturn⟩ := exec_bind_eq_ok hturn
          cases hturn
          exact exec_advance_gains hb hadvance
    cases more with
    | true =>
      obtain ⟨b', ht, hgains'⟩ := ih hu next hrest
      exact ⟨b', ht, hgains.trans hgains'⟩
    | false =>
      cases hrest
      exact ⟨b₁, hu, hgains⟩

theorem Total.modifiers : Total (modifiers rules) := by
  refine .repeatUpTo (fun mods => .bind (look fun i s => exec_peekAt i s 0) fun token => ?_) _ _
  dsimp only
  split
  · exact .pure _
  · have hnode : Total (inNode .annotated Grammar.advance) :=
      .bind (.change _) fun _ => .bind .advance fun _ => .bind (.change _) fun _ => .pure _
    exact .ite (.bind hnode fun _ => .pure _) (.bind .advance fun _ => .pure _)

/-! ## Statements and their nodes -/

namespace Yields

variable (rules : Rules)

theorem printStatement : Yields (·.name = "PrintStatement") (printStatement rules) := by
  have hend : ∀ args, Yields (·.name = "PrintStatement") (do
      let _ ← eat .semicolon
      return StmtKind.print args) := fun _ => .bind fun _ => .pure rfl
  exact .bind fun _ => .bind fun _ => .ite
    (.bind fun _ => .ite (.bind fun _ => .bind fun _ => .bind hend)
      (.bind fun _ => .bind fun _ => .bind hend))
    (.bind hend)

theorem forStatement : Yields (·.name = "ForStatement") (forStatement rules) :=
  .bind fun _ => .bind fun _ => .bind fun _ => .ite
    (.bind fun _ => .bind fun _ => .bind fun _ => .pure rfl)
    (.bind fun _ => .bind fun _ => .bind fun _ => .bind fun _ => .bind fun _ => .bind fun _ =>
      .pure rfl)

theorem returnStatement : Yields (·.name = "ReturnStatement") (returnStatement rules) := by
  have hend : ∀ value, Yields (·.name = "ReturnStatement") (do
      let _ ← eat .semicolon
      return StmtKind.returns value) := fun _ => .bind fun _ => .pure rfl
  refine .bind fun _ => .bind fun next => ?_
  split
  all_goals exact .bind hend

theorem taskStatement : Yields (·.name = "TaskStatement") (taskStatement rules) := by
  have hend : ∀ var : Option String, Yields (StmtKind.name · = "TaskStatement") (do
      let iterable ← rules.call .expression
      let _ ← consume .rightParen "Expected ')' after task header."
      return .task var iterable (← block rules "task" "Expected '\x7b' after task header.")) :=
    fun _ => .bind fun _ => .bind fun _ => .bind fun _ => .pure rfl
  exact .bind fun _ => .bind fun _ => .bind fun _ => .bind fun _ => .ite
    (.bind fun _ => .bind fun _ => .bind hend) (.bind hend)

theorem workerStatement : Yields (·.name = "WorkerStatement") (workerStatement rules) := by
  have hend : ∀ param : Option String, Yields (StmtKind.name · = "WorkerStatement") (do
      let _ ← consume .rightParen "Expected ')' after worker parameter."
      return .worker param (← block rules "worker" "Expected '\x7b' after worker header.")) :=
    fun _ => .bind fun _ => .bind fun _ => .pure rfl
  exact .bind fun _ => .bind fun _ => .bind fun _ => .ite (.bind fun _ => .bind hend) (.bind hend)

/-- A statement has the name of its node. -/
theorem statementOf {node : Tree.Kind} (h : node.isStatement = true) :
    Yields (·.name = node.name) (statementOf rules node) := by
  cases node
  case printStatement => exact .printStatement rules
  case forStatement => exact .forStatement rules
  case returnStatement => exact .returnStatement rules
  case taskStatement => exact .taskStatement rules
  case workerStatement => exact .workerStatement rules
  case ifStatement =>
    exact .bind fun _ => .bind fun _ => .bind fun _ => .bind fun _ => .bind fun _ => .bind fun _ =>
      .pure rfl
  case whileStatement =>
    exact .bind fun _ => .bind fun _ => .bind fun _ => .bind fun _ => .bind fun _ => .pure rfl
  case iterStatement =>
    exact .bind fun _ => .bind fun _ => .bind fun _ => .bind fun _ => .bind fun _ => .pure rfl
  case matchStatement =>
    exact .bind fun _ => .bind fun _ => .bind fun _ => .bind fun _ => .bind fun _ => .bind fun _ =>
      .pure rfl
  case contractStatement =>
    exact .bind fun _ => .bind fun _ => .bind fun _ => .bind fun _ => .bind fun _ => .bind fun _ =>
      .pure rfl
  case blockStatement | breakStatement | continueStatement | unsafeStatement | comptimeStatement
      | expressionStatement =>
    exact .bind fun _ => .bind fun _ => .pure rfl
  case parallelStatement | concurrentStatement => exact .bind fun _ => .pure rfl
  all_goals cases h

/-- A declaration has the name of its node. -/
theorem declarationOf (mods : Modifiers) {node : Tree.Kind} (h : node.isDeclaration = true) :
    Yields (·.name = node.name) (declarationOf rules mods node) := by
  cases node
  case destructuringDeclaration =>
    exact .bind fun _ => .bind fun _ => .bind fun _ => .bind fun _ => .bind fun _ => .bind fun _ =>
      .bind fun _ => .pure rfl
  case enumDeclaration =>
    exact .bind fun _ => .bind fun _ => .bind fun _ => .bind fun _ => .bind fun _ => .pure rfl
  case typeDeclaration =>
    exact .bind fun _ => .bind fun _ => .bind fun _ => .bind fun _ => .bind fun _ => .pure rfl
  case moduleDeclaration =>
    exact .bind fun _ => .bind fun _ => .bind fun _ => .bind fun _ => .bind fun _ => .pure rfl
  case classDeclaration | functionDeclaration | varDeclaration | importStatement
      | traitDeclaration | interfaceDeclaration =>
    exact .bind fun _ => .pure rfl
  all_goals cases h

end Yields

theorem isStatement_statementNode (concurrent : Bool) (first second : Token) :
    (statementNode concurrent first second).isStatement = true := by
  unfold statementNode
  split
  case h_16 =>
    split
    · split <;> rfl
    · rfl
  all_goals rfl

theorem isDeclaration_of_declarationNode? {mods : Modifiers} {first second : Token}
    {node : Tree.Kind} (h : declarationNode? mods first second = some node) :
    node.isDeclaration = true := by
  unfold declarationNode? at h
  split at h
  case h_3 =>
    split at h <;> cases h <;> rfl
  case h_4 =>
    split at h
    · cases h
      rfl
    · cases h
  case h_11 => cases h
  all_goals
    cases h
    rfl

/-- The node is that of the statement. -/
structure Depicts (n : Tree.Node) (stmt : Stmt) : Prop where
  listed : (n.kind.isStatement || n.kind.isDeclaration) = true
  name : n.kind.name = stmt.kind.name

theorem names_of_depicts {ns : List Tree.Node} {stmts : List Stmt}
    (h : List.Forall₂ Depicts ns stmts) : ns.map (·.kind.name) = stmts.map (·.kind.name) := by
  induction h with
  | nil => rfl
  | cons hn _ ih => rw [List.map_cons, List.map_cons, hn.name, ih]

variable (rules i s) in
/-- A statement is read inside its node. -/
theorem exec_statementRule : ∃ node line, node.isStatement = true ∧
    exec (statementRule rules) i s = exec (do
      let kind ← inNode node (statementOf rules node)
      return ⟨kind, ← spanFrom (s.rest[0]?.getD i.eof).span.start, line⟩) i s :=
  ⟨_, _, isStatement_statementNode s.concurrent (s.rest[0]?.getD i.eof) (s.rest[1]?.getD i.eof), rfl⟩

variable (rules i s) in
/-- A declaration is a statement behind modifiers, or is read inside a node around these. -/
theorem exec_declarationRule : ∃ mods u line, exec (modifiers rules) i s = (.ok mods, u) ∧
    (exec (declarationRule rules) i s = exec (statementRule rules) i u ∨
      ∃ node, node.isDeclaration = true ∧ exec (declarationRule rules) i s = exec (do
        let kind ← inNodeAt (s.tree.map (·.checkpoint)) node (declarationOf rules mods node)
        return ⟨kind, ← spanFrom (s.rest[0]?.getD i.eof).span.start, line⟩) i u) := by
  have htotal : Total (modifiers rules) := .modifiers
  obtain ⟨mods, u, hmods⟩ := htotal i s
  refine ⟨mods, u, (s.rest[0]?.getD i.eof).line, hmods, ?_⟩
  have hstart : exec startPos i s = (.ok ((s.rest[0]?.getD i.eof).span.start,
    (s.rest[0]?.getD i.eof).line), s) := rfl
  have hcheckpoint : exec checkpoint i s = (.ok (s.tree.map (·.checkpoint)), s) := rfl
  have hpeek : exec peek i u = (.ok (u.rest[0]?.getD i.eof), u) := rfl
  rw [declarationRule, exec_bind_ok i hstart, exec_bind_ok i hcheckpoint, exec_bind_ok i hmods,
    exec_bind_ok i hpeek, exec_bind_ok i (exec_peekAt i u 1)]
  cases hnode : declarationNode? mods (u.rest[0]?.getD i.eof) (u.rest[1]?.getD i.eof) with
  | none => exact .inl rfl
  | some node => exact .inr ⟨node, isDeclaration_of_declarationNode? hnode, rfl⟩

end

/-! ## Declarations and their nodes -/

section
variable {rules : Rules} {i : Input} {s t : State} {b : Builder} {stmt : Stmt}

/-- A parser inside a node, and the span of what it has read. -/
theorem exec_spanned {p : Parse StmtKind} {start line : Nat}
    (h : exec (p >>= fun kind => spanFrom start >>= fun span => pure ⟨kind, span, line⟩) i s =
      (.ok stmt, t)) :
    exec p i s = (.ok stmt.kind, t) ∧ exec (spanFrom start) i t = (.ok stmt.span, t) := by
  obtain ⟨kind, u, hp, h⟩ := exec_bind_eq_ok h
  rw [exec_bind_ok i (exec_spanFrom ..)] at h
  cases h
  exact ⟨hp, exec_spanFrom ..⟩

theorem exec_spanned_error {p : Parse StmtKind} {start line : Nat} {e : Unit}
    (h : exec (p >>= fun kind => spanFrom start >>= fun span =>
      (pure ⟨kind, span, line⟩ : Parse Stmt)) i s = (.error e, t)) :
    exec p i s = (.error e, t) := by
  rcases exec_bind_eq_error h with hp | ⟨kind, u, -, h⟩
  · exact hp
  · rw [exec_bind_ok i (exec_spanFrom ..)] at h
    cases h

theorem exec_statementRule_adds (hr : rules.Lawful) (hb : s.tree = some b)
    (h : exec (statementRule rules) i s = (.ok stmt, t)) :
    ∃ b' n, t.tree = some b' ∧ b.Adds n b' ∧ Depicts n stmt ∧
      exec (spanFrom (s.rest[0]?.getD i.eof).span.start) i t = (.ok stmt.span, t) := by
  obtain ⟨node, line, hnode, heq⟩ := exec_statementRule rules i s
  obtain ⟨hrun, hspan⟩ := exec_spanned (heq ▸ h)
  obtain ⟨b', n, ht, hkind, hadds⟩ :=
    exec_inNode_adds (Alike.statementOf hr node).framed hb hrun
  have hname : stmt.kind.name = node.name := by
    obtain ⟨u, hu, -⟩ := exec_node_eq_ok hrun
    exact Yields.statementOf rules hnode _ _ _ _ hu
  refine ⟨b', n, ht, hadds, ⟨?_, ?_⟩, hspan⟩
  · rw [hkind, hnode]
    rfl
  · rw [hkind, hname]

/-- A declaration that is read adds its node. If it is a statement, then the modifiers in front of it
come before the node. -/
theorem exec_declarationRule_adds (hr : rules.Lawful) (hb : s.tree = some b)
    (h : exec (declarationRule rules) i s = (.ok stmt, t)) :
    ∃ u b₁ b' n, (u = s ∨ ∃ mods, exec (modifiers rules) i s = (.ok mods, u) ∧
        exec (statementRule rules) i u = (.ok stmt, t)) ∧
      u.tree = some b₁ ∧ b.Gains [] b₁ ∧ t.tree = some b' ∧ b₁.Adds n b' ∧ Depicts n stmt ∧
      exec (spanFrom (u.rest[0]?.getD i.eof).span.start) i t = (.ok stmt.span, t) := by
  obtain ⟨mods, u, line, hmods, hcases⟩ := exec_declarationRule rules i s
  obtain ⟨b₁, hu, hgains⟩ := exec_modifiers_gains hb hmods
  rcases hcases with heq | ⟨node, hnode, heq⟩
  · have hstatement := heq ▸ h
    obtain ⟨b', n, ht, hadds, hdepicts, hspan⟩ := exec_statementRule_adds hr hu hstatement
    exact ⟨u, b₁, b', n, .inr ⟨mods, hmods, hstatement⟩, hu, hgains, ht, hadds, hdepicts, hspan⟩
  · obtain ⟨hrun, hspan⟩ := exec_spanned (heq ▸ h)
    rw [hb] at hrun
    obtain ⟨b', n, ht, hkind, hadds⟩ :=
      exec_inNodeAt_adds (Twin.declarationOf hr mods node).alike.framed hu hgains hrun
    have hname : stmt.kind.name = node.name := by
      obtain ⟨v, hv, -⟩ := exec_node_eq_ok hrun
      exact Yields.declarationOf rules mods hnode _ _ _ _ hv
    refine ⟨s, b, b', n, .inl rfl, hb, .refl b, ht, hadds, ⟨?_, ?_⟩, hspan⟩
    · rw [hkind, hnode, Bool.or_true]
    · rw [hkind, hname]

/-- A declaration that is given up has left all that was there before it in place. -/
theorem exec_declarationRule_unwind (hr : rules.Lawful) (hb : s.tree = some b) {e : Unit}
    (h : exec (declarationRule rules) i s = (.error e, t)) :
    ∃ b' ns, t.tree = some b' ∧ b.Gains ns (b'.unwind b.depth) := by
  obtain ⟨mods, u, line, hmods, hcases⟩ := exec_declarationRule rules i s
  obtain ⟨b₁, hu, hgains⟩ := exec_modifiers_gains hb hmods
  -- whatever the kind of node, the node around it has only gained elements
  obtain ⟨b', inner, parent, ht, happend, hstart, es, helements⟩ : ∃ b' inner parent,
      t.tree = some b' ∧ b'.top :: b'.below = inner ++ parent :: b.below ∧
      parent.start = b.top.start ∧
      ∃ es, parent.elements.toList = b.top.elements.toList ++ es := by
    rcases hcases with heq | ⟨node, -, heq⟩
    · obtain ⟨node, line, -, heq'⟩ := exec_statementRule rules i u
      have hrun := exec_spanned_error (heq' ▸ heq ▸ h)
      have hopen : (b₁.start node).outline = (node, b₁.top :: b₁.below) := rfl
      obtain ⟨b', inner, ht, happend⟩ :=
        (Alike.statementOf hr node).framed.leaves hu hopen hrun
      obtain ⟨es, hes, -⟩ := hgains.elements
      exact ⟨b', inner, b₁.top, ht, hgains.below ▸ happend, hgains.start, es, hes⟩
    · have hrun := exec_spanned_error (heq ▸ h)
      rw [hb] at hrun
      obtain ⟨b', inner, ht, happend⟩ := (Twin.declarationOf hr mods node).alike.framed.leaves hu
        (hgains.outline_startAt node) hrun
      rw [hgains.below] at happend
      exact ⟨b', inner, _, ht, happend, hgains.start, [], (List.append_nil _).symm⟩
  obtain ⟨more, hbelow, htop⟩ := Tree.Builder.unwind_of_inner happend
  refine ⟨b', _, ht, hbelow, ?_, es ++ more.toList, ?_, rfl⟩
  · exact (congrArg Tree.Frame.start htop).trans hstart
  · rw [Builder.depth, htop, Array.toList_append, helements, List.append_assoc]

/-- A declaration that does not meet the grammar adds an error node. -/
theorem exec_recoveredRule_gains (hr : rules.Lawful) (hb : s.tree = some b) {stmt : Option Stmt}
    (h : exec (recoveredRule rules) i s = (.ok stmt, t)) :
    ∃ b' ns, t.tree = some b' ∧ b.Gains ns b' ∧ List.Forall₂ Depicts ns stmt.toList := by
  rw [recoveredRule, exec_recovering] at h
  rcases hrun : exec (declarationRule rules) i s with ⟨_ | stmt, u⟩
  · rw [hrun] at h
    obtain ⟨_, v, hrecover, h⟩ := exec_bind_eq_ok h
    cases h
    obtain ⟨_, w, hreturn, hnode⟩ := exec_bind_eq_ok hrecover
    cases hreturn
    obtain ⟨b₁, ns, hu, hgains⟩ := exec_declarationRule_unwind hr hb hrun
    have hplace : s.place.checkpoint = some b.checkpoint := by rw [State.place, hb]; rfl
    have hreturned : (u.returnTo s.place).tree = some (b₁.unwind b.depth) := by
      simp [State.returnTo, State.place, hu, hb]
    have hskip : ∀ progress, Framed (synchronize rules progress) :=
      fun progress => (Twin.synchronize rules progress).alike.framed
    rw [hplace] at hnode
    obtain ⟨b', n, ht, hkind, hadds⟩ :=
      exec_inNodeAt_adds (.skipping hskip s.place) hreturned hgains hnode
    exact ⟨b', [], ht, hadds.gains_nil (by rw [hkind]; rfl), .nil⟩
  · rw [hrun] at h
    cases h
    obtain ⟨_, b₁, b', n, -, -, hgains, ht, hadds, hdepicts, -⟩ :=
      exec_declarationRule_adds hr hb hrun
    exact ⟨b', [n], ht, hgains.trans (hadds.gains hdepicts.listed), .cons hdepicts .nil⟩

end

end Grammar

end LimitSyntax
