import LimitSyntax.Proofs.ScanLossless
import LimitSyntax.Tree.Builder

/-!
# The leaves of a tree

The tokens of a tree are the leaves of its elements in a row (`Tree.Node.allTokens_eq`). A tree is
ordered if the spans of the elements of every node in it tile the span of the node
(`Tree.Element.Ordered`); if its tokens stand in a source then every node spells the slice of the
source at its span (`Tree.Node.holds_of_mem_nodes`).
-/

namespace LimitSyntax.Tree

open Element

/-! ## Leaves -/

mutual
/-- The tokens of an element in source order. -/
def Element.leaves : Element → List Token
  | .token t => [t]
  | .node ⟨_, _, elements, _, _⟩ => leavesOf elements

/-- The tokens of a row of elements in source order. -/
def leavesOf : List Element → List Token
  | [] => []
  | e :: es => e.leaves ++ leavesOf es
end

@[simp] theorem Element.leaves_token (t : Token) : (Element.token t).leaves = [t] := by
  rw [Element.leaves]

@[simp] theorem Element.leaves_node (n : Node) : (Element.node n).leaves = leavesOf n.elements := by
  cases n
  rw [Element.leaves]

@[simp] theorem leavesOf_nil : leavesOf [] = [] := by rw [leavesOf]

@[simp] theorem leavesOf_cons (e : Element) (es : List Element) :
    leavesOf (e :: es) = e.leaves ++ leavesOf es := by rw [leavesOf]

@[simp] theorem leavesOf_append (es fs : List Element) :
    leavesOf (es ++ fs) = leavesOf es ++ leavesOf fs := by
  induction es with
  | nil => simp
  | cons e es ih => simp [ih]

mutual
theorem walkInto_leaves (out : Array (Nat × Element)) (depth : Nat) (e : Element) :
    (walkInto out depth e).toList.filterMap (fun x => x.2.token?) =
      out.toList.filterMap (fun x => x.2.token?) ++ e.leaves := by
  cases e with
  | token t => simp [walkInto, Element.token?]
  | node n =>
    obtain ⟨kind, span, elements, description, error⟩ := n
    rw [walkInto, walkAllInto_leaves]
    simp [Element.token?]

theorem walkAllInto_leaves (out : Array (Nat × Element)) (depth : Nat) (es : List Element) :
    (walkAllInto out depth es).toList.filterMap (fun x => x.2.token?) =
      out.toList.filterMap (fun x => x.2.token?) ++ leavesOf es := by
  cases es with
  | nil => simp [walkAllInto]
  | cons e es =>
    rw [walkAllInto, walkAllInto_leaves, walkInto_leaves, leavesOf_cons, List.append_assoc]
end

theorem Node.allTokens_eq (n : Node) : n.allTokens = leavesOf n.elements := by
  rw [← Element.leaves_node]
  exact (walkInto_leaves #[] 0 (.node n)).trans (by simp)

theorem Node.reconstruct_eq (n : Node) :
    n.reconstruct = Token.reconstruct (leavesOf n.elements) := by
  rw [Node.reconstruct, Node.allTokens_eq]

/-! ## Order -/

mutual
/-- In every node of an element the spans of the elements tile the span of the node. -/
def Element.Ordered : Element → Prop
  | .token _ => True
  | .node ⟨_, span, elements, _, _⟩ =>
    Span.Tiles span.start span.stop (elements.map Element.span) ∧ OrderedAll elements

/-- Every element of a row is ordered. -/
def OrderedAll : List Element → Prop
  | [] => True
  | e :: es => e.Ordered ∧ OrderedAll es
end

theorem orderedAll_iff {es : List Element} : OrderedAll es ↔ ∀ e ∈ es, e.Ordered := by
  induction es with
  | nil => simp [OrderedAll]
  | cons e es ih => simp [OrderedAll, ih]

theorem ordered_token (t : Token) : (Element.token t).Ordered := by
  rw [Element.Ordered]
  trivial

theorem ordered_node {n : Node} : (Element.node n).Ordered ↔
    Span.Tiles n.span.start n.span.stop (n.elements.map Element.span) ∧
      ∀ e ∈ n.elements, e.Ordered := by
  cases n
  rw [Element.Ordered, orderedAll_iff]

/-! ## All that is below -/

/-- What a node has its elements have. -/
def Hereditary (P : Element → Prop) : Prop := ∀ n : Node, P (.node n) → ∀ e ∈ n.elements, P e

section
variable {P : Element → Prop}

mutual
theorem walkInto_hereditary (hP : Hereditary P) {out : Array (Nat × Element)}
    (hout : ∀ x ∈ out, P x.2) (depth : Nat) {e : Element} (he : P e) :
    ∀ x ∈ walkInto out depth e, P x.2 := by
  cases e with
  | token t =>
    intro x hx
    rw [walkInto, Array.mem_push] at hx
    rcases hx with hx | rfl
    · exact hout x hx
    · exact he
  | node n =>
    obtain ⟨kind, span, elements, description, error⟩ := n
    rw [walkInto]
    refine walkAllInto_hereditary hP (fun x hx => ?_) (depth + 1) (hP _ he)
    rcases Array.mem_push.1 hx with hx | rfl
    · exact hout x hx
    · exact he

theorem walkAllInto_hereditary (hP : Hereditary P) {out : Array (Nat × Element)}
    (hout : ∀ x ∈ out, P x.2) (depth : Nat) {es : List Element} (hes : ∀ e ∈ es, P e) :
    ∀ x ∈ walkAllInto out depth es, P x.2 := by
  cases es with
  | nil => simpa [walkAllInto] using hout
  | cons e es =>
    rw [walkAllInto]
    have hfirst := walkInto_hereditary hP hout depth (hes e List.mem_cons_self)
    exact walkAllInto_hereditary hP hfirst depth fun f hf => hes f (List.mem_cons_of_mem _ hf)
end

/-- What is hereditary and true of a node is true of every node below it. -/
theorem Hereditary.of_mem_nodes (hP : Hereditary P) {n m : Node} {depth : Nat} (h : P (.node n))
    (hm : (depth, m) ∈ n.nodes) : P (.node m) := by
  obtain ⟨⟨depth', e⟩, he, heq⟩ := List.mem_filterMap.1 hm
  cases e with
  | token t => simp [Element.node?] at heq
  | node n' =>
    simp only [Element.node?, Option.map_some, Option.some.injEq, Prod.mk.injEq] at heq
    obtain ⟨rfl, rfl⟩ := heq
    exact walkInto_hereditary hP (by simp) 0 h _ (Array.mem_toList_iff.1 he)

end

theorem hereditary_ordered : Hereditary Element.Ordered := fun _ h => (ordered_node.1 h).2

theorem leaves_subset {es : List Element} {e : Element} (h : e ∈ es) : e.leaves ⊆ leavesOf es := by
  obtain ⟨fs, gs, rfl⟩ := List.append_of_mem h
  intro t ht
  simp [ht]

theorem hereditary_leaves (Q : Token → Prop) : Hereditary fun e => ∀ t ∈ e.leaves, Q t := by
  intro n h e he t ht
  rw [Element.leaves_node] at h
  exact h t (leaves_subset he ht)

/-! ## Slices -/

theorem reconstruct_leavesOf (es : List Element) : Token.reconstruct (leavesOf es) =
    String.join (es.map fun e => Token.reconstruct e.leaves) := by
  induction es with
  | nil => simp [Token.reconstruct]
  | cons e es ih =>
    rw [leavesOf_cons, List.map_cons, String.join_cons, ← ih]
    simp [Token.reconstruct, String.join_append]

section
variable {src : Source}

mutual
theorem holds_leaves {e : Element} (h : e.Ordered) (ht : ∀ t ∈ e.leaves, t.StandsIn src) :
    src.Holds e.span (Token.reconstruct e.leaves) := by
  cases e with
  | token t =>
    simpa [Element.span, Token.reconstruct, String.join_cons] using (ht t (by simp)).holds_source
  | node n =>
    obtain ⟨kind, span, elements, description, error⟩ := n
    obtain ⟨htiles, hall⟩ := ordered_node.1 h
    rw [Element.leaves_node, reconstruct_leavesOf]
    have hbelow := hereditary_leaves (·.StandsIn src) ⟨kind, span, elements, description, error⟩ ht
    exact Source.Holds.join (holds_leavesOf hall hbelow) htiles

theorem holds_leavesOf {es : List Element} (h : ∀ e ∈ es, e.Ordered)
    (ht : ∀ e ∈ es, ∀ t ∈ e.leaves, t.StandsIn src) :
    ∀ e ∈ es, src.Holds e.span (Token.reconstruct e.leaves) := by
  cases es with
  | nil => simp
  | cons e es =>
    have hhead := holds_leaves (h e List.mem_cons_self) (ht e List.mem_cons_self)
    have htail := holds_leavesOf (fun f hf => h f (List.mem_cons_of_mem _ hf)) fun f hf =>
      ht f (List.mem_cons_of_mem _ hf)
    intro f hf
    rcases List.mem_cons.1 hf with rfl | hf
    · exact hhead
    · exact htail f hf
end

/-- In an ordered tree whose tokens stand in a source, every node spells the source at its span. -/
theorem Node.holds_of_mem_nodes {n m : Node} {depth : Nat} (h : (Element.node n).Ordered)
    (ht : ∀ t ∈ n.allTokens, t.StandsIn src) (hm : (depth, m) ∈ n.nodes) :
    src.Holds m.span m.reconstruct := by
  rw [Node.allTokens_eq, ← Element.leaves_node] at ht
  rw [Node.reconstruct_eq, ← Element.leaves_node]
  exact holds_leaves (e := .node m) (hereditary_ordered.of_mem_nodes h hm)
    ((hereditary_leaves _).of_mem_nodes ht hm)

end

end LimitSyntax.Tree
