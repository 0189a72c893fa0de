import LimitSyntax.Proofs.TreeBuilder

/-!
# Trees without recovery

A tree is whole if no node in it was made by recovery and none has an error noted. A builder stays
whole as long as only other nodes are opened (`Tree.Builder.Whole`).
-/

namespace LimitSyntax.Tree

/-- A kind and an error note that no recovery leaves. -/
def Sound (kind : Kind) (error : Option String) : Prop :=
  kind.isRecovery = false ∧ error = none

mutual
/-- No node of an element was made by recovery. -/
def Element.Whole : Element → Prop
  | .token _ => True
  | .node ⟨kind, _, elements, _, error⟩ => Sound kind error ∧ WholeAll elements

/-- Every element of a row is whole. -/
def WholeAll : List Element → Prop
  | [] => True
  | e :: es => e.Whole ∧ WholeAll es
end

theorem wholeAll_iff {es : List Element} : WholeAll es ↔ ∀ e ∈ es, e.Whole := by
  induction es with
  | nil => simp [WholeAll]
  | cons e es ih => simp [WholeAll, ih]

theorem whole_token (t : Token) : (Element.token t).Whole := by
  rw [Element.Whole]
  trivial

theorem whole_node {n : Node} :
    (Element.node n).Whole ↔ Sound n.kind n.error ∧ ∀ e ∈ n.elements, e.Whole := by
  cases n
  rw [Element.Whole, wholeAll_iff]

theorem hereditary_whole : Hereditary Element.Whole := fun _ hn => (whole_node.1 hn).2

/-- No node of a whole tree was made by recovery. -/
theorem sound_of_mem_nodes {tree : Node} (h : (Element.node tree).Whole) {depth : Nat} {n : Node}
    (hn : (depth, n) ∈ tree.nodes) : Sound n.kind n.error :=
  (whole_node.1 (hereditary_whole.of_mem_nodes h hn)).1

/-! ## Builders -/

/-- An open node that recovery has not made, with whole elements. -/
def Frame.Whole (f : Frame) : Prop :=
  Sound f.kind f.error ∧ ∀ e ∈ f.elements.toList, e.Whole

namespace Builder

/-- Every open node is whole. -/
def Whole (b : Builder) : Prop := b.top.Whole ∧ ∀ f ∈ b.below, f.Whole

variable {b : Builder}

theorem whole_empty : Whole {} := ⟨⟨⟨rfl, rfl⟩, by simp⟩, by simp⟩

theorem Whole.push (h : b.Whole) (kept adopted : Array Element)
    (happend : kept.toList ++ adopted.toList = b.top.elements.toList) {kind : Kind}
    (hkind : kind.isRecovery = false) (start : Nat) :
    (b.push { b.top with elements := kept } kind start adopted).Whole := by
  obtain ⟨⟨hsound, hall⟩, hbelow⟩ := h
  rw [← happend] at hall
  refine ⟨⟨⟨hkind, rfl⟩, fun e he => hall e (List.mem_append_right _ he)⟩, ?_⟩
  intro f hf
  rcases List.mem_cons.1 hf with rfl | hf
  · exact ⟨hsound, fun e he => hall e (List.mem_append_left _ he)⟩
  · exact hbelow f hf

theorem Whole.start (h : b.Whole) {kind : Kind} (hkind : kind.isRecovery = false) :
    (b.start kind).Whole :=
  h.push b.top.elements #[] (by simp) hkind b.offset

theorem Whole.startAt (h : b.Whole) (c : Checkpoint) {kind : Kind}
    (hkind : kind.isRecovery = false) : (b.startAt c kind).Whole := by
  obtain ⟨kept, adopted, happend, heq⟩ := b.startAt_eq c kind
  rw [heq]
  exact h.push kept adopted happend hkind _

theorem Whole.add (h : b.Whole) {e : Element} (he : e.Whole) (offset : Nat) :
    ({ b with
      top := { b.top with elements := b.top.elements.push e }
      offset } : Builder).Whole := by
  refine ⟨⟨h.1.1, fun e' he' => ?_⟩, h.2⟩
  rw [Array.toList_push, List.mem_append, List.mem_singleton] at he'
  rcases he' with he' | rfl
  · exact h.1.2 e' he'
  · exact he

theorem Whole.token (h : b.Whole) (t : Token) : (b.token t).Whole := h.add (whole_token t) _

theorem Whole.describe (h : b.Whole) (text : String) : (b.describe text).Whole := h

theorem Whole.finish (h : b.Whole) : b.finish.Whole := by
  unfold Builder.finish
  split
  · exact h
  next parent below hb =>
    obtain ⟨htop, hbelow⟩ := h
    rw [hb] at hbelow
    have hnode : (Element.node (b.top.node (b.top.span b.offset))).Whole := whole_node.2 htop
    have hparent : ({ b with top := parent, below } : Builder).Whole :=
      ⟨hbelow parent List.mem_cons_self, fun f hf => hbelow f (List.mem_cons_of_mem _ hf)⟩
    exact hparent.add hnode b.offset

theorem Whole.finishMany (h : b.Whole) (n : Nat) : (b.finishMany n).Whole := by
  induction n generalizing b with
  | zero => exact h
  | succ n ih => exact ih h.finish

theorem Whole.foldl_token (h : b.Whole) (ts : List Token) :
    (ts.foldl Builder.token b).Whole := by
  induction ts generalizing b with
  | nil => exact h
  | cons t ts ih => exact ih (h.token t)

theorem Whole.tree (h : b.Whole) (length : Nat) : (Element.node (b.tree length)).Whole :=
  whole_node.2 (h.finishMany _).1

end Builder

end LimitSyntax.Tree
