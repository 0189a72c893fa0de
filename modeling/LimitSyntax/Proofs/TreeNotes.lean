import LimitSyntax.Proofs.TreeBuilder

/-!
# What is noted at the nodes of a tree

A node may be described, and what is wrong with its text may be noted at it. No such note is lost or
made up while a tree is built: opening and closing nodes, putting nodes around others and adding
tokens leave the notes of all nodes, open or closed, as they are.
-/

namespace LimitSyntax.Tree

/-- What is noted at a node. -/
inductive Note where
  | description (text : String)
  | error (text : String)
  deriving DecidableEq

/-- The notes of one node. -/
def noted (description error : Option String) : List Note :=
  description.toList.map .description ++ error.toList.map .error

theorem mem_noted {description error : Option String} {n : Note} :
    n ∈ noted description error ↔ (∃ d, description = some d ∧ n = .description d) ∨
      ∃ e, error = some e ∧ n = .error e := by
  cases description <;> cases error <;> simp [noted]

mutual
/-- The notes of an element and all below it. -/
def Element.notes : Element → List Note
  | .token _ => []
  | .node ⟨_, _, elements, description, error⟩ => noted description error ++ notesOf elements

/-- The notes of all elements of a row. -/
def notesOf : List Element → List Note
  | [] => []
  | e :: es => e.notes ++ notesOf es
end

@[simp] theorem Element.notes_token (t : Token) : (Element.token t).notes = [] := by
  rw [Element.notes]

@[simp] theorem Element.notes_node (n : Node) :
    (Element.node n).notes = noted n.description n.error ++ notesOf n.elements := by
  cases n
  rw [Element.notes]

@[simp] theorem notesOf_nil : notesOf [] = [] := by rw [notesOf]

@[simp] theorem notesOf_cons (e : Element) (es : List Element) :
    notesOf (e :: es) = e.notes ++ notesOf es := by rw [notesOf]

@[simp] theorem notesOf_append (es fs : List Element) :
    notesOf (es ++ fs) = notesOf es ++ notesOf fs := by
  induction es with
  | nil => simp
  | cons e es ih => simp [ih]

theorem notes_subset {es : List Element} {e : Element} (h : e ∈ es) : e.notes ⊆ notesOf es := by
  obtain ⟨fs, gs, rfl⟩ := List.append_of_mem h
  intro n hn
  simp [hn]

theorem hereditary_notes (Q : Note → Prop) : Hereditary fun e => ∀ n ∈ e.notes, Q n := by
  intro n h e he m hm
  rw [Element.notes_node] at h
  exact h m (List.mem_append_right _ (notes_subset he hm))

/-- What holds of every note of a tree holds of those of each node. -/
theorem noted_of_mem_nodes {Q : Note → Prop} {tree : Node}
    (h : ∀ n ∈ (Element.node tree).notes, Q n) {depth : Nat} {m : Node}
    (hm : (depth, m) ∈ tree.nodes) : ∀ n ∈ noted m.description m.error, Q n := by
  have hbelow := (hereditary_notes Q).of_mem_nodes h hm
  intro n hn
  exact hbelow n (by simp [hn])

/-! ## Builders -/

/-- The notes of an open node and all below it. -/
def Frame.notes (f : Frame) : List Note :=
  noted f.description f.error ++ notesOf f.elements.toList

namespace Builder

/-- The notes of all nodes, open or closed. -/
def notes (b : Builder) : List Note := (b.top :: b.below).flatMap Frame.notes

variable {b : Builder}

theorem mem_notes {n : Note} :
    n ∈ b.notes ↔ n ∈ b.top.notes ∨ ∃ f ∈ b.below, n ∈ f.notes := by
  simp [notes]

@[simp] theorem notes_token (b : Builder) (t : Token) : (b.token t).notes = b.notes := by
  simp [notes, token, Frame.notes]

@[simp] theorem notes_foldl_token (b : Builder) (ts : List Token) :
    (ts.foldl token b).notes = b.notes := by
  induction ts generalizing b with
  | nil => rfl
  | cons t ts ih => rw [List.foldl_cons, ih, notes_token]

/-- To put some elements of the current node into a new one. -/
theorem notes_push (kept adopted : Array Element)
    (happend : kept.toList ++ adopted.toList = b.top.elements.toList) (kind : Kind) (start : Nat) :
    (b.push { b.top with elements := kept } kind start adopted).notes ⊆ b.notes := by
  intro n hn
  have hall : n ∈ notesOf kept.toList ∨ n ∈ notesOf adopted.toList ↔
      n ∈ notesOf b.top.elements.toList := by
    rw [← happend, notesOf_append, List.mem_append]
  simp only [notes, push, List.flatMap_cons, List.mem_append, Frame.notes] at hn ⊢
  rw [← hall]
  simp only [noted, Option.toList_none, List.map_nil, List.append_nil, List.not_mem_nil,
    false_or] at hn
  tauto

theorem notes_start (b : Builder) (kind : Kind) : (b.start kind).notes ⊆ b.notes :=
  notes_push b.top.elements #[] (by simp) kind b.offset

theorem notes_startAt (b : Builder) (c : Checkpoint) (kind : Kind) :
    (b.startAt c kind).notes ⊆ b.notes := by
  obtain ⟨kept, adopted, happend, heq⟩ := b.startAt_eq c kind
  rw [heq]
  exact notes_push kept adopted happend kind _

theorem notes_finish (b : Builder) : b.finish.notes ⊆ b.notes := by
  unfold finish
  split
  · exact List.Subset.refl _
  next parent below hb =>
    intro n hn
    simp only [notes, hb, List.flatMap_cons, List.mem_append, Frame.notes, Array.toList_push,
      notesOf_append, notesOf_cons, notesOf_nil, Element.notes_node, Frame.node,
      List.not_mem_nil, or_false] at hn ⊢
    tauto

theorem notes_finishMany (b : Builder) (n : Nat) : (b.finishMany n).notes ⊆ b.notes := by
  induction n generalizing b with
  | zero => exact List.Subset.refl _
  | succ n ih => exact List.Subset.trans (ih b.finish) b.notes_finish

theorem notes_unwind (b : Builder) (depth : Nat) : (b.unwind depth).notes ⊆ b.notes :=
  b.notes_finishMany _

theorem mem_notes_describe {text : String} {n : Note} (h : n ∈ (b.describe text).notes) :
    n ∈ b.notes ∨ n = .description text := by
  simp only [notes, describe, List.flatMap_cons, List.mem_append, Frame.notes, mem_noted,
    Option.some.injEq, exists_eq_left'] at h ⊢
  rcases h with ((hnew | herror) | helements) | hbelow
  · exact .inr hnew
  · exact .inl (.inl (.inl (.inr herror)))
  · exact .inl (.inl (.inr helements))
  · exact .inl (.inr hbelow)

theorem mem_notes_markError {text : String} {n : Note} (h : n ∈ (b.markError text).notes) :
    n ∈ b.notes ∨ n = .error text := by
  simp only [notes, markError, List.flatMap_cons, List.mem_append, Frame.notes, mem_noted,
    Option.some.injEq, exists_eq_left'] at h ⊢
  rcases h with ((hdescription | hnew) | helements) | hbelow
  · exact .inl (.inl (.inl (.inl hdescription)))
  · exact .inr hnew
  · exact .inl (.inl (.inr helements))
  · exact .inl (.inr hbelow)

/-- The notes of the tree are those of its builder. -/
theorem notes_tree (b : Builder) (length : Nat) :
    (Element.node (b.tree length)).notes ⊆ b.notes := by
  intro n hn
  refine b.notes_unwind 1 (mem_notes.2 (.inl ?_))
  simpa [tree, Frame.node, Frame.notes] using hn

end Builder

end LimitSyntax.Tree
