import LimitSyntax.Proofs.TreeLeaves

/-!
# What a builder keeps

The leaves of a builder are the tokens of all its open nodes, outermost first. No change of the tree
(`Tree.Builder.Edit`) touches them: nodes are opened, closed and put around elements in place. If
every token is added where the last one ended, then the elements of the open nodes tile the text up
to the end of the last token, and so do those of every closed node (`Tree.Builder.Ordered`).
-/

namespace LimitSyntax.Tree

/-- The tokens of an open node. -/
def Frame.leaves (f : Frame) : List Token := leavesOf f.elements.toList

/-- The span of a node whose elements tile a stretch is that stretch. -/
theorem Frame.span_of_tiles {f : Frame} {stop : Nat}
    (h : Span.Tiles f.start stop (f.elements.toList.map Element.span)) :
    f.span stop = ⟨f.start, stop⟩ := by
  cases hes : f.elements.toList with
  | nil =>
    rw [hes] at h
    have hempty : f.elements = #[] := Array.toList_eq_nil_iff.1 hes
    have hstop : f.start = stop := h
    simp [Frame.span, hempty, Span.empty, hstop]
  | cons e es =>
    have hfirst : f.elements[0]? = some e := by rw [← Array.getElem?_toList, hes]; rfl
    obtain ⟨init, last, hlist⟩ : ∃ init last, f.elements.toList = init ++ [last] :=
      ⟨_, _, (List.dropLast_append_getLast (hes ▸ List.cons_ne_nil e es)).symm⟩
    have hback : f.elements.back? = some last := by
      rw [Array.back?_eq_getElem?, ← Array.getElem?_toList, ← Array.length_toList, hlist]
      simp
    have hstart : e.span.start = f.start := by
      rw [hes] at h
      exact h.1
    have hstop : last.span.stop = stop := h.last (by simp [hlist])
    have hfirstMem := h.mem (s := e.span) (by simp [hes])
    have hlastMem := h.mem (s := last.span) (by simp [hlist])
    simp only [Frame.span, hfirst, hback, Span.cover, Span.mk.injEq]
    omega

namespace Builder

/-- The tokens of all open nodes in source order. -/
def leaves (b : Builder) : List Token := b.below.reverse.flatMap Frame.leaves ++ b.top.leaves

/-- A change of the tree that neither adds nor removes a token. -/
inductive Edit : (Builder → Builder) → Prop where
  | start (kind : Kind) : Edit (·.start kind)
  | startAt (c : Checkpoint) (kind : Kind) : Edit (·.startAt c kind)
  | describe (text : String) : Edit (·.describe text)
  | markError (text : String) : Edit (·.markError text)
  | finish : Edit (·.finish)
  | unwind (depth : Nat) : Edit (·.unwind depth)

/-! ## The elements around a checkpoint -/

/-- The elements that a checkpoint divides. -/
theorem extract_append (elements : Array Element) (index : Nat) :
    (elements.shrink index).toList ++ (elements.extract index).toList = elements.toList := by
  have hdrop : (elements.extract index).toList = elements.toList.drop index := by
    rw [Array.toList_extract, List.extract_eq_take_drop]
    exact List.take_of_length_le (by simp)
  rw [hdrop, Array.toList_shrink, List.take_append_drop]

/-- Opening a node at a checkpoint puts some of the last elements of the current node into it. -/
theorem startAt_eq (b : Builder) (c : Checkpoint) (kind : Kind) :
    ∃ kept adopted : Array Element, kept.toList ++ adopted.toList = b.top.elements.toList ∧
      b.startAt c kind = b.push { b.top with elements := kept } kind
        ((adopted[0]?.map (·.span.start)).getD b.offset) adopted := by
  unfold startAt
  split
  · exact ⟨b.top.elements, #[], by simp, rfl⟩
  · exact ⟨_, _, extract_append b.top.elements c.index, rfl⟩

/-! ## Leaves -/

theorem leaves_push (b : Builder) (parent : Frame) (kind : Kind) (start : Nat)
    (elements : Array Element) : (b.push parent kind start elements).leaves =
      b.below.reverse.flatMap Frame.leaves ++ parent.leaves ++ leavesOf elements.toList := by
  simp [leaves, push, Frame.leaves]

@[simp] theorem leaves_token (b : Builder) (t : Token) : (b.token t).leaves = b.leaves ++ [t] := by
  simp [leaves, token, Frame.leaves]

@[simp] theorem leaves_start (b : Builder) (kind : Kind) : (b.start kind).leaves = b.leaves := by
  rw [start, leaves_push]
  simp [leaves]

@[simp] theorem leaves_startAt (b : Builder) (c : Checkpoint) (kind : Kind) :
    (b.startAt c kind).leaves = b.leaves := by
  obtain ⟨kept, adopted, happend, heq⟩ := b.startAt_eq c kind
  rw [heq, leaves_push, leaves, Frame.leaves, Frame.leaves, ← happend, leavesOf_append,
    List.append_assoc]

@[simp] theorem leaves_finish (b : Builder) : b.finish.leaves = b.leaves := by
  unfold finish
  split
  · rfl
  next parent below h => simp [leaves, h, Frame.leaves, Frame.node]

@[simp] theorem leaves_finishMany (b : Builder) (n : Nat) : (b.finishMany n).leaves = b.leaves := by
  induction n generalizing b with
  | zero => rfl
  | succ n ih => rw [finishMany, ih, leaves_finish]

theorem Edit.leaves_eq {f : Builder → Builder} (hf : Edit f) (b : Builder) :
    (f b).leaves = b.leaves := by
  cases hf with
  | start kind => exact leaves_start b kind
  | startAt c kind => exact leaves_startAt b c kind
  | describe | markError => rfl
  | finish => exact leaves_finish b
  | unwind depth => exact leaves_finishMany b _

theorem below_finish (b : Builder) : b.finish.below = b.below.tail := by
  unfold finish
  split
  next h => simp [h]
  next h => simp [h]

theorem below_finishMany (b : Builder) (n : Nat) : (b.finishMany n).below = b.below.drop n := by
  induction n generalizing b with
  | zero => rfl
  | succ n ih => rw [finishMany, ih, below_finish, List.drop_tail]

/-- All nodes but the root are closed in the end. -/
theorem below_unwind_one (b : Builder) : (b.unwind 1).below = [] := by
  rw [unwind, below_finishMany]
  exact List.drop_of_length_le (by simp [depth])

/-- The tree holds the leaves of its builder. -/
theorem allTokens_tree (b : Builder) (length : Nat) : (b.tree length).allTokens = b.leaves := by
  have hleaves : (b.unwind 1).leaves = b.leaves := leaves_finishMany b _
  rw [← hleaves, leaves, below_unwind_one, Node.allTokens_eq]
  simp [tree, Frame.node, Frame.leaves]

/-- A token that was just added is the one that is taken back. -/
theorem popToken_token (b : Builder) (t : Token) :
    (b.token t).popToken = { b with offset := t.fullSpan.start } := by
  simp [popToken, lastToken?, token, Element.token?]

/-! ## Order -/

/-- Open nodes, innermost first, whose elements tile the text up to `stop`. -/
def Tiled (stop : Nat) : List Frame → Prop
  | [] => stop = 0
  | f :: fs =>
    (Span.Tiles f.start stop (f.elements.toList.map Element.span) ∧
      ∀ e ∈ f.elements.toList, e.Ordered) ∧ Tiled f.start fs

/-- The elements of all open nodes tile the text up to the end of the last token. -/
def Ordered (b : Builder) : Prop := Tiled b.offset (b.top :: b.below)

theorem Ordered.push {b : Builder} (h : b.Ordered) (kept adopted : Array Element)
    (happend : kept.toList ++ adopted.toList = b.top.elements.toList) (kind : Kind) :
    (b.push { b.top with elements := kept } kind
      ((adopted[0]?.map (·.span.start)).getD b.offset) adopted).Ordered := by
  obtain ⟨⟨htiles, hall⟩, hbelow⟩ := h
  rw [← happend] at htiles hall
  rw [List.map_append] at htiles
  obtain ⟨middle, hkept, hadopted⟩ := Span.Tiles.of_append htiles
  have hmiddle : (adopted[0]?.map (·.span.start)).getD b.offset = middle := by
    rw [← Array.getElem?_toList]
    cases hl : adopted.toList with
    | nil =>
      rw [hl] at hadopted
      exact hadopted.symm
    | cons e es =>
      rw [hl] at hadopted
      exact hadopted.1
  refine ⟨⟨?_, fun e he => hall e (List.mem_append_right _ he)⟩, ⟨?_, fun e he =>
    hall e (List.mem_append_left _ he)⟩, hbelow⟩
  · exact hmiddle ▸ hadopted
  · exact hmiddle ▸ hkept

theorem Ordered.start {b : Builder} (h : b.Ordered) (kind : Kind) : (b.start kind).Ordered :=
  h.push b.top.elements #[] (by simp) kind

theorem Ordered.startAt {b : Builder} (h : b.Ordered) (c : Checkpoint) (kind : Kind) :
    (b.startAt c kind).Ordered := by
  obtain ⟨kept, adopted, happend, heq⟩ := b.startAt_eq c kind
  rw [heq]
  exact h.push kept adopted happend kind

theorem Ordered.token {b : Builder} (h : b.Ordered) {t : Token}
    (hstart : t.fullSpan.start = b.offset) (hle : t.fullSpan.start ≤ t.fullSpan.stop) :
    (b.token t).Ordered := by
  obtain ⟨⟨htiles, hall⟩, hbelow⟩ := h
  refine ⟨⟨?_, ?_⟩, hbelow⟩
  · rw [Builder.token, Array.toList_push, List.map_append]
    exact htiles.append ⟨hstart, hstart ▸ hle, rfl⟩
  · intro e he
    rw [Builder.token, Array.toList_push, List.mem_append, List.mem_singleton] at he
    rcases he with he | rfl
    · exact hall e he
    · exact ordered_token t

theorem Ordered.finish {b : Builder} (h : b.Ordered) : b.finish.Ordered := by
  unfold Builder.finish
  split
  · exact h
  next parent below hb =>
    rw [Ordered, hb] at h
    obtain ⟨⟨htiles, hall⟩, ⟨hparent, hpall⟩, hbelow⟩ := h
    have hnode : (Element.node (b.top.node (b.top.span b.offset))).Ordered := by
      rw [ordered_node, Frame.span_of_tiles htiles]
      exact ⟨htiles, hall⟩
    refine ⟨⟨?_, ?_⟩, hbelow⟩
    · rw [Array.toList_push, List.map_append]
      refine hparent.append ?_
      rw [Frame.span_of_tiles htiles]
      exact .singleton htiles.le
    · intro e he
      rw [Array.toList_push, List.mem_append, List.mem_singleton] at he
      rcases he with he | rfl
      · exact hpall e he
      · exact hnode

theorem Ordered.finishMany {b : Builder} (h : b.Ordered) (n : Nat) : (b.finishMany n).Ordered := by
  induction n generalizing b with
  | zero => exact h
  | succ n ih => exact ih h.finish

theorem Ordered.edit {b : Builder} (h : b.Ordered) {f : Builder → Builder} (hf : Edit f) :
    (f b).Ordered := by
  cases hf with
  | start kind => exact h.start kind
  | startAt c kind => exact h.startAt c kind
  | describe | markError => exact h
  | finish => exact h.finish
  | unwind depth => exact h.finishMany _

theorem offset_finish (b : Builder) : b.finish.offset = b.offset := by
  unfold Builder.finish
  split <;> rfl

theorem offset_finishMany (b : Builder) (n : Nat) : (b.finishMany n).offset = b.offset := by
  induction n generalizing b with
  | zero => rfl
  | succ n ih => rw [finishMany, ih, offset_finish]

theorem Edit.offset_eq {f : Builder → Builder} (hf : Edit f) (b : Builder) :
    (f b).offset = b.offset := by
  cases hf with
  | start | describe | markError => rfl
  | startAt c kind =>
    obtain ⟨kept, adopted, -, heq⟩ := b.startAt_eq c kind
    exact (congrArg Builder.offset heq).trans rfl
  | finish => exact offset_finish b
  | unwind => exact offset_finishMany b _

/-- The tree of an ordered builder is ordered if its last token ends where the source does. -/
theorem Ordered.tree {b : Builder} (h : b.Ordered) {length : Nat} (hoffset : b.offset = length) :
    (Element.node (b.tree length)).Ordered := by
  have hunwind : (b.unwind 1).Ordered := h.finishMany _
  rw [Ordered, below_unwind_one] at hunwind
  obtain ⟨⟨htiles, hall⟩, hstart⟩ := hunwind
  have hroot : (b.unwind 1).top.start = 0 := hstart
  have hend : (b.unwind 1).offset = length := (offset_finishMany b _).trans hoffset
  rw [hroot, hend] at htiles
  exact ordered_node.2 ⟨htiles, hall⟩

end Builder

end LimitSyntax.Tree
