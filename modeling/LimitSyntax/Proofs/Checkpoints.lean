import LimitSyntax.Proofs.BuilderOps

/-!
# Checkpoints of other nodes

A checkpoint remembers how many nodes were open and how many elements the innermost of them had, but
not which node that was. To tell the nodes apart they are numbered in the order in which they are
opened (`Tree.Builder.Nodes`). Where a checkpoint is used in another node than the one it was taken
in, the two nodes may still be equally deep. Then the one was closed and the other was opened since
(`Tree.Builder.Nodes.Later.exclusive`), and what the other has behind the place of the checkpoint is
taken for what was added to the one (`Tree.Builder.startAt_foreign`).
-/

namespace LimitSyntax.Tree.Builder

/-! ## Open nodes -/

theorem falling_root : [0 + 1, 0].Pairwise (· > ·) := by decide

/-- The numbers of the open nodes. The root is node zero. -/
structure Nodes where
  current : Nat := 0
  /-- The nodes around the current one, innermost first. -/
  around : List Nat := []
  /-- The node that was opened last, closed or not. -/
  last : Nat := 0
  falling : ((last + 1) :: current :: around).Pairwise (· > ·) := by
    exact LimitSyntax.Tree.Builder.falling_root

namespace Nodes

/-- The open nodes, innermost first. -/
def all (ns : Nodes) : List Nat := ns.current :: ns.around

theorem le_last (ns : Nodes) {n : Nat} (hn : n ∈ ns.all) : n ≤ ns.last :=
  Nat.le_of_lt_succ (List.rel_of_pairwise_cons ns.falling hn)

theorem nodup_all (ns : Nodes) : ns.all.Nodup :=
  ns.falling.of_cons.imp Nat.ne_of_gt

/-- A node is opened. -/
def opened (ns : Nodes) : Nodes where
  current := ns.last + 1
  around := ns.all
  last := ns.last + 1
  falling := by
    refine .cons (fun n hn => ?_) ns.falling
    obtain rfl | hn := List.mem_cons.1 hn
    · exact Nat.lt_succ_self _
    · exact Nat.lt_succ_of_le (Nat.le_succ_of_le (ns.le_last hn))

/-- The current node is closed. The root stays open. -/
def closed : Nodes → Nodes
  | ⟨current, [], last, falling⟩ => ⟨current, [], last, falling⟩
  | ⟨_, n :: around, last, falling⟩ =>
    ⟨n, around, last, falling.sublist (.cons_cons _ (.cons _ (.refl _)))⟩

/-- Nodes are closed, `n` of them. -/
def closedMany (ns : Nodes) : Nat → Nodes
  | 0 => ns
  | n + 1 => ns.closed.closedMany n

theorem around_closed (ns : Nodes) : ns.closed.around = ns.around.tail := by
  obtain ⟨current, _ | ⟨n, around⟩, last, falling⟩ := ns <;> rfl

theorem around_closedMany (ns : Nodes) (n : Nat) : (ns.closedMany n).around = ns.around.drop n := by
  induction n generalizing ns with
  | zero => rfl
  | succ n ih => rw [closedMany, ih, around_closed, List.drop_tail]

theorem all_closed_suffix (ns : Nodes) : ns.closed.all <:+ ns.all := by
  obtain ⟨current, _ | ⟨n, around⟩, last, falling⟩ := ns
  · exact List.suffix_refl _
  · exact List.suffix_cons ..

theorem last_closed (ns : Nodes) : ns.closed.last = ns.last := by
  obtain ⟨current, _ | ⟨n, around⟩, last, falling⟩ := ns <;> rfl

end Nodes

/-- The open nodes after the operation. -/
def Op.onNodes : Op → Nodes → Nodes
  | .start _, ns | .startAt _ _, ns => ns.opened
  | .finish, ns => ns.closed
  | .unwind depth, ns => ns.closedMany (ns.all.length - max depth 1)
  | _, ns => ns

/-- The open nodes after some operations. -/
def Nodes.after (ns : Nodes) : List Op → Nodes
  | [] => ns
  | op :: ops => (op.onNodes ns).after ops

theorem Nodes.after_append (ns : Nodes) (before after : List Op) :
    ns.after (before ++ after) = (ns.after before).after after := by
  induction before generalizing ns with
  | nil => rfl
  | cons op before ih => exact ih (op.onNodes ns)

/-! ## Depth -/

/-- The builder has as many open nodes as are numbered. -/
def Counted (b : Builder) (ns : Nodes) : Prop := b.below.length = ns.around.length

namespace Counted

variable {b : Builder} {ns : Nodes}

theorem depth_eq (h : b.Counted ns) : b.depth = ns.all.length := congrArg Nat.succ h

theorem apply (h : b.Counted ns) (op : Op) : (op.apply b).Counted (op.onNodes ns) := by
  cases op with
  | start kind => exact congrArg Nat.succ h
  | startAt c kind =>
    obtain ⟨kept, adopted, -, heq⟩ := b.startAt_eq c kind
    rw [Op.apply, heq]
    exact congrArg Nat.succ h
  | popToken =>
    have hbelow : b.popToken.below = b.below := by
      unfold popToken
      split <;> rfl
    exact (congrArg List.length hbelow).trans h
  | finish =>
    have hlength : b.finish.below.length = ns.closed.around.length := by
      rw [below_finish, ns.around_closed, List.length_tail, List.length_tail, h]
    exact hlength
  | unwind depth =>
    rw [Op.apply, Op.onNodes, Counted, unwind, below_finishMany, ns.around_closedMany, h.depth_eq,
      List.length_drop, List.length_drop, h]
  | checkpoint | token | describe | markError => exact h

theorem perform (h : b.Counted ns) (ops : List Op) : (b.perform ops).Counted (ns.after ops) := by
  induction ops generalizing b ns with
  | nil => exact h
  | cons op ops ih => exact ih (h.apply op)

end Counted

/-! ## Earlier and later nodes -/

namespace Nodes

/-- What may be open later: nodes that were not closed, and nodes inside of them that were opened
since. -/
structure Later (old ns : Nodes) : Prop where
  last_le : old.last ≤ ns.last
  all_eq : ∃ fresh kept, ns.all = fresh ++ kept ∧ kept <:+ old.all ∧ ∀ n ∈ fresh, old.last < n

namespace Later

variable {old ns : Nodes}

theorem refl (old : Nodes) : Later old old where
  last_le := Nat.le_refl _
  all_eq := ⟨[], old.all, rfl, List.suffix_refl _, fun _ hn => nomatch hn⟩

theorem opened (h : Later old ns) : Later old ns.opened := by
  obtain ⟨fresh, kept, hall, hkept, hfresh⟩ := h.all_eq
  refine ⟨Nat.le_succ_of_le h.last_le, (ns.last + 1) :: fresh, kept, congrArg _ hall, hkept, ?_⟩
  intro n hn
  obtain rfl | hn := List.mem_cons.1 hn
  · exact Nat.lt_succ_of_le h.last_le
  · exact hfresh n hn

theorem closed (h : Later old ns) : Later old ns.closed := by
  obtain ⟨fresh, kept, hall, hkept, hfresh⟩ := h.all_eq
  obtain ⟨gone, hgone⟩ := ns.all_closed_suffix
  refine ⟨ns.last_closed ▸ h.last_le, ?_⟩
  -- what is closed is one of the fresh ones if there are any
  obtain ⟨rest, rfl, hclosed⟩ | ⟨rest, -, hclosed⟩ :=
    List.append_eq_append_iff.1 (hgone.trans hall)
  · exact ⟨rest, kept, hclosed, hkept, fun n hn => hfresh n (List.mem_append_right gone hn)⟩
  · have hrest : ns.closed.all <:+ kept := ⟨rest, hclosed.symm⟩
    exact ⟨[], _, rfl, hrest.trans hkept, fun _ hn => nomatch hn⟩

theorem closedMany (h : Later old ns) (n : Nat) : Later old (ns.closedMany n) := by
  induction n generalizing ns with
  | zero => exact h
  | succ n ih => exact ih h.closed

theorem apply (h : Later old ns) (op : Op) : Later old (op.onNodes ns) := by
  cases op with
  | start | startAt => exact h.opened
  | finish => exact h.closed
  | unwind depth => exact h.closedMany _
  | checkpoint | token | popToken | describe | markError => exact h

theorem after (h : Later old ns) (ops : List Op) : Later old (ns.after ops) := by
  induction ops generalizing ns with
  | nil => exact h
  | cons op ops ih => exact ih (h.apply op)

/-- Of two current nodes at the same depth neither was open together with the other. -/
theorem exclusive (h : Later old ns) (hlength : old.all.length = ns.all.length)
    (hforeign : old.current ≠ ns.current) : old.current ∉ ns.all ∧ ns.current ∉ old.all := by
  obtain ⟨fresh, kept, hall, ⟨gone, hgone⟩, hfresh⟩ := h.all_eq
  have hlengths : gone.length = fresh.length := by
    have hsum := hlength
    rw [hall, ← hgone, List.length_append, List.length_append] at hsum
    omega
  cases fresh with
  | nil =>
    -- nothing was opened, so nothing was closed
    obtain rfl : gone = [] := List.length_eq_zero_iff.1 hlengths
    have hsame : old.all = ns.all := hgone.symm.trans hall.symm
    exact absurd (List.cons.inj hsame).1 hforeign
  | cons n fresh =>
    obtain ⟨m, gone, rfl⟩ := List.exists_cons_of_length_eq_add_one hlengths
    obtain rfl : m = old.current := (List.cons.inj hgone).1
    obtain rfl : ns.current = n := (List.cons.inj hall).1
    constructor
    · intro hopen
      rw [hall, List.mem_append] at hopen
      cases hopen with
      | inl hn => exact Nat.not_lt_of_le (old.le_last (List.mem_cons_self ..)) (hfresh _ hn)
      | inr hn =>
        have hnodup : (old.current :: gone ++ kept).Nodup := hgone.symm ▸ old.nodup_all
        exact (List.nodup_cons.1 hnodup).1 (List.mem_append_right _ hn)
    · intro hopen
      exact Nat.not_lt_of_le (old.le_last hopen) (hfresh _ (List.mem_cons_self ..))

end Later

end Nodes

/-! ## Adopted elements -/

/-- A node opened at a checkpoint is opened as any other, unless the checkpoint is one of the same
depth and the current node has elements behind it. -/
theorem startAt_eq_start_iff (b : Builder) (c : Checkpoint) (kind : Kind) :
    b.startAt c kind = b.start kind ↔ c.depth ≠ b.depth ∨ b.top.elements.size ≤ c.index := by
  unfold startAt
  split
  next h => exact iff_of_true rfl (h.imp_right Nat.le_of_lt)
  next h =>
    obtain ⟨hdepth, hindex⟩ := not_or.1 h
    constructor
    · intro heq
      have hsize : (b.top.elements.extract c.index).size = 0 :=
        congrArg (fun b : Builder => b.top.elements.size) heq
      rw [Array.size_extract] at hsize
      exact .inr (by omega)
    · rintro (hother | hsize)
      · exact absurd hother hdepth
      · have hnone : b.top.elements.extract c.index = #[] :=
          Array.extract_empty_of_size_le_start hsize
        have hall : b.top.elements.shrink c.index = b.top.elements := by
          apply Array.ext'
          rw [Array.toList_shrink]
          exact List.take_of_length_le hsize
        simp only [hnone, hall]
        rfl

/-- A checkpoint that was taken in another node opens a node as any other, unless both nodes are of
one depth and the current one has elements behind the checkpoint. Both can be of one depth only
if the other node is closed, and the current one was opened since. -/
theorem startAt_foreign (before after : List Op) (kind : Kind)
    (hforeign : (Nodes.after {} before).current ≠ (Nodes.after {} (before ++ after)).current) :
    let c := (perform {} before).checkpoint
    let b := perform {} (before ++ after)
    (b.startAt c kind = b.start kind ↔ c.depth ≠ b.depth ∨ b.top.elements.size ≤ c.index) ∧
      (c.depth = b.depth →
        (Nodes.after {} before).current ∉ (Nodes.after {} (before ++ after)).all ∧
          (Nodes.after {} (before ++ after)).current ∉ (Nodes.after {} before).all) := by
  intro c b
  have hroot : Counted {} {} := rfl
  have hlater : (Nodes.after {} before).Later (Nodes.after {} (before ++ after)) := by
    rw [Nodes.after_append]
    exact (Nodes.Later.refl _).after after
  refine ⟨b.startAt_eq_start_iff c kind, fun hdepth => hlater.exclusive ?_ hforeign⟩
  rw [← (hroot.perform before).depth_eq, ← (hroot.perform (before ++ after)).depth_eq]
  exact hdepth

/-- The nodes are of one depth, and neither has more elements than the other. -/
theorem startAt_foreign_sibling : ∃ before after : List Op,
    let c := (perform {} before).checkpoint
    let b := perform {} (before ++ after)
    (Nodes.after {} before).current ≠ (Nodes.after {} (before ++ after)).current ∧
      c.depth = b.depth ∧ b.startAt c .callExpr = b.start .callExpr ∧
      (Nodes.after {} before).current ∉ (Nodes.after {} (before ++ after)).all := by
  let before : List Op := [.start .blockStatement, .token (.missing 0 1)]
  let after : List Op := [.finish, .start .expressionStatement, .token (.eof 0 1)]
  have hforeign : (Nodes.after {} before).current ≠ (Nodes.after {} (before ++ after)).current := by
    decide
  have hdepth : (perform {} before).checkpoint.depth = (perform {} (before ++ after)).depth := rfl
  obtain ⟨hstart, hexclusive⟩ := startAt_foreign before after .callExpr hforeign
  exact ⟨before, after, hforeign, hdepth, hstart.2 (.inr (Nat.le_refl 1)), (hexclusive hdepth).1⟩

/-- The token of one node is adopted at the checkpoint of another. -/
theorem startAt_adopts_foreign : ∃ before after : List Op,
    let c := (perform {} before).checkpoint
    let b := perform {} (before ++ after)
    (Nodes.after {} before).current ≠ (Nodes.after {} (before ++ after)).current ∧
      b.startAt c .callExpr ≠ b.start .callExpr ∧
      (b.startAt c .callExpr).top.elements = b.top.elements ∧ b.top.elements.size = 1 := by
  refine ⟨[.start .blockStatement], [.finish, .start .expressionStatement, .token (.eof 0 1)],
    by decide, ?_, rfl, rfl⟩
  rw [Ne, startAt_eq_start_iff]
  decide

end LimitSyntax.Tree.Builder
