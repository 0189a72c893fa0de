import LimitSyntax.Proofs.ContextRestored
import LimitSyntax.Proofs.ParseLossless
import Mathlib.Data.List.Forall2

/-!
# The nodes around a token

The tokens of a tree are listed with the kinds of the nodes around each of them
(`Tree.Builder.enclosed`). No change of the tree takes a token out of a node (`Tree.Grown`). So if
the text read so far ends in a node of some kind (`Tree.Builder.EndsIn`), then it still does as long
as no further token is read.
-/

namespace LimitSyntax

namespace Tree

/-- Puts a node of a kind around tokens that are listed with the kinds of the nodes around them. -/
def enclose (kind : Kind) (ts : List (Token × List Kind)) : List (Token × List Kind) :=
  ts.map fun t => (t.1, kind :: t.2)

mutual
/-- The tokens of an element, each with the kinds of the nodes around it, outermost first. -/
def Element.enclosed : Element → List (Token × List Kind)
  | .token t => [(t, [])]
  | .node ⟨kind, _, elements, _, _⟩ => enclose kind (enclosedOf elements)

/-- The tokens of a row of elements, each with the kinds of the nodes around it. -/
def enclosedOf : List Element → List (Token × List Kind)
  | [] => []
  | e :: es => e.enclosed ++ enclosedOf es
end

/-- The tokens inside of open nodes, which are given innermost first. -/
def enclosedIn (inner : List (Token × List Kind)) : List Frame → List (Token × List Kind)
  | [] => inner
  | f :: fs => enclosedIn (enclose f.kind (enclosedOf f.elements.toList ++ inner)) fs

/-- The tokens of a builder, each with the kinds of the nodes around it. -/
def Builder.enclosed (b : Builder) : List (Token × List Kind) := enclosedIn [] (b.top :: b.below)

@[simp] theorem Element.enclosed_token (t : Token) : (Element.token t).enclosed = [(t, [])] := by
  rw [Element.enclosed]

@[simp] theorem Element.enclosed_node (n : Node) :
    (Element.node n).enclosed = enclose n.kind (enclosedOf n.elements) := by
  cases n
  rw [Element.enclosed]

@[simp] theorem enclosedOf_nil : enclosedOf [] = [] := by rw [enclosedOf]

@[simp] theorem enclosedOf_cons (e : Element) (es : List Element) :
    enclosedOf (e :: es) = e.enclosed ++ enclosedOf es := by rw [enclosedOf]

@[simp] theorem enclosedOf_append (es fs : List Element) :
    enclosedOf (es ++ fs) = enclosedOf es ++ enclosedOf fs := by
  induction es with
  | nil => simp
  | cons e es ih => simp [ih]

@[simp] theorem enclose_append (kind : Kind) (ts us : List (Token × List Kind)) :
    enclose kind (ts ++ us) = enclose kind ts ++ enclose kind us :=
  List.map_append

@[simp] theorem map_fst_enclose (kind : Kind) (ts : List (Token × List Kind)) :
    (enclose kind ts).map Prod.fst = ts.map Prod.fst := by
  simp [enclose, Function.comp_def]

mutual
theorem Element.map_fst_enclosed (e : Element) : e.enclosed.map Prod.fst = e.leaves := by
  cases e with
  | token t => simp
  | node n =>
    obtain ⟨kind, span, elements, description, error⟩ := n
    rw [Element.enclosed_node, map_fst_enclose, Element.leaves_node, map_fst_enclosedOf]

/-- The tokens that are listed are the leaves. -/
theorem map_fst_enclosedOf (es : List Element) : (enclosedOf es).map Prod.fst = leavesOf es := by
  cases es with
  | nil => simp
  | cons e es =>
    rw [enclosedOf_cons, List.map_append, leavesOf_cons, Element.map_fst_enclosed,
      map_fst_enclosedOf]
end

/-! ## Nodes grow -/

/-- The same tokens, with at least the same nodes around them. -/
def Grown (ts us : List (Token × List Kind)) : Prop :=
  List.Forall₂ (fun t u => t.1 = u.1 ∧ t.2 ⊆ u.2) ts us

namespace Grown

variable {ts us : List (Token × List Kind)}

theorem refl (ts : List (Token × List Kind)) : Grown ts ts :=
  List.forall₂_same.2 fun _ _ => ⟨rfl, List.Subset.refl _⟩

theorem append {ts' us' : List (Token × List Kind)} (h : Grown ts us) (h' : Grown ts' us') :
    Grown (ts ++ ts') (us ++ us') :=
  List.rel_append h h'

theorem enclose (h : Grown ts us) (kind : Kind) : Grown (enclose kind ts) (enclose kind us) :=
  List.rel_map (fun _ _ htu => ⟨htu.1, List.cons_subset_cons kind htu.2⟩) h

/-- Tokens grow by a node that is put around them. -/
theorem inside (kind : Kind) (ts : List (Token × List Kind)) : Grown ts (Tree.enclose kind ts) :=
  List.forall₂_map_right_iff.2
    (List.forall₂_same.2 fun t _ => ⟨rfl, List.subset_cons_self kind t.2⟩)

theorem enclosedIn (h : Grown ts us) (fs : List Frame) :
    Grown (enclosedIn ts fs) (enclosedIn us fs) := by
  induction fs generalizing ts us with
  | nil => exact h
  | cons f fs ih => exact ih ((append (refl _) h).enclose f.kind)

/-- The last token is still in all nodes it was in. -/
theorem getLast? (h : Grown ts us) {t : Token} {kinds : List Kind}
    (ht : ts.getLast? = some (t, kinds)) :
    ∃ kinds', us.getLast? = some (t, kinds') ∧ kinds ⊆ kinds' := by
  have hreverse : Grown ts.reverse us.reverse := List.rel_reverse h
  rw [← List.head?_reverse] at ht ⊢
  generalize ts.reverse = ts, us.reverse = us at hreverse ht
  cases hreverse with
  | nil => cases ht
  | @cons _ u _ _ hfirst =>
    cases ht
    obtain ⟨u, kinds'⟩ := u
    obtain ⟨rfl, hsub⟩ := hfirst
    exact ⟨kinds', rfl, hsub⟩

end Grown

/-- The last token of the innermost node is the last of all. -/
theorem getLast?_enclosedIn {ts : List (Token × List Kind)} {t : Token} {kinds : List Kind}
    (ht : ts.getLast? = some (t, kinds)) (fs : List Frame) :
    ∃ kinds', (enclosedIn ts fs).getLast? = some (t, kinds') ∧ kinds ⊆ kinds' := by
  induction fs generalizing ts kinds with
  | nil => exact ⟨kinds, ht, List.Subset.refl _⟩
  | cons f fs ih =>
    have hlast : (enclose f.kind (enclosedOf f.elements.toList ++ ts)).getLast? =
        some (t, f.kind :: kinds) := by
      simp [enclose, List.getLast?_append, ht]
    obtain ⟨kinds', hkinds', hsub⟩ := ih hlast
    exact ⟨kinds', hkinds', fun k hk => hsub (List.mem_cons_of_mem _ hk)⟩

/-- So is a token that is put at the end of the innermost node. -/
theorem enclosedIn_concat (ts : List (Token × List Kind)) (t : Token × List Kind)
    (fs : List Frame) :
    ∃ kinds, enclosedIn (ts ++ [t]) fs = enclosedIn ts fs ++ [(t.1, kinds)] := by
  induction fs generalizing ts t with
  | nil => exact ⟨t.2, rfl⟩
  | cons f fs ih =>
    obtain ⟨kinds, hkinds⟩ := ih (enclose f.kind (enclosedOf f.elements.toList ++ ts))
      (t.1, f.kind :: t.2)
    refine ⟨kinds, ?_⟩
    rw [enclosedIn, enclosedIn, ← hkinds]
    simp [enclose]

/-- The text of a tree, without its end, ends in a node of the kind. -/
def Node.EndsIn (n : Node) (kind : Kind) : Prop :=
  ∃ t ∈ (Element.node n).enclosed.dropLast.getLast?, kind ∈ t.2

instance (n : Node) (kind : Kind) : Decidable (n.EndsIn kind) :=
  inferInstanceAs (Decidable (∃ t ∈ (Element.node n).enclosed.dropLast.getLast?, kind ∈ t.2))

namespace Builder

@[simp] theorem enclosed_finish (b : Builder) : b.finish.enclosed = b.enclosed := by
  unfold finish
  split
  · rfl
  next parent below h => simp [enclosed, enclosedIn, h, Frame.node]

theorem enclosed_finishMany (b : Builder) (n : Nat) : (b.finishMany n).enclosed = b.enclosed := by
  induction n generalizing b with
  | zero => rfl
  | succ n ih => rw [finishMany, ih, enclosed_finish]

theorem enclosed_start (b : Builder) (kind : Kind) : (b.start kind).enclosed = b.enclosed := by
  simp [enclosed, enclosedIn, start, push, enclose]

theorem grown_startAt (b : Builder) (c : Checkpoint) (kind : Kind) :
    Grown b.enclosed (b.startAt c kind).enclosed := by
  obtain ⟨kept, adopted, happend, heq⟩ := b.startAt_eq c kind
  rw [heq, enclosed, enclosed, enclosedIn, ← happend, enclosedOf_append]
  simp only [push, enclosedIn, List.append_nil]
  exact ((Grown.append (.refl _) (.inside kind _)).enclose _).enclosedIn _

theorem Edit.grown {f : Builder → Builder} (hf : Edit f) (b : Builder) :
    Grown b.enclosed (f b).enclosed := by
  cases hf with
  | start kind =>
    rw [enclosed_start]
    exact .refl _
  | startAt c kind => exact grown_startAt b c kind
  | describe | markError => exact .refl _
  | finish =>
    rw [enclosed_finish]
    exact .refl _
  | unwind depth =>
    have hunwind : (b.unwind depth).enclosed = b.enclosed := enclosed_finishMany b _
    rw [hunwind]
    exact .refl _

/-- The text read so far ends in a node of the kind. -/
def EndsIn (b : Builder) (kind : Kind) : Prop :=
  ∃ t kinds, b.enclosed.getLast? = some (t, kinds) ∧ kind ∈ kinds

theorem EndsIn.grown {b c : Builder} {kind : Kind} (h : b.EndsIn kind)
    (hgrown : Grown b.enclosed c.enclosed) : c.EndsIn kind := by
  obtain ⟨t, kinds, hlast, hkind⟩ := h
  obtain ⟨kinds', hlast', hsub⟩ := hgrown.getLast? hlast
  exact ⟨t, kinds', hlast', hsub hkind⟩

/-- If the current node has a token, then it is around the last one. -/
theorem endsIn_top (b : Builder) (h : b.top.leaves ≠ []) : b.EndsIn b.top.kind := by
  have htop : enclosedOf b.top.elements.toList ≠ [] := by
    intro hnil
    rw [Frame.leaves, ← map_fst_enclosedOf, hnil] at h
    exact h rfl
  obtain ⟨t, kinds, hlast⟩ : ∃ t kinds,
      (enclosedOf b.top.elements.toList).getLast? = some (t, kinds) :=
    ⟨_, _, List.getLast?_eq_some_getLast htop⟩
  have hlast' : (enclose b.top.kind (enclosedOf b.top.elements.toList ++ [])).getLast? =
      some (t, b.top.kind :: kinds) := by
    simp [enclose, hlast]
  obtain ⟨kinds', hkinds', hsub⟩ := getLast?_enclosedIn hlast' b.below
  exact ⟨t, kinds', hkinds', hsub List.mem_cons_self⟩

theorem enclosed_tree (b : Builder) (length : Nat) :
    (Element.node (b.tree length)).enclosed = b.enclosed := by
  have hunwind : (b.unwind 1).enclosed = b.enclosed := enclosed_finishMany b _
  rw [← hunwind, enclosed, below_unwind_one]
  simp [tree, Frame.node, enclosedIn]

/-- A token is added behind all others. -/
theorem enclosed_token (b : Builder) (t : Token) :
    ∃ kinds, (b.token t).enclosed = b.enclosed ++ [(t, kinds)] := by
  obtain ⟨kinds, hkinds⟩ := enclosedIn_concat [] (t, []) (b.top :: b.below)
  refine ⟨kinds, ?_⟩
  rw [enclosed, enclosed, ← hkinds]
  simp [enclosedIn, token]

/-- Behind the last token nothing but the end is read, so the tree says where the text ends. -/
theorem EndsIn.tree {b : Builder} {kind : Kind} (h : b.EndsIn kind) (e : Token) (length : Nat) :
    ((b.token e).tree length).EndsIn kind := by
  obtain ⟨t, kinds, hlast, hkind⟩ := h
  obtain ⟨_, htoken⟩ := b.enclosed_token e
  refine ⟨(t, kinds), ?_, hkind⟩
  rw [enclosed_tree, htoken, List.dropLast_concat]
  exact hlast

end Builder

end Tree

namespace Grammar

open LimitSyntax.Tree (Builder)

variable {i : Input} {s t : State} {kind : Tree.Kind}

/-- A tree is built, and the text read so far ends in a node of the kind. -/
def State.EndsIn (s : State) (kind : Tree.Kind) : Prop := ∃ b, s.tree = some b ∧ b.EndsIn kind

/-- At the end no token is read any more, and nothing leaves a node. -/
theorem Step.endsIn (h : Step i s t) (hend : (s.rest[0]?.getD i.eof).kind = .eof)
    (hs : s.EndsIn kind) : t.rest = s.rest ∧ t.EndsIn kind := by
  obtain ⟨b, htree, hb⟩ := hs
  cases h with
  | take u rest hrest hkind | retake u rest hrest hkind =>
    rw [hrest] at hend
    exact absurd hend hkind
  | edit f hf =>
    exact ⟨rfl, f b, by rw [State.mapTree, htree, Option.map_some], hb.grown (hf.grown b)⟩
  | context | spend => exact ⟨rfl, b, htree, hb⟩
  | report u description block =>
    obtain ⟨_, _, _, heq⟩ := s.report_eq i u description block
    rw [heq]
    exact ⟨rfl, b, htree, hb⟩

theorem Steps.endsIn (h : Steps i s t) (hend : (s.rest[0]?.getD i.eof).kind = .eof)
    (hs : s.EndsIn kind) : t.rest = s.rest ∧ t.EndsIn kind := by
  induction h with
  | refl => exact ⟨rfl, hs⟩
  | tail _ hstep ih =>
    obtain ⟨hrest, hu⟩ := ih
    obtain ⟨hrest', ht⟩ := hstep.endsIn (hrest ▸ hend) hu
    exact ⟨hrest'.trans hrest, ht⟩

theorem Step.isSome_tree (h : Step i s t) : t.tree.isSome = s.tree.isSome := by
  cases h with
  | take | edit => simp [State.take, State.mapTree]
  | retake u rest => simp [State.back_take]
  | context | spend => rfl
  | report u description block =>
    obtain ⟨_, _, _, heq⟩ := s.report_eq i u description block
    rw [heq]

/-- Whether a tree is built does not change. -/
theorem Steps.isSome_tree (h : Steps i s t) : t.tree.isSome = s.tree.isSome := by
  induction h with
  | refl => rfl
  | tail _ hstep ih => exact hstep.isSome_tree.trans ih

/-! ## Parsers inside a node -/

/-- If a parser reads a token inside a node, then the text read so far ends in that node. -/
theorem endsIn_node {α : Type} {p : Parse α} {a : α} {f : Builder → Builder}
    (hkind : ∀ b, (f b).top.kind = kind) (hframed : Framed p) (hp : Stepwise p)
    (heof : i.eof.kind = .eof)
    (h : exec (onTree f >>= fun _ => p >>= fun a => closeNode >>= fun _ => pure a) i s = (.ok a, t))
    (htree : s.tree.isSome = true) (hread : t.rest.length < s.rest.length) : t.EndsIn kind := by
  obtain ⟨u, hrun, rfl⟩ := exec_node_eq_ok h
  obtain ⟨b, hb⟩ := Option.isSome_iff_exists.1 htree
  have hopen : (s.mapTree f).tree = some (f b) := by rw [State.mapTree, hb, Option.map_some]
  have hsteps : Steps i (s.mapTree f) u := by simpa [hrun] using hp i (s.mapTree f) heof
  obtain ⟨c, hc, hleaves⟩ := (kept_leaves ((f b).leaves ++ s.rest)).steps ⟨f b, hopen, rfl⟩ hsteps
  have houtline : c.outline = (f b).outline := by
    have hbalanced := (hframed.ok hrun).tree
    rw [hopen, hc] at hbalanced
    cases hbalanced with
    | some houtline => exact houtline
  have htop : c.top.kind = (f b).top.kind := congrArg Prod.fst houtline
  have hbelow : c.below = (f b).below := congrArg Prod.snd houtline
  refine ⟨c.finish, by rw [State.mapTree, hc, Option.map_some], ?_⟩
  refine Builder.EndsIn.grown ?_ (Builder.Edit.finish.grown c)
  rw [← hkind b, ← htop]
  refine c.endsIn_top fun hnil => ?_
  -- all tokens that the parser has read are in the node
  have hlength := congrArg List.length hleaves
  rw [Builder.leaves, Builder.leaves, hbelow, hnil] at hlength
  simp only [List.length_append, List.length_nil] at hlength
  have hless : u.rest.length < s.rest.length := hread
  omega

theorem endsIn_inNodeAt {α : Type} {p : Parse α} {a : α} {c : Option Tree.Checkpoint}
    (hframed : Framed p) (hp : Stepwise p) (heof : i.eof.kind = .eof)
    (h : exec (inNodeAt c kind p) i s = (.ok a, t)) (htree : s.tree.isSome = true)
    (hread : t.rest.length < s.rest.length) : t.EndsIn kind := by
  cases c with
  | none => exact endsIn_node (f := (·.start kind)) (fun _ => rfl) hframed hp heof h htree hread
  | some c =>
    refine endsIn_node (f := (·.startAt c kind)) (fun b => ?_) hframed hp heof h htree hread
    obtain ⟨kept, adopted, -, heq⟩ := b.startAt_eq c kind
    rw [heq]
    rfl

end Grammar

end LimitSyntax
