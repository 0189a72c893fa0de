import LimitSyntax.Proofs.Enclosure
import LimitSyntax.Proofs.Rejects
import LimitSyntax.Proofs.SameSyntax
import LimitSyntax.Proofs.TreeWhole

/-!
# Two parses abreast

A left parse reads tokens up to their end. A right parse reads the same tokens, perhaps at other
places, and then either ends as well or goes on with more tokens behind a seam. The parses are
abreast (`Grammar.Pair.Abreast`) if they are at the same token and neither has reported anything.
They then see the same token, unless they are at the seam: there the left parse is at its end, and
the right one sees the first token of a declaration. A spot (`Grammar.Spot`) says what is known
about that, and so which questions about the next token both parses answer alike.
-/

namespace LimitSyntax

/-- Tokens that differ in their places and in the trivia around them only. -/
structure Token.Same (t u : Token) : Prop where
  kind : t.kind = u.kind
  lexeme : t.lexeme = u.lexeme
  value : t.value = u.value

theorem Token.Same.text {t u : Token} (h : t.Same u) : t.text = u.text := by
  rw [Token.text, Token.text, h.value]

theorem Token.Same.rfl {t : Token} : t.Same t := ⟨Eq.refl _, Eq.refl _, Eq.refl _⟩

namespace Grammar

/-! ## Values that agree -/

/-- Values that two parses can be compared by. -/
class Comparable (α : Type) where
  /-- The values are the same but for places, and hold no placeholder. -/
  Agree : α → α → Prop

export Comparable (Agree)

section
open Ast

instance : Comparable Unit := ⟨Eq⟩
instance : Comparable Bool := ⟨Eq⟩
instance : Comparable String := ⟨Eq⟩
instance : Comparable Import := ⟨Eq⟩
instance : Comparable ImportPath := ⟨Eq⟩
instance : Comparable ImportFilter := ⟨Eq⟩
instance : Comparable ConcurrencySettings := ⟨Eq⟩
instance : Comparable FieldBinding := ⟨Eq⟩
instance : Comparable Modifiers := ⟨Eq⟩
instance : Comparable Token := ⟨fun t u => t.Same u ∧ t.kind ≠ .error⟩
instance : Comparable Expr := ⟨Same .expr⟩
instance : Comparable ExprKind := ⟨Same .exprKind⟩
instance : Comparable StringPart := ⟨Same .stringPart⟩
instance : Comparable Param := ⟨Same .param⟩
instance : Comparable TypeExpr := ⟨Same .type⟩
instance : Comparable TypeKind := ⟨Same .typeKind⟩
instance : Comparable TypeParam := ⟨Same .typeParam⟩
instance : Comparable TypeField := ⟨Same .typeField⟩
instance : Comparable Pattern := ⟨Same .pattern⟩
instance : Comparable PatternKind := ⟨Same .patternKind⟩
instance : Comparable Stmt := ⟨Same .stmt⟩
instance : Comparable StmtKind := ⟨Same .stmtKind⟩
instance : Comparable Block := ⟨Same .block⟩
instance : Comparable VarDecl := ⟨Same .varDecl⟩
instance : Comparable FunctionDecl := ⟨Same .function⟩
instance : Comparable ClassDecl := ⟨Same .classDecl⟩
instance : Comparable EnumVariant := ⟨Same .variant⟩
instance : Comparable MatchCase := ⟨Same .matchCase⟩

variable {α β : Type} [Comparable α] [Comparable β]

instance : Comparable (List α) := ⟨List.Forall₂ Agree⟩
instance : Comparable (Option α) := ⟨Option.Rel Agree⟩
instance : Comparable (α × β) := ⟨fun x y => Agree x.1 y.1 ∧ Agree x.2 y.2⟩

namespace Comparable.Agree

variable {x y : α} {xs ys : List α}

theorem none : Agree (none : Option α) none := Option.Rel.none

theorem some (h : Agree x y) : Agree (some x) (some y) := Option.Rel.some h

theorem nil : Agree ([] : List α) [] := List.Forall₂.nil

theorem cons (h : Agree x y) (hs : Agree xs ys) : Agree (x :: xs) (y :: ys) :=
  List.Forall₂.cons h hs

theorem append {xs' ys' : List α} (h : Agree xs ys) (h' : Agree xs' ys') :
    Agree (xs ++ xs') (ys ++ ys') :=
  List.rel_append h h'

theorem reverse (h : Agree xs ys) : Agree xs.reverse ys.reverse := List.rel_reverse h

theorem filter {f : α → Bool} (hf : ∀ {x y}, Agree x y → f x = f y) (h : Agree xs ys) :
    Agree (xs.filter f) (ys.filter f) :=
  List.rel_filter (fun _ _ hxy => by simp only [hf hxy]) h

end Comparable.Agree

/-- Values that agree only where they are equal. -/
class Strict (α : Type) [Comparable α] : Prop where
  eq {x y : α} : Agree x y → x = y

instance : Strict Bool := ⟨id⟩
instance : Strict String := ⟨id⟩
instance : Strict Import := ⟨id⟩
instance : Strict ImportPath := ⟨id⟩
instance : Strict ImportFilter := ⟨id⟩
instance : Strict ConcurrencySettings := ⟨id⟩
instance : Strict FieldBinding := ⟨id⟩
instance : Strict Modifiers := ⟨id⟩

instance [Strict α] : Strict (List α) where
  eq h := List.forall₂_eq_eq_eq ▸ h.imp fun _ _ => Strict.eq

instance [Strict α] : Strict (Option α) where
  eq h := by
    cases h with
    | none => rfl
    | some h => exact congrArg some (Strict.eq h)

end

/-! ## Spots -/

/-- Whether a token of this kind goes on with an expression that stands before it. -/
def joinsExpression : Token.Kind → Bool
  | .leftParen | .leftBracket | .plus | .minus => true
  | _ => false

/-- What is known about the place of the left parse. -/
inductive Spot where
  | any
  /-- If it is at the seam, then the right parse sees no token that goes on with an expression. -/
  | inner
  /-- It is not at the seam. -/
  | within
  /-- It is before a token that the seam does not follow. -/
  | solid
  /-- It is not at the seam, and the next token is of a kind. -/
  | before (kind : Token.Kind)
  /-- It is not at the seam, and the next two tokens are of some kinds. -/
  | beforeTwo (first second : Token.Kind)

/-- Whether a token of this kind is neither the end nor one that the end of a program may follow. -/
def isSolid : Token.Kind → Bool
  | .eof | .semicolon => false
  | _ => true

theorem isSolid_iff {kind : Token.Kind} :
    isSolid kind = true ↔ kind ≠ .eof ∧ kind ≠ .semicolon := by
  cases kind <;> simp [isSolid]

namespace Spot

/-- Whether the right parse may see a token of the kind at the seam. -/
def meets : Spot → Token.Kind → Bool
  | .any, kind => opensDeclaration kind
  | .inner, kind => opensDeclaration kind && !joinsExpression kind
  | _, _ => false

/-- Whether the second spot says no more than the first. -/
def le : Spot → Spot → Bool
  | _, .any => true
  | .any, _ => false
  | _, .inner => true
  | .inner, _ => false
  | _, .within => true
  | .within, _ => false
  | .solid, .solid => true
  | .before k, .solid | .beforeTwo k _, .solid => isSolid k
  | .before k, .before k' | .beforeTwo k _, .before k' => k == k'
  | .beforeTwo k l, .beforeTwo k' l' => k == k' && l == l'
  | .solid, _ | .before _, .beforeTwo _ _ => false

/-- The spot behind a token of the kind. -/
def past : Token.Kind → Spot
  | .semicolon => .any
  | _ => .within

end Spot

/-- A left and a right parse. -/
structure Pair where
  left : Input
  right : Input
  /-- What the right parse has left to read where the left one is at its end. -/
  more : List Token
  /-- Number of tokens of the left parse. -/
  total : Nat
  /-- Number of tokens the right parse has read before the left one starts. -/
  lead : Nat
  eof_left : left.eof.kind = .eof
  eof_right : right.eof.kind = .eof
  /-- The right parse ends, too, or goes on with a declaration. -/
  next : ((more[0]?.getD right.eof).kind = .eof ∧ more.length ≤ 1) ∨
    opensDeclaration (more[0]?.getD right.eof).kind = true

namespace Pair

variable (g : Pair)

/-- The kind of token that the right parse sees at the seam. -/
def seam : Token.Kind := (g.more[0]?.getD g.right.eof).kind

/-- The left parse is at its end, and the right one is not. -/
def AtSeam (s : State) : Prop := g.seam ≠ .eof ∧ s.rest.length = 1

/-- Tokens left to read by both parses. -/
inductive Ahead : List Token → List Token → Prop where
  | ends (e : Token) (he : e.kind = .eof)
      (hsame : g.seam = .eof → e.Same (g.more[0]?.getD g.right.eof)) : Ahead [e] g.more
  | token {t t' : Token} {ts ts' : List Token} (hsame : t.Same t') (heof : t.kind ≠ .eof)
      (herror : t.kind ≠ .error) (hlast : g.seam ≠ .eof → ts.length = 1 → t.kind = .semicolon)
      (hrest : Ahead ts ts') : Ahead (t :: ts) (t' :: ts')

/-- The parses are at the same token and have reported nothing. -/
structure Abreast (s s' : State) : Prop where
  ahead : g.Ahead s.rest s'.rest
  clean : s.errors.messages = #[]
  clean' : s'.errors.messages = #[]
  going : s.halted = false
  going' : s'.halted = false
  closed : s.unclosedAt = none
  concurrent : s.concurrent = s'.concurrent
  back : ∀ t, s.read.back? = some t → ∃ t', s'.read.back? = some t' ∧ t.Same t'
  count : s.position + s.rest.length = g.total
  lead : s'.position = g.lead + s.position
  tree : ∀ b, s.tree = some b → b.Whole

/-- A run of the left parse that leads to `t` reports nothing. If the token at the seam could go on
with an expression, then a tree is built, and the text of the left parse does not end in an
expression that may fail. -/
def Fine (t : State) : Prop :=
  t.errors.messages = #[] ∧ (joinsExpression g.seam = true → t.tree.isSome = true ∧
    ((t.rest[0]?.getD g.left.eof).kind = .eof → ¬ t.EndsIn .fallibleExpr))

end Pair

/-- The left parse is at such a spot. -/
def Spot.Holds (g : Pair) (s : State) : Spot → Prop
  | .any => True
  | .inner => g.AtSeam s → joinsExpression g.seam = false
  | .within => ¬ g.AtSeam s
  | .solid => ¬ g.AtSeam s ∧ isSolid (s.rest[0]?.getD g.left.eof).kind = true
  | .before kind => ¬ g.AtSeam s ∧ (s.rest[0]?.getD g.left.eof).kind = kind
  | .beforeTwo first second =>
    ¬ g.AtSeam s ∧ (s.rest[0]?.getD g.left.eof).kind = first ∧
      (s.rest[1]?.getD g.left.eof).kind = second

section
variable {g : Pair} {s s' : State} {σ τ : Spot} {kind : Token.Kind}

theorem Spot.Holds.not_atSeam (h : σ.Holds g s) (hw : σ.le .within = true) : ¬ g.AtSeam s := by
  cases σ with
  | any | inner => cases hw
  | within => exact h
  | solid | before _ | beforeTwo _ _ => exact h.1

theorem Spot.Holds.le (h : σ.Holds g s) (hle : σ.le τ = true) : τ.Holds g s := by
  cases τ with
  | any => trivial
  | inner =>
    cases σ with
    | any => cases hle
    | inner => exact h
    | within | solid | before _ | beforeTwo _ _ =>
      exact fun hseam => absurd hseam (h.not_atSeam rfl)
  | within => exact h.not_atSeam hle
  | solid =>
    cases σ with
    | any | inner | within => cases hle
    | solid => exact h
    | before k => exact ⟨h.1, h.2 ▸ hle⟩
    | beforeTwo k l => exact ⟨h.1, h.2.1 ▸ hle⟩
  | before k' =>
    cases σ with
    | any | inner | within | solid => cases hle
    | before k => exact (eq_of_beq hle : k = k') ▸ h
    | beforeTwo k l => exact ⟨h.1, h.2.1.trans (eq_of_beq hle)⟩
  | beforeTwo k' l' =>
    cases σ with
    | any | inner | within | solid | before _ => cases hle
    | beforeTwo k l =>
      obtain ⟨hk, hl⟩ := Bool.and_eq_true_iff.1 hle
      exact ⟨h.1, h.2.1.trans (eq_of_beq hk), h.2.2.trans (eq_of_beq hl)⟩

/-- A spot is about the tokens left to read. -/
theorem Spot.Holds.congr {t : State} (h : σ.Holds g s) (hrest : t.rest = s.rest) : σ.Holds g t := by
  cases σ with
  | any => trivial
  | inner | within | solid | before _ | beforeTwo _ _ =>
    simp only [Spot.Holds, Pair.AtSeam, hrest] at h ⊢
    exact h

/-- What the right parse may see at the seam. -/
theorem Spot.Holds.meets (h : σ.Holds g s) (hseam : g.AtSeam s) : σ.meets g.seam = true := by
  have hopens : opensDeclaration g.seam = true := g.next.resolve_left fun h => hseam.1 h.1
  cases σ with
  | any => exact hopens
  | inner => simp [Spot.meets, hopens, h hseam]
  | within | solid | before _ | beforeTwo _ _ => exact absurd hseam (h.not_atSeam rfl)

theorem Spot.meets_eq_false (h : opensDeclaration kind = false) : σ.meets kind = false := by
  cases σ <;> simp [Spot.meets, h]

/-! ## Tokens ahead -/

namespace Pair.Ahead

variable {ts ts' : List Token}

theorem length_pos (h : g.Ahead ts ts') : 0 < ts.length := by
  cases h <;> simp

/-- The next tokens are the same, or the parses are at the seam. -/
theorem peek (h : g.Ahead ts ts') :
    ((ts[0]?.getD g.left.eof).Same (ts'[0]?.getD g.right.eof) ∧ (g.seam = .eof ∨ 1 < ts.length) ∧
        (ts[0]?.getD g.left.eof).kind ≠ .error) ∨
      (g.seam ≠ .eof ∧ ts.length = 1 ∧ (ts[0]?.getD g.left.eof).kind = .eof ∧
        (ts'[0]?.getD g.right.eof).kind = g.seam) := by
  cases h with
  | ends e he hsame =>
    by_cases hseam : g.seam = .eof
    · exact .inl ⟨hsame hseam, .inl hseam, by simp [he]⟩
    · exact .inr ⟨hseam, rfl, he, rfl⟩
  | token hsame _ herror _ hrest =>
    have := hrest.length_pos
    exact .inl ⟨hsame, .inr (by simp; omega), herror⟩

/-- A token that is not the end is ahead of both parses. -/
theorem uncons (h : g.Ahead ts ts') (heof : (ts[0]?.getD g.left.eof).kind ≠ .eof) :
    ∃ t t' us us', ts = t :: us ∧ ts' = t' :: us' ∧ t.Same t' ∧ t.kind ≠ .error ∧
      (isSolid t.kind = true → ¬ (g.seam ≠ .eof ∧ us.length = 1)) ∧ g.Ahead us us' := by
  cases h with
  | ends e he => exact absurd he heof
  | token hsame _ herror hlast hrest =>
    refine ⟨_, _, _, _, rfl, rfl, hsame, herror, fun hsolid hseam => ?_, hrest⟩
    exact (isSolid_iff.1 hsolid).2 (hlast hseam.1 hseam.2)

/-- Behind a token that the seam does not follow the next token is the same as well. -/
theorem peek_one (h : g.Ahead ts ts') (hsolid : isSolid (ts[0]?.getD g.left.eof).kind = true) :
    (ts[1]?.getD g.left.eof).Same (ts'[1]?.getD g.right.eof) := by
  obtain ⟨t, t', us, us', rfl, rfl, _, _, hseam, hrest⟩ := h.uncons (isSolid_iff.1 hsolid).1
  rcases hrest.peek with ⟨hsame, _, _⟩ | ⟨hne, hlen, _, _⟩
  · simpa using hsame
  · exact absurd ⟨hne, hlen⟩ (hseam hsolid)

/-- A token that opens no declaration is next for both parses, or for none. -/
theorem check (h : g.Ahead ts ts') (hkind : kind ≠ .eof) (hopens : opensDeclaration kind = false) :
    ((ts[0]?.getD g.left.eof).kind == kind) = ((ts'[0]?.getD g.right.eof).kind == kind) := by
  rcases h.peek with ⟨hsame, _, _⟩ | ⟨hseam, _, heof, hnext⟩
  · rw [hsame.kind]
  · have hne : g.seam ≠ kind := by
      rintro rfl
      rcases g.next with hend | hstart
      · exact hseam hend.1
      · exact absurd (hopens.symm.trans hstart) Bool.false_ne_true
    rw [heof, hnext, beq_false_of_ne hkind.symm, beq_false_of_ne hne]

/-- So it is two places ahead, behind a token that the seam does not follow. -/
theorem check_two (h : g.Ahead ts ts') (hsolid : isSolid (ts[0]?.getD g.left.eof).kind = true)
    (hkind : kind ≠ .eof) (hopens : opensDeclaration kind = false) :
    ((ts[2]?.getD g.left.eof).kind == kind) = ((ts'[2]?.getD g.right.eof).kind == kind) := by
  obtain ⟨t, t', us, us', rfl, rfl, _, _, hseam, hrest⟩ := h.uncons (isSolid_iff.1 hsolid).1
  cases hrest with
  | token _ _ _ _ hrest => exact hrest.check hkind hopens
  | ends e he =>
    have hend : g.seam = .eof := by
      by_contra hne
      exact hseam hsolid ⟨hne, rfl⟩
    have hmore : g.more[1]? = none := by
      rcases g.next with h | h
      · exact List.getElem?_eq_none h.2
      · rw [show (g.more[0]?.getD g.right.eof).kind = .eof from hend] at h
        cases h
    simp [hmore, g.eof_left, g.eof_right]

end Pair.Ahead

namespace Pair.Abreast

theorem peek (h : g.Abreast s s') :
    ((s.rest[0]?.getD g.left.eof).Same (s'.rest[0]?.getD g.right.eof) ∧ ¬ g.AtSeam s ∧
        (s.rest[0]?.getD g.left.eof).kind ≠ .error) ∨
      (g.AtSeam s ∧ (s.rest[0]?.getD g.left.eof).kind = .eof ∧
        (s'.rest[0]?.getD g.right.eof).kind = g.seam) := by
  rcases h.ahead.peek with ⟨hsame, hnot, herror⟩ | ⟨hseam, hlen, heof, hnext⟩
  · refine .inl ⟨hsame, ?_, herror⟩
    rintro ⟨hne, hlen⟩
    rcases hnot with hnot | hnot
    · exact hne hnot
    · omega
  · exact .inr ⟨⟨hseam, hlen⟩, heof, hnext⟩

theorem peek_of_not_atSeam (h : g.Abreast s s') (hseam : ¬ g.AtSeam s) :
    (s.rest[0]?.getD g.left.eof).Same (s'.rest[0]?.getD g.right.eof) :=
  h.peek.elim And.left fun h' => absurd h'.1 hseam

theorem kind_ne_error (h : g.Abreast s s') : (s.rest[0]?.getD g.left.eof).kind ≠ .error := by
  rcases h.peek with ⟨_, _, herror⟩ | ⟨_, heof, _⟩
  · exact herror
  · rw [heof]
    decide

theorem left_clean (h : g.Abreast s s') : s.Clean := ⟨h.clean, h.going, h.closed⟩

/-- Whether the next token is of a kind, both parses answer alike, unless the spot excludes it. -/
theorem check (h : g.Abreast s s') (hσ : σ.Holds g s) (hkind : kind ≠ .eof)
    (hmeets : σ.meets kind = false) :
    ((s.rest[0]?.getD g.left.eof).kind == kind) =
      ((s'.rest[0]?.getD g.right.eof).kind == kind) := by
  rcases h.peek with ⟨hsame, _, _⟩ | ⟨hseam, heof, hnext⟩
  · rw [hsame.kind]
  · have hmet := hσ.meets hseam
    have hne : g.seam ≠ kind := by
      rintro rfl
      rw [hmeets] at hmet
      cases hmet
    rw [heof, hnext, beq_false_of_ne hkind.symm, beq_false_of_ne hne]

/-- A change of the left state that both parses make, or that does not matter. -/
theorem congr {t t' : State} (h : g.Abreast s s') (hread : t.read = s.read)
    (hrest : t.rest = s.rest) (herrors : t.errors = s.errors) (hhalted : t.halted = s.halted)
    (hclosed : t.unclosedAt = s.unclosedAt) (hread' : t'.read = s'.read)
    (hrest' : t'.rest = s'.rest) (herrors' : t'.errors = s'.errors)
    (hhalted' : t'.halted = s'.halted) (hconcurrent : t.concurrent = t'.concurrent)
    (htree : ∀ b, t.tree = some b → b.Whole) : g.Abreast t t' where
  ahead := by rw [hrest, hrest']; exact h.ahead
  clean := by rw [herrors]; exact h.clean
  clean' := by rw [herrors']; exact h.clean'
  going := by rw [hhalted]; exact h.going
  going' := by rw [hhalted']; exact h.going'
  closed := by rw [hclosed]; exact h.closed
  concurrent := hconcurrent
  back := by rw [hread, hread']; exact h.back
  count := by rw [State.position, hread, hrest]; exact h.count
  lead := by rw [State.position, State.position, hread, hread']; exact h.lead
  tree := htree

/-- Both parses read a token. -/
theorem take {t t' : Token} {ts ts' : List Token} (h : g.Abreast s s') (hrest : s.rest = t :: ts)
    (hsame : t.Same t') (hahead : g.Ahead ts ts') :
    g.Abreast (s.take t ts) (s'.take t' ts') where
  ahead := hahead
  clean := h.clean
  clean' := h.clean'
  going := h.going
  going' := h.going'
  closed := h.closed
  concurrent := h.concurrent
  back := by
    intro u hu
    have hback : some t = some u := by simpa [State.take] using hu
    exact ⟨t', by simp [State.take], Option.some.inj hback ▸ hsame⟩
  count := by
    have := h.count
    simp only [State.position, hrest, List.length_cons] at this
    simp only [State.position, State.take, Array.size_push]
    omega
  lead := by
    have := h.lead
    simp only [State.position] at this
    simp only [State.position, State.take, Array.size_push]
    omega
  tree := by
    intro b hb
    obtain ⟨b', hb', rfl⟩ := Option.map_eq_some_iff.1 hb
    exact (h.tree b' hb').token t

end Pair.Abreast

/-! ## Runs that report nothing -/

namespace Pair.Fine

theorem first {t u : State} (h : g.Fine u) (hsteps : Steps g.left t u) : g.Fine t := by
  refine ⟨hsteps.clean h.1, fun hjoins => ?_⟩
  obtain ⟨htree, hapart⟩ := h.2 hjoins
  refine ⟨hsteps.isSome_tree ▸ htree, fun hend hin => ?_⟩
  obtain ⟨hrest, hin'⟩ := hsteps.endsIn hend hin
  exact hapart (hrest ▸ hend) hin'

end Pair.Fine

end

end Grammar

end LimitSyntax
