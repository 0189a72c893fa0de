import LimitSyntax.Proofs.Levels

/-!
# Expressions that are written down

An expression is written as a row of words (`Ast.Expr.words`). Literals, names, operators, groupings,
ranges, assignments, calls, members, indices, lists and tuples can be written, as long as their
operands are of the levels that operators ask for (`Ast.Expr.Writable`): there are no parentheses
but those of groupings. How the words of such an expression start tells it from a named argument,
from a sign with an operand and from the end of a list (`Ast.Expr.Writable.starts`).
-/

namespace LimitSyntax

/-- A kind of token and, if it has one, the text of its own. -/
abbrev Word := Token.Kind × String

/-- What the grammar sees of a token: its kind, and the text of a name, a number or a string. -/
def Token.toWord (t : Token) : Word :=
  (t.kind, match t.kind with
    | .identifier | .intLiteral | .floatLiteral | .scientificLiteral => t.lexeme
    | .string => t.text
    | _ => "")

namespace Ast

/-! ## Words -/

/-- A word that is known by its kind. -/
def sign (kind : Token.Kind) : Word := (kind, "")

def nameWord (name : String) : Word := (.identifier, name)

def Literal.word : Literal → Word
  | .int digits => (.intLiteral, digits)
  | .float digits => (.floatLiteral, digits)
  | .scientific digits => (.scientificLiteral, digits)
  | .str text => (.string, text)
  | .bool true => sign .kwTrue
  | .bool false => sign .kwFalse
  | .nil => sign .kwNil

def BinaryOp.mark : BinaryOp → Token.Kind
  | .or => .kwOr
  | .and => .kwAnd
  | .eq => .equalEqual
  | .ne => .bangEqual
  | .lt => .less
  | .le => .lessEqual
  | .gt => .greater
  | .ge => .greaterEqual
  | .add => .plus
  | .sub => .minus
  | .mul => .star
  | .div => .slash
  | .mod => .modulus
  | .pow => .power

def UnaryOp.mark : UnaryOp → Token.Kind
  | .not => .bang
  | .neg => .minus
  | .plus => .plus

def AssignOp.mark : AssignOp → Token.Kind
  | .assign => .equal
  | .addAssign => .plusEqual
  | .subAssign => .minusEqual
  | .mulAssign => .starEqual
  | .divAssign => .slashEqual
  | .modAssign => .modulusEqual

/-- Items with commas between them. -/
def listed : List (List Word) → List Word
  | [] => []
  | item :: items => item ++ items.flatMap (sign .comma :: ·)

/-- The words of an expression; none for the forms that are not written here. In a call positional
arguments stand before named ones, and a tuple of one element has a comma behind it. -/
def Expr.words : Expr → List Word
  | ⟨.literal value, _, _⟩ => [value.word]
  | ⟨.variable name, _, _⟩ => [nameWord name]
  | ⟨.self, _, _⟩ => [sign .kwThis]
  | ⟨.super, _, _⟩ => [sign .kwSuper]
  | ⟨.grouping inner, _, _⟩ => sign .leftParen :: inner.words ++ [sign .rightParen]
  | ⟨.tuple elements, _, _⟩ =>
    sign .leftParen :: listed (elements.map words) ++
      (if elements.length = 1 then [sign .comma] else []) ++ [sign .rightParen]
  | ⟨.list elements, _, _⟩ =>
    sign .leftBracket :: listed (elements.map words) ++ [sign .rightBracket]
  | ⟨.unary op operand, _, _⟩ => sign op.mark :: operand.words
  | ⟨.binary left op right, _, _⟩ => left.words ++ sign op.mark :: right.words
  | ⟨.range first last, _, _⟩ => first.words ++ sign .range :: last.words
  | ⟨.call callee args named, _, _⟩ =>
    callee.words ++ sign .leftParen ::
      (listed (args.map words ++ named.map fun p => nameWord p.1 :: sign .equal :: p.2.words) ++
        [sign .rightParen])
  | ⟨.member object name, _, _⟩ => object.words ++ [sign .dot, nameWord name]
  | ⟨.index object index, _, _⟩ =>
    object.words ++ sign .leftBracket :: (index.words ++ [sign .rightBracket])
  | ⟨.assign (.variable name) op value, _, _⟩ => nameWord name :: sign op.mark :: value.words
  | ⟨.assign (.member object name) op value, _, _⟩ =>
    (object.words ++ [sign .dot, nameWord name]) ++ sign op.mark :: value.words
  | ⟨.assign (.index object index) op value, _, _⟩ =>
    (object.words ++ sign .leftBracket :: (index.words ++ [sign .rightBracket])) ++
      sign op.mark :: value.words
  | _ => []
termination_by e => sizeOf e
decreasing_by
  all_goals try decreasing_tactic
  next p hp =>
    have hlt := List.sizeOf_lt_of_mem hp
    obtain ⟨_, e⟩ := p
    simp only [Prod.mk.sizeOf_spec] at hlt
    show sizeOf e < _
    simp only [Expr.mk.sizeOf_spec, ExprKind.call.sizeOf_spec]
    omega

/-! ## What can be written -/

/-- The expression reads like a named argument. -/
def Expr.isNaming (e : Expr) : Bool :=
  match e.kind with
  | .assign (.variable _) .assign _ => true
  | _ => false

/-- The expression can be written: its operands are of the levels that operators ask for, and no
positional argument of a call reads like a named one. -/
inductive Expr.Writable : Expr → Prop where
  | literal {value : Literal} {span : Span} {line : Nat} : Writable ⟨.literal value, span, line⟩
  | variable {name : String} {span : Span} {line : Nat} : Writable ⟨.variable name, span, line⟩
  | self {span : Span} {line : Nat} : Writable ⟨.self, span, line⟩
  | super {span : Span} {line : Nat} : Writable ⟨.super, span, line⟩
  | grouping {inner : Expr} {span : Span} {line : Nat} (hinner : inner.Writable) :
      Writable ⟨.grouping inner, span, line⟩
  | tuple {elements : List Expr} {span : Span} {line : Nat}
      (helements : ∀ e ∈ elements, e.Writable) : Writable ⟨.tuple elements, span, line⟩
  | list {elements : List Expr} {span : Span} {line : Nat}
      (helements : ∀ e ∈ elements, e.Writable) : Writable ⟨.list elements, span, line⟩
  | unary {op : UnaryOp} {operand : Expr} {span : Span} {line : Nat} (hoperand : operand.Writable)
      (hlevel : 8 ≤ operand.level) : Writable ⟨.unary op operand, span, line⟩
  | binary {left right : Expr} {op : BinaryOp} {span : Span} {line : Nat} (hleft : left.Writable)
      (hright : right.Writable) (hgrades : op.Grades left right) :
      Writable ⟨.binary left op right, span, line⟩
  | range {first last : Expr} {span : Span} {line : Nat} (hfirst : first.Writable)
      (hlast : last.Writable) (hlevel : 5 ≤ first.level) (hlevel' : 5 ≤ last.level) :
      Writable ⟨.range first last, span, line⟩
  | call {callee : Expr} {args : List Expr} {named : List (String × Expr)} {span : Span}
      {line : Nat} (hcallee : callee.Writable) (hlevel : callee.level = 9)
      (hargs : ∀ e ∈ args, e.Writable) (hpositional : ∀ e ∈ args, e.isNaming = false)
      (hnamed : ∀ p ∈ named, p.2.Writable) : Writable ⟨.call callee args named, span, line⟩
  | member {object : Expr} {name : String} {span : Span} {line : Nat} (hobject : object.Writable)
      (hlevel : object.level = 9) : Writable ⟨.member object name, span, line⟩
  | index {object index : Expr} {span : Span} {line : Nat} (hobject : object.Writable)
      (hindex : index.Writable) (hlevel : object.level = 9) :
      Writable ⟨.index object index, span, line⟩
  | assignVariable {name : String} {op : AssignOp} {value : Expr} {span : Span} {line : Nat}
      (hvalue : value.Writable) : Writable ⟨.assign (.variable name) op value, span, line⟩
  | assignMember {object : Expr} {name : String} {op : AssignOp} {value : Expr} {span : Span}
      {line : Nat} (hobject : object.Writable) (hlevel : object.level = 9)
      (hvalue : value.Writable) : Writable ⟨.assign (.member object name) op value, span, line⟩
  | assignIndex {object index : Expr} {op : AssignOp} {value : Expr} {span : Span} {line : Nat}
      (hobject : object.Writable) (hindex : index.Writable) (hlevel : object.level = 9)
      (hvalue : value.Writable) : Writable ⟨.assign (.index object index) op value, span, line⟩

/-! ## How words start -/

/-- How the words of an expression start. -/
structure Expr.Starts (e : Expr) (w : Word) (ws : List Word) : Prop where
  words : e.words = w :: ws
  /-- No end of a list comes first. -/
  opens : w.1 ≠ .rightParen ∧ w.1 ≠ .rightBracket ∧ w.1 ≠ .eof
  /-- What no operator takes apart has no sign before it. -/
  unsigned : e.level = 9 → Grammar.unaryOp? w.1 = none
  /-- A name and an equals sign are an assignment. -/
  unnamed : e.isNaming = false → w.1 = .identifier → ∀ v ∈ ws.head?, v.1 ≠ .equal

namespace Expr

variable {e first : Expr} {w v : Word} {ws vs : List Word}

theorem isNaming_of_level (h : 0 < e.level) : e.isNaming = false := by
  unfold isNaming
  split
  next hkind =>
    have hlevel : e.level = 0 := congrArg ExprKind.level hkind
    omega
  next => rfl

/-- An expression that starts with another one, and goes on with a word that is no equals sign. -/
theorem Starts.extend (h : first.Starts w ws) (hwords : e.words = first.words ++ v :: vs)
    (hfirst : 0 < first.level) (hv : v.1 ≠ .equal) (hlevel : e.level = 9 → first.level = 9) :
    e.Starts w (ws ++ v :: vs) where
  words := by rw [hwords, h.words, List.cons_append]
  opens := h.opens
  unsigned he := h.unsigned (hlevel he)
  unnamed _ hw u hu := by
    cases ws with
    | nil =>
      obtain rfl : v = u := by simpa using hu
      exact hv
    | cons x xs =>
      obtain rfl : x = u := by simpa using hu
      exact h.unnamed (isNaming_of_level hfirst) hw x rfl

/-- The words of an expression that starts with a sign of its own. -/
theorem Starts.of_sign {kind : Token.Kind} (hwords : e.words = sign kind :: ws)
    (hopens : kind ≠ .rightParen ∧ kind ≠ .rightBracket ∧ kind ≠ .eof) (hname : kind ≠ .identifier)
    (hlevel : e.level = 9 → Grammar.unaryOp? kind = none) : e.Starts (sign kind) ws where
  words := hwords
  opens := hopens
  unsigned := hlevel
  unnamed _ hw := absurd hw hname

end Expr

theorem BinaryOp.mark_ne_equal (op : BinaryOp) : op.mark ≠ .equal := by cases op <;> decide

theorem BinaryOp.level_pos (op : BinaryOp) : 0 < op.level := by cases op <;> decide

/-- The left operand of an operator is no assignment. -/
theorem BinaryOp.Grades.level_pos {op : BinaryOp} {left right : Expr} (h : op.Grades left right) :
    0 < left.level := by
  have hop := op.level_pos
  unfold Grades at h
  split at h
  · omega
  · exact Nat.lt_of_lt_of_le hop h.1.level

/-- The words of a literal start with none of the signs that matter. -/
theorem Literal.starts {value : Literal} {span : Span} {line : Nat} :
    Expr.Starts ⟨.literal value, span, line⟩ value.word [] where
  words := by rw [Expr.words]
  opens := by
    cases value with
    | bool value => cases value <;> exact ⟨nofun, nofun, nofun⟩
    | _ => exact ⟨nofun, nofun, nofun⟩
  unsigned _ := by
    cases value with
    | bool value => cases value <;> rfl
    | _ => rfl
  unnamed _ _ := nofun

theorem Expr.Writable.starts {e : Expr} (h : e.Writable) : ∃ w ws, e.Starts w ws := by
  induction h with
  | literal => exact ⟨_, _, Literal.starts⟩
  | @«variable» name =>
    refine ⟨nameWord name, [], by rw [words], ⟨nofun, nofun, nofun⟩, fun _ => rfl, fun _ _ => nofun⟩
  | self => exact ⟨_, _, .of_sign (by rw [words]) (by decide) (by decide) fun _ => rfl⟩
  | super => exact ⟨_, _, .of_sign (by rw [words]) (by decide) (by decide) fun _ => rfl⟩
  | grouping =>
    exact ⟨_, _, .of_sign (by rw [words, List.cons_append]) (by decide) (by decide) fun _ => rfl⟩
  | tuple =>
    exact ⟨_, _, .of_sign (by rw [words, List.cons_append, List.cons_append]) (by decide)
      (by decide) fun _ => rfl⟩
  | list =>
    exact ⟨_, _, .of_sign (by rw [words, List.cons_append]) (by decide) (by decide) fun _ => rfl⟩
  | @unary op =>
    refine ⟨_, _, .of_sign (by rw [words]) ?_ ?_ nofun⟩
    · cases op <;> decide
    · cases op <;> decide
  | @binary left _ op _ _ _ _ hgrades ihleft =>
    obtain ⟨w, ws, hstarts⟩ := ihleft
    refine ⟨w, _, hstarts.extend (by rw [words]) hgrades.level_pos op.mark_ne_equal fun hlevel => ?_⟩
    have hop : op.level = 9 := hlevel
    cases op <;> cases hop
  | range _ _ hlevel _ ihfirst =>
    obtain ⟨w, ws, hstarts⟩ := ihfirst
    exact ⟨w, _, hstarts.extend (by rw [words]) (by omega) (by decide) nofun⟩
  | call _ hlevel _ _ _ ihcallee =>
    obtain ⟨w, ws, hstarts⟩ := ihcallee
    exact ⟨w, _, hstarts.extend (by rw [words]) (by omega) (by decide) fun _ => hlevel⟩
  | member _ hlevel ihobject =>
    obtain ⟨w, ws, hstarts⟩ := ihobject
    exact ⟨w, _, hstarts.extend (by rw [words]) (by omega) (by decide) fun _ => hlevel⟩
  | index _ _ hlevel ihobject =>
    obtain ⟨w, ws, hstarts⟩ := ihobject
    exact ⟨w, _, hstarts.extend (by rw [words]) (by omega) (by decide) fun _ => hlevel⟩
  | @assignVariable name op value =>
    refine ⟨nameWord name, sign op.mark :: value.words, ?_, ⟨nofun, nofun, nofun⟩, nofun, ?_⟩
    · rw [words]
    · rintro hnaming - v hv
      obtain rfl : sign op.mark = v := by simpa using hv
      cases op with
      | assign => cases hnaming
      | _ => nofun
  | assignMember _ hlevel _ ihobject =>
    obtain ⟨w, ws, hstarts⟩ := ihobject
    exact ⟨w, _, hstarts.extend (by rw [words, List.append_assoc, List.cons_append]) (by omega)
      (by decide) nofun⟩
  | assignIndex _ _ hlevel _ ihobject =>
    obtain ⟨w, ws, hstarts⟩ := ihobject
    exact ⟨w, _, hstarts.extend (by rw [words, List.append_assoc, List.cons_append]) (by omega)
      (by decide) nofun⟩

end Ast

end LimitSyntax
