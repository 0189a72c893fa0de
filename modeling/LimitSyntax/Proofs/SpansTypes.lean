import LimitSyntax.Proofs.Spans
import LimitSyntax.Proofs.SparingTypes

/-!
# Where syntax stands: types, patterns and bodies

The rules for types and patterns, and the parts that expressions, statements and declarations share,
put what they yield in its place if the rules they call do. A type in parentheses starts with them
and keeps the line of what stands in them (`Grammar.Spans.tupleType`). The parameters of a list are
read in the order in which they are written (`Grammar.Spans.parameters`).
-/

namespace LimitSyntax.Grammar

open Ast

/-! ## Parts that are put together later -/

instance : HasPieces RecordParts := ⟨fun parts => pieces parts.fields⟩
instance : HasPieces ListPatternParts := ⟨fun parts => pieces parts.elements⟩
instance : HasPieces DictPatternParts := ⟨fun _ => []⟩

/-- A type that may be given a span from the offset `lo` on. -/
structure Spannable (text : String) (row : List Token) (lo hi : Nat) (t : TypeExpr) : Prop where
  inside : Stands text row lo hi (t.kind, t.refinement)
  start : TypeStart row lo t.line

section
variable {text : String} {row : List Token} {lo hi line : Nat} {t : TypeExpr}

/-- A type without suffix or refinement. -/
theorem Spannable.plain {kind : TypeKind} {span : Span} (hstart : StartsAt row lo line)
    (h : Stands text row lo hi kind) : Spannable text row lo hi (.plain kind span line) :=
  ⟨.pair h (.none h.le), .token hstart⟩

theorem Spannable.self (h : Stands text row lo hi t) :
    Spannable text row t.span.start t.span.stop t :=
  ⟨h.inside (p := .type t) rfl rfl, h.property (p := .type t) rfl⟩

end

namespace Spans

variable {rules : Rules} {text : String} {row : List Token} {κ : Token → Prop} {lo : Nat}
  {H : State → Prop} (hr : rules.Spans text row)
include hr

/-! ## Types -/

theorem listType (hκ : Inland κ) :
    Spans text row κ lo H (listType rules) (Stands text row lo) :=
  .advance hκ fun _ => .past (.check _) fun _ =>
    .branch (Q := Stands text row lo) (.pure fun _ h => .none h.2.le)
      (.map hr.type fun _ h => .some h) fun _ => .consume (by decide) fun _ =>
        .pure fun _ h => .of h.1.2 rfl

theorem dictType (hκ : Inland κ) :
    Spans text row κ lo H (dictType rules) (Stands text row lo) :=
  .advance hκ fun _ => .bind hr.basicType fun _ => .consume (by decide) fun _ => .bind hr.type fun _ =>
    .following (.consumeClose _ _) fun _ => .pure fun _ h => .of (.pair h.1.1.2 h.2) rfl

theorem recordPart {parts : RecordParts} (hparts : ∀ u, H u → Stands text row lo u.edge parts) :
    Spans text row κ lo H (recordPart rules parts) (Stands text row lo) := by
  have hrest : ∀ {G : State → Prop} {κ : Token → Prop} {parts : RecordParts},
      (∀ u, G u → Stands text row lo u.edge parts) → Spans text row κ lo G
        (Pure.pure parts >>= fun parts => do let _ ← Grammar.eat .comma; return parts)
        (Stands text row lo) :=
    fun h => .bind (.pure h) fun _ => .past (.eat _) fun _ => .pure fun _ h => h.2
  refine .past (.eat _) fun _ => .ite (fun _ => ?_) fun _ => ?_
  · refine .past (.check _) fun _ => .ite (fun _ => .past .advance fun _ => hrest fun u h => ?_)
      fun _ => hrest fun u h => ?_
    · exact (hparts u h).of rfl
    · exact (hparts u h).of rfl
  · refine .past Twin.typeFieldName.alike fun _ => .consume (by decide) fun _ =>
      .bind hr.type fun _ => hrest fun u h => ?_
    have hfields : Stands text row lo u.edge parts.fields := (hparts u h.1.1).of rfl
    exact .of (.append hfields (.cons (h.2.of rfl) (.nil h.2.le))) rfl

theorem recordType (hκ : Inland κ) {line : Nat} (hstart : ∀ u, H u → StartsAt row lo line) :
    Spans text row κ lo H (recordType rules lo line) (Spannable text row lo) := by
  refine .advance hκ fun _ => .bind (.repeatUpTo (Q := Stands text row lo)
    (fun _ h => .bare h.2.le rfl) fun parts => ?_) fun _ => .following (.consumeClose _ _) fun _ =>
      .past (.spanFrom _) fun _ => .pure fun u h => .plain (hstart u h.1.1) (.of h.2 rfl)
  exact .past (.check _) fun _ => .past .atEnd fun _ => .ite (fun _ => .pure fun _ h => h)
    fun _ => .bind (.recordPart hr fun _ h => h) fun _ => .pure fun _ h => h.2

theorem typeParam : Spans text row κ lo H (typeParam rules) (Stands text row lo) := by
  refine .inNode (.past Twin.startsWithParamName.alike fun _ => .ite (fun _ => ?_)
    fun _ => .bind hr.type fun _ => .pure fun _ h => .of h.2 rfl)
  exact .past .advance fun t => .past (.eat _) fun _ => .consume (by decide) fun _ =>
    .guarded (.reportAt t _ append_ne_tooManyErrors)
      (.bind hr.type fun _ => .pure fun _ h => .of h.2 rfl)

theorem typeParams (hle : ∀ u, H u → lo ≤ u.edge) :
    Spans text row κ lo H (typeParams rules) (Stands text row lo) :=
  .bind (.commaList hle (.typeParam hr)) fun (_, _) => .consume (by decide) fun _ =>
    .pure fun _ h => h.1.2

omit hr in
/-- A token that is consumed is the last one read. -/
theorem back_of_consume {i : Input} {s t : State} {kind : Token.Kind} {description : String}
    {u : Token} (heof : i.eof.kind = .eof) (hkind : kind ≠ .eof)
    (hexec : exec (Grammar.consume kind description) i s = (.ok u, t)) :
    t.read.back? = some u ∧ u.kind = kind := by
  obtain ⟨hnext, hadvance⟩ := exec_consume_eq_ok hexec
  rw [exec_advance] at hadvance
  cases hrest : s.rest with
  | nil =>
    rw [hrest] at hnext
    exact absurd (hnext.symm.trans heof) hkind
  | cons v rest =>
    rw [hrest] at hnext hadvance
    have hv : v.kind = kind := hnext
    simp only [hv, hkind, if_false] at hadvance
    cases hadvance
    exact ⟨Array.back?_push .., hv⟩

omit hr in
/-- What is not eaten stays where it is. -/
theorem state_of_eat {i : Input} {s t : State} {kind : Token.Kind} (heof : i.eof.kind = .eof)
    (hkind : kind ≠ .eof) (hexec : exec (Grammar.eat kind) i s = (.ok false, t)) : s = t := by
  rw [exec_eat i s hkind heof] at hexec
  split at hexec
  · split at hexec
    · cases hexec
    · cases hexec
      rfl
  · cases hexec
    rfl

omit hr in
/-- The parameters of a function type end with a parenthesis, which is read last. -/
theorem back_of_typeParams {i : Input} {s t : State} {params : List TypeParam}
    (heof : i.eof.kind = .eof) (hexec : exec (Grammar.typeParams rules) i s = (.ok params, t)) :
    ∃ paren, t.read.back? = some paren ∧ paren.kind = .rightParen := by
  obtain ⟨_, u, _, hrest⟩ := exec_bind_eq_ok hexec
  obtain ⟨paren, v, hconsume, hpure⟩ := exec_bind_eq_ok hrest
  cases hpure
  exact ⟨paren, back_of_consume heof (by decide) hconsume⟩

/-- A result type that is left out stands behind the parenthesis of the parameters. -/
theorem functionType (hκ : Inland κ) :
    Spans text row κ lo H (functionType rules) (Stands text row lo) := by
  refine .advance hκ fun _ => .consume (by decide) fun _ => ?_
  have hparams : Spans text row (fun _ => True) lo (fun u => lo ≤ u.edge)
      (Grammar.typeParams rules) (Stands text row lo) := .typeParams hr fun _ h => h
  have hwritten : ∀ params : List TypeParam, Spans text row (fun _ => True) lo
      (fun u => Stands text row lo u.edge params)
      (do return TypeKind.function params (some (← rules.call .type))) (Stands text row lo) :=
    fun params => .bind hr.type fun _ => .pure fun _ h => .of (.pair h.1 (.some h.2)) rfl
  refine .under (G := fun u => lo ≤ u.edge) ⟨?_, fun {i s t kind} hs _ hlo hH hexec hclean => ?_⟩
    fun _ h => h.2.le
  · exact .bind hparams.steps fun params => .bind (Alike.eat _).stepwise fun _ =>
      .ite (hwritten params).steps (.bind Alike.previous.stepwise fun _ => .pure _)
  obtain ⟨params, u, hrun, hthen⟩ := exec_bind_eq_ok hexec
  obtain ⟨colon, v, heat, htail⟩ := exec_bind_eq_ok hthen
  have heof := hs.eof
  have hsteps := hparams.steps.run heof hrun
  have hsteps' := (Alike.eat Token.Kind.colon).stepwise.run heof heat
  cases colon with
  | true =>
    rw [if_pos rfl] at htail
    have hv := Steps.clean ((hwritten params).steps.run heof htail) hclean
    have hu := Steps.clean hsteps' hv
    have hstands := hparams.holds hs trivial hlo hH hrun hu
    exact (hwritten params).holds ((hs.steps hsteps hu).steps hsteps' hv) trivial
      (Nat.le_trans hlo (hs.lined.next_mono (hsteps.trans hsteps')))
      (fun w hw => hstands w (hsteps'.trans hw)) htail hclean
  | false =>
    rw [if_neg Bool.false_ne_true, exec_bind_ok i (exec_previous i v)] at htail
    obtain rfl := state_of_eat heof (by decide) heat
    obtain ⟨paren, hback, hkind⟩ := back_of_typeParams heof hrun
    cases htail
    have hu := hs.steps hsteps hclean
    have hmem : paren ∈ row := by
      rw [← hu.tokens, List.append_assoc]
      exact List.mem_append_left _ (Array.mem_toList_iff.2 (Array.mem_of_back? hback))
    have hedge : t.edge = paren.span.stop :=
      State.edge_of_some (by rw [Array.getLast?_toList, hback])
    have hstands := hparams.holds hs trivial hlo hH hrun hclean
    have hvalid := hu.lined.isValid_edge
    have hlo := (hstands t .refl).le
    rw [hback, Option.getD_some]
    intro w hw
    have hle := hu.lined.edge_mono hw
    rw [hedge] at hvalid hlo hle
    have hlies : (Span.empty paren.span.stop).Lies text lo w.edge :=
      ⟨hlo, Nat.le_refl _, hle, hvalid, hvalid⟩
    have hresult : Stands text row lo w.edge
        (TypeExpr.plain (.primitive "nil") (.empty paren.span.stop) paren.line) :=
      .type hlies (.behind hmem hkind)
        (.pair (.bare (Nat.le_refl _) rfl) (.none (Nat.le_refl _)))
    exact .of (.pair (hstands w hw) (.some hresult)) rfl

theorem keywordFunctionType (hκ : Inland κ) :
    Spans text row κ lo H (keywordFunctionType rules) (Stands text row lo) :=
  .advance hκ fun _ => .past (.eat _) fun _ =>
    .branch (.typeParams hr fun _ h => h.2.le) (.pure fun _ h => .nil h.2.le) fun _ =>
      .bind (.after (fun _ h => h.2.le) hr.basicType) fun _ =>
        .pure fun _ h => .of (.pair h.1.2 h.2) rfl

omit hr in
/-- A type of one word. -/
theorem typeWord {kind : Token → TypeKind} (hκ : Inland κ) (h : ∀ t, pieces (kind t) = []) :
    Spans text row κ lo H (do let t ← Grammar.advance; return kind t) (Stands text row lo) :=
  .advance hκ fun t => .pure fun _ hu => .bare hu.2.le (h t)

theorem simpleType (hκ : Inland κ) (kind : Token.Kind) :
    Spans text row κ lo H (simpleType rules kind) (Stands text row lo) := by
  unfold Grammar.simpleType
  split
  · exact .listType hr hκ
  iterate 2 · exact .typeWord hκ fun _ => rfl
  · exact .dictType hr hκ
  · exact .typeWord hκ fun _ => rfl
  · exact .functionType hr hκ
  · exact .keywordFunctionType hr hκ
  all_goals exact .typeWord hκ fun _ => rfl

omit hr in
/-- A suffix changes neither what a type is made of nor its line. -/
theorem typeSuffix {t : TypeExpr} (ht : ∀ u, H u → Spannable text row lo u.edge t) :
    Spans text row κ lo H (typeSuffix rules t) (Spannable text row lo) :=
  .past (.eat _) fun _ => .ite
    (fun _ => .past (.check _) fun _ => .ite
      (fun _ => .past (.errorTypes rules) fun _ =>
        .pure fun u h => ⟨(ht u h).inside, (ht u h).start⟩)
      fun _ => .pure fun u h => ⟨(ht u h).inside, (ht u h).start⟩)
    fun _ => .pure ht

omit hr in
/-- The only item of a list is read where the list is. -/
theorem commaList_single {α : Type} {first : Token} {close : Token.Kind} {p : Parse α}
    {C : Token → α → Prop}
    (hp : ∀ {first : Token} {G : State → Prop},
      Spans text row (· = first) lo G p fun _ => C first) :
    Spans text row (· = first) lo H (Grammar.commaList rules close p)
      fun _ r => ∀ x, r.1 = [x] → C first x := by
  let known (items : List α) : Prop := (∃ x, items = [x] ∧ C first x) ∨ 2 ≤ items.length
  have hmore : ∀ {items : List α} {x : α}, known items → known (x :: items) := by
    rintro items x (⟨y, rfl, -⟩ | hlong)
    · exact .inr (Nat.le_refl _)
    · exact .inr (Nat.le_succ_of_le hlong)
  refine .bind (Q := fun _ r => r.1 = [] ∨ known r.1) ?_ fun (items, comma) =>
    .pure fun _ h x hx => ?_
  · cases rules.bound with
    | zero => exact .past .spend fun _ => .pure fun _ _ => .inl rfl
    | succ n =>
      refine .bind (Q := fun _ q => q.1.1 = [] ∧ q.2 = false ∨ known q.1.1) ?_ fun (r, more) => ?_
      · refine .look (.checkAt _ _) fun _ => .look (.checkAt _ _) fun _ => .ite
          (fun _ => .pure fun _ _ => .inl ⟨rfl, rfl⟩) fun _ => .bind hp fun x =>
            .past (.eat _) fun _ => .pure fun _ h => .inr (.inl ⟨x, rfl, h.2⟩)
      · cases more with
        | false => exact .pure fun _ h => h.2.imp And.left id
        | true =>
          refine .weaken (.repeatUpTo (Q := fun _ r => known r.1)
            (fun _ h => h.2.resolve_left fun hstop => nomatch hstop.2) fun (items, comma) => ?_)
            fun _ => .inr
          exact .past (.check _) fun _ => .past .atEnd fun _ => .ite (fun _ => .pure fun _ h => h)
            fun _ => .bind (Q := fun _ _ => True)
              (.anywhere fun _ => hp.weaken fun _ _ => trivial) fun x =>
                .past (.eat _) fun _ => .pure fun _ h => hmore h.1
  · have hitems : items = [x] := by simpa using hx
    subst hitems
    rcases h.2 with hnil | ⟨y, hy, hC⟩ | hlong
    · cases hnil
    · cases hy
      exact hC
    · exact absurd hlong (by simp)

omit hr in
/-- A type in parentheses starts with one. -/
theorem kind_of_tupleType {t u : Token} (h : typeNode? t u = some .tupleType) :
    t.kind = .leftParen := by
  unfold typeNode? at h
  split at h <;> simp_all
  split at h <;> cases h

/-- Around a single type, parentheses are no tuple. -/
theorem tupleType {first : Token} (hkind : first.kind = .leftParen)
    (hfirst : ∀ u, H u → first.span.start = lo) :
    Spans text row (· = first) lo H (tupleType rules) (Spannable text row lo) := by
  have hinland : Inland (· = first) := .of_eq (by rw [hkind]; decide)
  have hmember : ∀ {second : Token} {start : Nat} {G : State → Prop},
      Spans text row (· = second) start G (rules.call .type)
        fun _ t => t.span.start = second.span.start :=
    hr.typeFrom.weaken fun _ h => h.1
  refine .startPos fun start line => .advanceTo hinland fun _ second => .bind
    (.and (.here (.commaList (fun _ h => h.2.1.le) hr.type)) (.commaList_single hmember))
    fun (members, comma) => .consume (by decide) fun _ => ?_
  split
  next inner =>
    refine .pure fun u h => ?_
    obtain ⟨⟨⟨⟨hH, hstart⟩, -, rfl, before, after, hrow⟩, hmembers, hsingle⟩, -⟩ := h
    have hinner : Stands text row start u.edge inner := hmembers.mem List.mem_cons_self
    have hspannable := Spannable.self hinner
    have hlies : inner.span.Lies text start u.edge := hinner.lies (p := .type inner) rfl
    refine ⟨(hspannable.inside.mono hlies.lower hlies.upper).mono hstart.le (Nat.le_refl _), ?_⟩
    rw [← hfirst u hH]
    have hline := hspannable.start
    rw [hsingle inner rfl] at hline
    exact .grouped hrow hkind hline
  next =>
    refine .past (.spanFrom _) fun _ => .pure fun u h => ?_
    obtain ⟨⟨⟨⟨hH, hstart⟩, -⟩, hmembers, -⟩, -⟩ := h
    have hmembers := hmembers.mono hstart.le (Nat.le_refl u.edge)
    exact .plain (hfirst u hH ▸ hstart.eq.2) (.of hmembers rfl)

theorem basicTypeFrom {first : Token} : Spans text row (· = first) lo H (basicTypeRule rules)
    fun e t => t.span.start = first.span.start ∧ Stands text row lo e t := by
  refine .startPos fun start line => .peekOf fun t => .look (.peekAt 1) fun second => ?_
  split
  · exact .fail
  next node hnode =>
    have hκ : Inland (· = t) := .of_eq fun heof => by
      rw [typeNode?_eof heof] at hnode
      cases hnode
    refine .bind (Q := Spannable text row start) (.inNode ?_) fun t =>
      .pieceWith (C := fun t => t.span.start = first.span.start) (fun _ h => h.1.1.2)
        (fun _ h => h.2.inside.le) fun _ h hlies =>
          ⟨h.1.1.2.eq.1.symm, .type hlies h.2.start h.2.inside⟩
    split
    · refine .bind (.tupleType hr (kind_of_tupleType hnode) fun u h => ?_)
        fun _ => .typeSuffix fun _ h => h.2
      rw [h.2]
      exact h.1.2.eq.1
    · exact .bind (.recordType hr hκ fun _ h => h.1.2.at) fun _ => .typeSuffix fun _ h => h.2
    · refine .bind (.simpleType hr hκ t.kind) fun kind => ?_
      simp only [pure_bind]
      exact .past (.spanFrom _) fun span => .typeSuffix fun _ h => .plain h.1.1.2.at h.2

theorem basicTypeRule : Spans text row κ lo H (basicTypeRule rules) (Stands text row lo) :=
  .anywhere fun _ => (basicTypeFrom hr).weaken fun _ h => h.2

theorem typeMembers {separator : Token.Kind} {first : TypeExpr}
    (hfirst : ∀ u, H u → Stands text row lo u.edge first) :
    Spans text row κ lo H (typeMembers rules separator first) (Stands text row lo) := by
  refine .bind (.repeatUpTo (Q := Stands text row lo)
    (fun u h => .cons (hfirst u h) (.nil (hfirst u h).le)) fun members => ?_)
    fun _ => .pure fun _ h => h.2.reverse
  exact .past (.eat _) fun _ => .ite
    (fun _ => .bind (.basicTypeRule hr) fun _ => .pure fun _ h => .cons h.2 h.1)
    fun _ => .pure fun _ h => h

/-- What stands around a type starts where the type does. -/
theorem typeWith {first : Token} (refinable : Bool) :
    Spans text row (· = first) lo H (typeWith rules refinable)
      fun e t => t.span.start = first.span.start ∧ Stands text row lo e t := by
  refine .look .checkpoint fun c => .startPos fun start line => .bind (.basicTypeFrom hr) fun t =>
    .past .peek fun _ => ?_
  have houter : ∀ {G : State → Prop} {κ : Token → Prop} {kind : TypeKind},
      (∀ u, G u → Start text row (· = first) lo start line) →
      (∀ u, G u → Stands text row start u.edge kind) →
      Spans text row κ start G (do return TypeExpr.plain kind (← Grammar.spanFrom start) line)
        fun e t => t.span.start = first.span.start ∧ Stands text row lo e t := fun hstart hkind =>
    .pieceWith (C := fun t => t.span.start = first.span.start) hstart (fun u h => (hkind u h).le)
      fun u h hlies => ⟨(hstart u h).eq.1.symm, .type hlies (.token (hstart u h).at)
        (.pair (hkind u h) (.none (hkind u h).le))⟩
  have hmembers : ∀ {separator : Token.Kind} {κ : Token → Prop}, Spans text row κ start
      (fun u => (H u ∧ Start text row (· = first) lo start line) ∧
        t.span.start = first.span.start ∧ Stands text row start u.edge t)
      (Grammar.typeMembers rules separator t) (Stands text row start) :=
    .typeMembers hr fun _ h => h.2.2
  split
  · exact .bind (.inNodeAt hmembers) fun _ => houter (fun _ h => h.1.1.2) fun _ h => .of h.2 rfl
  · exact .bind (.inNodeAt hmembers) fun _ => houter (fun _ h => h.1.1.2) fun _ h => .of h.2 rfl
  · refine .ite (fun _ => ?_) fun _ => .pure fun _ h =>
      ⟨h.2.1, h.2.2.mono h.1.2.le (Nat.le_refl _)⟩
    refine .bind (.inNodeAt (.past .advance fun _ => hr.expression)) fun condition => ?_
    refine .pieceWith (C := fun t : TypeExpr => t.span.start = first.span.start)
      (fun _ h => h.1.1.2) (fun _ h => h.2.le) fun u h hlies => ⟨h.1.1.2.eq.1.symm, ?_⟩
    obtain ⟨⟨⟨-, hstart⟩, hfirst, ht⟩, hcondition⟩ := h
    have hspannable := Spannable.self ht
    have hkind : Stands text row start u.edge (t.kind, t.refinement) :=
      ht.inner (p := .type t) rfl rfl
    rw [hfirst, hstart.eq.1] at hspannable
    exact .type hlies hspannable.start (.pair hkind.fst (.some hcondition))
  · exact .pure fun _ h => ⟨h.2.1, h.2.2.mono h.1.2.le (Nat.le_refl _)⟩

/-! ## Patterns -/

theorem listPattern (hκ : Inland κ) :
    Spans text row κ lo H (listPattern rules) (Stands text row lo) := by
  have hrest : ∀ {G : State → Prop} {κ : Token → Prop} {parts : ListPatternParts},
      (∀ u, G u → Stands text row lo u.edge parts) → Spans text row κ lo G
        (Pure.pure parts >>= fun parts => do return (parts, ← Grammar.eat .comma))
        fun e r => Stands text row lo e r.1 :=
    fun h => .bind (.pure h) fun _ => .past (.eat _) fun _ => .pure fun _ h => h.2
  refine .advance hκ fun _ => .bind (.repeatUpTo (Q := Stands text row lo)
    (fun _ h => .bare h.2.le rfl) fun parts => ?_) fun _ => .consume (by decide) fun _ =>
      .pure fun _ h => .of h.1.2 rfl
  refine .past (.check _) fun _ => .past .atEnd fun _ => .ite (fun _ => .pure fun _ h => h) fun _ =>
    .past (.eat _) fun _ => .ite
      (fun _ => .following (.consumeName _) fun _ => hrest fun _ h => .of h rfl)
      fun _ => .bind hr.pattern fun _ => hrest fun u h => ?_
  have helements : Stands text row lo u.edge parts.elements := h.1.of rfl
  exact .of (.append helements (.cons h.2 (.nil h.2.le))) rfl

omit hr in
theorem dictPattern (hκ : Inland κ) :
    Spans text row κ lo H (dictPattern rules) (Stands text row lo) := by
  have hrest : ∀ {G : State → Prop} {κ : Token → Prop} {parts' : DictPatternParts}
      (parts : DictPatternParts), (∀ u, G u → Stands text row lo u.edge parts') →
      Spans text row κ lo G
        (Pure.pure parts >>= fun parts => do return (parts, ← Grammar.eat .comma))
        fun e r => Stands text row lo e r.1 :=
    fun _ h => .bind (Q := Stands text row lo) (.pure fun u hu => (h u hu).of rfl) fun _ =>
      .past (.eat _) fun _ => .pure fun _ h => h.2
  refine .advance hκ fun _ => .bind (.repeatUpTo (Q := Stands text row lo)
    (fun _ h => .bare h.2.le rfl) fun parts => ?_) fun _ => .following (.consumeClose _ _) fun _ =>
      .pure fun _ h => .bare h.2.le rfl
  exact .past (.check _) fun _ => .past .atEnd fun _ => .ite (fun _ => .pure fun _ h => h) fun _ =>
    .past (.eat _) fun _ => .ite
      (fun _ => .past (.check _) fun _ => .ite
        (fun _ => .past .advance fun _ => hrest _ fun _ h => h) fun _ => hrest _ fun _ h => h)
      fun _ => .past Twin.fieldBinding.alike fun _ => hrest _ fun _ h => h

theorem tuplePattern (hκ : Inland κ) :
    Spans text row κ lo H (tuplePattern rules) (Stands text row lo) :=
  .advance hκ fun _ => .bind (.commaList (fun _ h => h.2.le) hr.pattern) fun (_, _) =>
    .consume (by decide) fun _ => .pure fun _ h => .of h.1.2 rfl

theorem patternOf (hκ : Inland κ) (node : Tree.Kind) (first : Token) :
    Spans text row κ lo H (patternOf rules node first) (Stands text row lo) := by
  unfold Grammar.patternOf
  split
  · exact .advance hκ fun _ => .following (.consumeName _) fun _ => .pure fun _ h => .bare h.2.le rfl
  · exact .advance hκ fun _ => .following (.consumeName _) fun _ => .pure fun _ h => .bare h.2.le rfl
  · exact .advance hκ fun _ => .past (.eat _) fun _ => .ite
      (fun _ => .past (.commaList rules _ (.consumeName _)) fun (_, _) => .consume (by decide) fun _ =>
        .pure fun _ h => .bare h.2.le rfl) fun _ => .pure fun _ h => .bare h.2.le rfl
  · exact .advance hκ fun _ => .pure fun _ h => .bare h.2.le rfl
  · exact .listPattern hr hκ
  · exact .dictPattern hκ
  · exact .tuplePattern hr hκ
  · exact .advance hκ fun _ => .past .advance fun _ => .following (.consumeName _) fun _ =>
      .consume (by decide) fun _ => .pure fun _ h => .bare h.2.le rfl
  · exact .advance hκ fun _ => .pure fun _ h => .bare h.2.le rfl
  · exact .advance hκ fun _ => .pure fun _ h => .bare h.2.le rfl

omit hr in
theorem patternFrom {κ' : Token → Prop} {lo' line : Nat} {kind : PatternKind}
    (hstart : ∀ u, H u → Start text row κ' lo' lo line)
    (h : ∀ u, H u → Stands text row lo u.edge kind) :
    Spans text row κ lo H (do return Pattern.mk kind (← Grammar.spanFrom lo) line)
      (Stands text row lo') :=
  .piece hstart (fun u hu => (h u hu).le) fun u hu hlies => .pattern hlies (hstart u hu).at (h u hu)

theorem patternRule : Spans text row κ lo H (patternRule rules) (Stands text row lo) := by
  refine .startPos fun start line => .peek fun first => .look (.peekAt 1) fun second => ?_
  split
  · exact .fail
  · exact .look .checkpoint fun c => .bind (.typeWith hr false) fun _ =>
      .past (.inNodeAt (e := id) c _ (.pure _)) fun _ =>
        .patternFrom (fun _ h => h.1.2) fun _ h => .of h.2.2 rfl
  next node _ hnode =>
    have hκ : Inland (· = first) := .of_eq fun heof => by
      rw [patternNode?_eof heof] at hnode
      cases hnode
    exact .bind (.inNode (.patternOf hr hκ _ _)) fun _ =>
      .patternFrom (fun _ h => h.1.2) fun _ h => h.2

/-! ## Bodies, parameters, arguments and variables -/

theorem nextDeclaration (hle : ∀ u, H u → lo ≤ u.edge) :
    Spans text row κ lo H (nextDeclaration rules) (Stands text row lo) :=
  .look .get fun _ => .bind (hr.recovered hle) fun _ => .following .get fun _ => .past (.check _) fun _ =>
    .guarded .advance (.pure fun _ h => h.2)

theorem declarations (hle : ∀ u, H u → lo ≤ u.edge) :
    Spans text row κ lo H (declarations rules) (Stands text row lo) := by
  refine .bind (.repeatUpTo (Q := Stands text row lo) (fun u h => .nil (hle u h)) fun stmts => ?_)
    fun _ => .pure fun _ h => h.2.reverse
  exact .past .bodyEnds fun _ => .ite (fun _ => .pure fun _ h => h) fun _ =>
    .bind (.nextDeclaration hr fun _ h => h.le) fun _ => .pure fun _ h => .append h.2.toList h.1

/-- A body starts with its brace. -/
theorem blockBody {brace : Token} (hbrace : ∀ u, H u → Took text row lo brace u) (kind : String) :
    Spans text row κ lo H (blockBody rules brace kind) (Stands text row lo) := by
  have hle : ∀ u, H u → brace.span.start ≤ u.edge := fun u h =>
    Nat.le_trans (hbrace u h).lies.order (hbrace u h).lies.upper
  exact .behind hle (.bind (.inBody (.deeper (.bind (.declarations hr hle) fun _ =>
    .following (.closeBlock _) fun _ => .pure fun _ h => h.2))) fun _ =>
      .piece (fun u h => (hbrace u h.1).start) (fun _ h => h.2.le)
        fun u h hlies => .block hlies (hbrace u h.1).start.at h.2)

theorem block {kind description : String} :
    Spans text row κ lo H (block rules kind description) (Stands text row lo) :=
  .inNode (.consume (by decide) fun _ => .blockBody hr (fun _ h => h.2) kind)

/-- A parameter is not empty, as its name is not. -/
theorem parameter : Spans text row κ lo H (parameter rules)
    fun e p => p.span.start < p.span.stop ∧ Stands text row lo e p := by
  refine .startPos fun start line => .bind
    (Q := fun e r => start < e ∧ Stands text row start e r.2) (.inNode ?_)
    fun (name, type, default?) => .pieceWith (C := fun p => p.span.start < p.span.stop)
      (fun _ h => h.1.2) (fun _ h => h.2.2.le) fun _ h hlies => ⟨h.2.1, .param hlies h.2.2⟩
  exact .bind .consumeName fun _ => .bind (.after (fun _ h => h.2.le) hr.type) fun _ =>
    .bind (.after (fun _ h => h.2.le) hr.expression) fun _ =>
      .pure fun _ h => ⟨h.1.1.2, .pair h.1.2 h.2⟩

end Spans

/-- Parameters as they were read, the last one first. -/
structure Listed (text : String) (row : List Token) (lo hi : Nat) (params : List Param) : Prop where
  rising : Rising params.reverse
  filled : ∀ p ∈ params, p.span.start < p.span.stop
  stands : Stands text row lo hi params

namespace Listed

variable {text : String} {row : List Token} {lo hi e : Nat} {params : List Param} {p : Param}

theorem single (hfilled : p.span.start < p.span.stop) (hp : Stands text row lo hi p) :
    Listed text row lo hi [p] :=
  ⟨List.pairwise_singleton .., List.forall_mem_singleton.2 hfilled, .cons hp (.nil hp.le)⟩

theorem stop_le (h : Listed text row lo hi params) : ∀ q ∈ params, q.span.stop ≤ hi :=
  fun q hq => ((h.stands.mem hq).lies (p := .param q) rfl).upper

/-- One more parameter, which is read behind the others. -/
theorem cons (h : Listed text row lo hi params) (hlo : lo ≤ e) (he : ∀ q ∈ params, q.span.stop ≤ e)
    (hfilled : p.span.start < p.span.stop) (hp : Stands text row e hi p) :
    Listed text row lo hi (p :: params) where
  rising := by
    rw [List.reverse_cons]
    refine List.pairwise_append.2 ⟨h.rising, List.pairwise_singleton .., fun q hq r hr => ?_⟩
    obtain rfl := List.mem_singleton.1 hr
    have hq := List.mem_reverse.1 hq
    exact ⟨h.filled q hq, Nat.le_trans (he q hq) (hp.lies (p := .param r) rfl).lower⟩
  filled := List.forall_mem_cons.2 ⟨hfilled, h.filled⟩
  stands := .cons (hp.mono hlo (Nat.le_refl _)) h.stands

end Listed

/-- The parameters of a list, of which those that may be left out stand apart. -/
abbrev StandsParams (text : String) (row : List Token) (lo hi : Nat)
    (params : List Param × List Param) : Prop :=
  Arranged (fun params : List Param × List Param => Sorted (params.1 ++ params.2)) text row lo hi
    params

namespace Spans

variable {rules : Rules} {text : String} {row : List Token} {κ : Token → Prop} {lo : Nat}
  {H : State → Prop} (hr : rules.Spans text row)
include hr

/-- Parameters with commas between them are read from left to right. -/
theorem writtenParameters :
    Spans text row κ lo H (Grammar.commaSeparated rules (Grammar.parameter rules))
      fun e written => Rising written ∧ Stands text row lo e written := by
  refine .bind (.parameter hr) fun first => .bind (.repeatUpTo (Q := Listed text row lo)
    (fun _ h => .single h.2.1 h.2.2) fun params => ?_)
    fun _ => .pure fun _ h => ⟨h.2.rising, h.2.stands.reverse⟩
  refine .past (.eat _) fun _ => .ite (fun _ => ?_) fun _ => .pure fun _ h => h
  exact .behindEdge (K := fun e => lo ≤ e ∧ ∀ q ∈ params, q.span.stop ≤ e)
    (fun _ h => ⟨h.stands.le, h.stop_le⟩) fun e => .bind (.parameter hr) fun p =>
      .pure fun _ h => h.1.1.cons h.1.2.1.1 h.1.2.1.2 h.2.1 h.2.2

/-- The parameters of a list are yielded in two groups. -/
theorem parameters : Spans text row κ lo H (parameters rules) (StandsParams text row lo) := by
  refine .inNode (.consume (by decide) fun _ => .past (.check _) fun _ =>
    .branch (.pure fun _ h => ⟨.nil, .nil h.2.le⟩) (.writtenParameters hr) fun written =>
      .consume (by decide) fun _ => .pure fun _ h => ?_)
  obtain ⟨⟨-, hrising, hstands⟩, -⟩ := h
  exact ⟨.pair (hstands.filter _) (hstands.filter _), written, hrising, rfl⟩

theorem arguments (hκ : Inland κ) :
    Spans text row κ lo H (arguments rules) (Stands text row lo) :=
  .inNode (.advance hκ fun _ => .past (.check _) fun _ =>
    .branch (.pure fun _ h => .nil h.2.le) (.commaSeparated hr.expression) fun _ =>
      .consume (by decide) fun _ => .pure fun _ h => h.1.2)

theorem varDeclaration (mods : Modifiers) :
    Spans text row κ lo H (varDeclaration rules mods) (Stands text row lo) :=
  .past (.eat _) fun _ => .bind .consumeName fun _ => .past (.describe _) fun _ =>
    .bind (.after (fun _ h => h.2.le) hr.type) fun _ =>
      .bind (.after (fun _ h => h.2.le) hr.expression) fun _ => .past (.eat _) fun _ =>
        .pure fun _ h => .of (.pair h.1.2 h.2) rfl

end Spans

end LimitSyntax.Grammar
