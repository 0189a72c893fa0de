import LimitSyntax.Proofs.ExprRules

/-!
# Lawful rules: declarations, recovery and programs

The rules for declarations are lawful, and so is, by induction on how deep rules call each other,
every rule of the grammar. The names of an import filter go on over a comma (`Twin.filterNames`). The
reading of a whole program is its own twin.
-/

namespace LimitSyntax.Grammar

open Ast

/-! ## Rows of names -/

/-- A name that is read was the next token. -/
theorem exec_consumeName_eq_ok {i : Input} {s u : State} {description name : String}
    (heof : i.eof.kind = .eof) (hexec : exec (consumeName description) i s = (.ok name, u)) :
    ∃ t rest, s.rest = t :: rest ∧ t.kind = .identifier ∧ u.rest = rest := by
  obtain ⟨t, v, hconsume, hpure⟩ := exec_bind_eq_ok hexec
  cases hpure
  obtain ⟨hkind, hadvance⟩ := exec_consume_eq_ok hconsume
  cases hrest : s.rest with
  | nil =>
    rw [hrest, show (([] : List Token)[0]?.getD i.eof) = i.eof from rfl, heof] at hkind
    cases hkind
  | cons x rest =>
    have hx : x.kind = .identifier := by rwa [hrest] at hkind
    rw [exec_advance, hrest] at hadvance
    simp only [hx, reduceCtorEq, if_false] at hadvance
    cases hadvance
    exact ⟨_, rest, rfl, hx, rfl⟩

/-- What a loop over the names behind commas has read goes on with the row. -/
theorem NameRow.of_loop {i : Input} (heof : i.eof.kind = .eof) {description : String} {bound : Nat}
    {items names : List String} {s t : State} {row : List Token} (hrow : NameRow row)
    (hexec : exec (repeatUpTo (fun items => do
      if ← eat .comma then return ((← consumeName description) :: items, true)
      else return (items, false)) bound items) i s = (.ok names, t)) :
    ∃ row', NameRow row' ∧ row' ++ t.rest = row ++ s.rest := by
  induction bound generalizing items s row with
  | zero =>
    cases hexec
    exact ⟨row, hrow, rfl⟩
  | succ bound ih =>
    rw [repeatUpTo, bind_assoc] at hexec
    obtain ⟨b, u, heat, hturn⟩ := exec_bind_eq_ok hexec
    cases b with
    | false =>
      obtain ⟨rfl, -⟩ := exec_eat_eq_false (by decide) heof heat
      cases hturn
      exact ⟨row, hrow, rfl⟩
    | true =>
      obtain ⟨comma, rest, hrest, hcomma, rfl⟩ := exec_eat_eq_true (by decide) heof heat
      simp only [if_true, bind_assoc, pure_bind] at hturn
      obtain ⟨name, v, hname, hloop⟩ := exec_bind_eq_ok hturn
      obtain ⟨x, rest', hrest', hx, hv⟩ := exec_consumeName_eq_ok heof hname
      obtain ⟨row', hrow', heq⟩ := ih (hrow.concat hcomma hx) hloop
      refine ⟨row', hrow', heq.trans ?_⟩
      have hrest'' : rest = x :: rest' := hrest'
      rw [hv, hrest, hrest'']
      simp

/-- What is read as names with commas between them is a row of names. -/
theorem NameRow.of_reads {rules : Rules} {description : String} {ts stop : List Token}
    (h : ReadsUpTo (commaSeparated rules (consumeName description)) ts stop) : NameRow ts := by
  obtain ⟨i, s, names, t, heof, hs, hexec, ht, -⟩ := h
  obtain ⟨first, u, hfirst, hrest⟩ := exec_bind_eq_ok hexec
  obtain ⟨items, v, hloop, hpure⟩ := exec_bind_eq_ok hrest
  cases hpure
  obtain ⟨x, rest, hx, hname, hu⟩ := exec_consumeName_eq_ok heof hfirst
  obtain ⟨row, hrow, heq⟩ := NameRow.of_loop heof (.one hname) hloop
  rw [ht, hu, List.singleton_append, ← hx, hs] at heq
  rwa [List.append_cancel_right heq] at hrow

/-! ## Fields -/

/-- Whether a field starts with two tokens. -/
abbrev opensField (mods : Modifiers) (t u : Token.Kind) : Bool :=
  t == .kwVar || (t == .identifier && (u == .colon || (mods.isConst && u == .equal)))

theorem exec_startsField (mods : Modifiers) (i : Input) (s : State) :
    exec (startsField mods) i s = (.ok (opensField mods (s.rest[0]?.getD i.eof).kind
      (s.rest[1]?.getD i.eof).kind), s) := rfl

theorem Alike.startsField (mods : Modifiers) : Regular (startsField mods) :=
  .bind (.check _) fun _ => .bind (.check _) fun _ => .bind (.checkAt ..) fun _ =>
    .bind (.checkAt ..) fun _ => .pure _

/-- Behind the body of an enumeration whose brace is missing stands the end, or nothing is read. -/
abbrev enumEnd (variants : List EnumVariant) (closed : Bool) : Parse (List EnumVariant) := do
  if !closed && !(← atEnd) then giveUp
  return variants

namespace Twin

section
variable {rules : Rules} (hr : rules.Lawful)

/-! ## Variables and functions -/

theorem modifiers (rules : Rules) : Lawful .value (modifiers rules) := by
  refine .repeatUpTo (fun mods => .peekSame (fun t => ?_) fun g hadmits => ?_) ..
  · rw [show t.bare.kind = t.kind from rfl]
    dsimp only
    split
    · exact .pure _
    · exact .ite (.bind (.inNode _ .advance) fun _ => .pure _) (.word _)
  · rw [g.close_kind]
    rcases hadmits.value with hnext | hnext <;> rw [hnext]
    rfl

theorem genericNames (rules : Rules) : Lawful .value (genericNames rules) :=
  .bind (.eat _) fun _ => .ite
    (.shut <| .bind (.commaSeparated rules (.consumeName _)) fun _ => .consume fun _ => .pure _)
    (.pure _)

include hr

theorem destructuring : Lawful .value (destructuring rules) :=
  .bind .advance fun _ => .bind .advance fun _ => .shut <|
    .bind (.commaSeparated rules (.consumeName _)) fun _ => .consume fun _ =>
      .bind (.consume ..) fun _ => .bind (hr.rule .expression) fun _ => .bind (.eat _) fun _ =>
        .pure _

theorem functionDeclaration (mods : Modifiers) : Lawful .value (functionDeclaration rules mods) := by
  refine .bind .startPos fun ⟨start, line⟩ => .bind .advance fun _ => .named _ fun _ =>
    .bind (.genericNames rules) fun _ => .bind (.check _) fun _ =>
      .guarded (d := id) (.fail _) ?_
  exact .bind (.parameters hr) fun ⟨_, _⟩ => .bind (.after _ (hr.rule .type)) fun _ =>
    .bind (.eat _) fun _ => .branch (.pure _) (.map (.block hr ..)) fun _ =>
      .bind (.spanFrom _) fun _ => .pure _

/-! ## Classes -/

theorem constructorParts : Lawful .value (constructorParts rules) :=
  .bind .advance fun _ => .bind (.parameters hr) fun _ => .bind (.block hr ..) fun _ => .pure _

theorem classMember (c : ClassDecl) : Lawful .within (classMember rules c) := by
  refine .bind .checkpoint fun mark => .bind (.inner (.modifiers rules)) fun mods =>
    .test (Alike.startsField mods) (exec_startsField mods) (fun _ _ _ => rfl) (fun _ => .ite ?_ <|
      .bind (.check _) fun _ => .ite ?_ <| .bind (.check _) fun _ => .peekInside fun t =>
        .bind (.checkNext _) fun _ => .ite ?_ (.fail _)) fun {g ts i s} _ hs hadmits => ?_
  · exact .bind (.inNodeAt mark _ (.inner (.varDeclaration hr mods))) fun _ => .pure _
  · exact .bind (.inNodeAt mark _ (.inner (.functionDeclaration hr mods))) fun _ => .pure _
  · exact .bind .startPos fun ⟨_, _⟩ => .bind (.inNodeAt mark _ (.inner (.constructorParts hr)))
      fun ⟨_, _⟩ => .bind (.spanFrom _) fun _ => .pure _
  · rw [hs.rest]
    match ts, hadmits with
    | [], hadmits => exact nomatch (hadmits rfl).1
    | x :: y :: ts, _ => exact .inr rfl
    | [x], _ =>
      by_cases hx : x.kind = .identifier
      · left
        have hfield : opensField mods x.kind g.close.kind = false := by
          rw [hx, g.close_kind, opensField]
          cases mods.isConst <;> rfl
        show Stuck g .within [x] (if opensField mods x.kind g.close.kind = true then _ else _)
        rw [hfield]
        -- Neither a function nor a constructor starts with a name alone.
        refine .past fun {i s} _ hs => ⟨_, s, _, exec_check i s _, hs, ?_⟩
        rw [hs.next_cons, hx]
        refine .look (fun i s => exec_check i s _) fun _ => .look (fun i s => exec_peekAt i s 0)
          fun _ => .past fun {i s} _ hs => ⟨false, s, _, ?_, hs, ?_⟩
        · rw [hs.exec_checkNext, g.close_kind]
          rfl
        · simp only [Bool.and_false]
          exact .fail _
      · right
        show opensField mods x.kind _ = opensField mods x.kind _
        simp only [opensField, beq_false_of_ne hx, Bool.false_and]

theorem superclass : Lawful .value (superclass rules) :=
  .bind (.eat _) fun _ => .ite
    (.bind (.consumeName _) fun _ => .bind (.check _) fun _ => .ite
      (.bind (.arguments hr) fun _ => .pure _) (.pure _))
    (.pure _)

theorem classDeclaration (mods : Modifiers) : Lawful .value (classDeclaration rules mods) := by
  obtain ⟨n, rfl⟩ := hr.tied
  refine .bind .startPos fun ⟨start, line⟩ => .bind .advance fun _ => .named _ fun _ =>
    .bind (.check _) fun _ => .branch (.parameters hr) (.pure _) fun ⟨_, _⟩ =>
      .bind (.superclass hr) fun ⟨_, _⟩ => .behindBrace _ fun _ => .bind (.body (.classBody _) ?_
        fun _ _ => .pure _) fun _ => .ite (.bind (.spanFrom _) fun _ => .pure _) (.pure _)
  exact Shuts.toTwin (.bodyLoop (fun c => .bind (.classMember hr c) fun _ => .pure _)
    (fun _ => .bind fun _ => .pure rfl) ..)

/-! ## Enumerations, aliases, traits and modules -/

theorem enumVariant : Lawful .within (enumVariant rules) :=
  .inNode _ (.bind (.consumeName _) fun _ =>
    .bind (.after _ (.bind (hr.rule .type) fun _ => .bind (.consume ..) fun _ => .pure _)) fun _ =>
      .pure _)

omit hr in
/-- What was noted when the brace of an enumeration was missing stays wrong in front of a token. -/
theorem enumEnd (variants : List EnumVariant) (closed : Bool) :
    Twin none (fun i s => closed = false → Noted i s) .value id (enumEnd variants closed)
      (enumEnd variants closed) := by
  cases closed with
  | true => exact .bind (.atEnd rfl) fun _ => .pure _
  | false =>
    refine .bindTo (d := id) (fun _ => Noted) (.atEnd rfl) (fun _ hnoted hexec => ?_) fun _ =>
      .guarded (d := id) .giveUp (.pure _)
    cases hexec
    exact hnoted rfl

omit hr in
/-- Unless its brace is there, the body of an enumeration does not end in front of a token. -/
theorem stuck_enumEnd (g : Seam) (variants : List EnumVariant) : Stuck g .value [] (do
    Grammar.enumEnd variants (← Grammar.closeBlock "Expected '\x7d' after enum body.")) := by
  refine .closeBlock _ (fun closed => (enumEnd variants closed).stepwise)
    (.of_error (fun {i s} _ hs => ⟨(), s, ?_⟩) (enumEnd variants false).stepwise)
  have hnext : exec Grammar.atEnd i s = (.ok false, s) := by
    rw [Grammar.atEnd, exec_check, hs.next_nil, g.close_kind]
    rfl
  rw [Grammar.enumEnd, exec_bind_ok i hnext]
  rfl

theorem enumDeclaration : Lawful .value (enumDeclaration rules) := by
  obtain ⟨n, rfl⟩ := hr.tied
  have variants : Lawful .within (Grammar.commaList (.upTo n) .rightBrace
      (Grammar.enumVariant (.upTo n))) := .commaList _ _ (.enumVariant hr)
  refine .bind .advance fun _ => .named _ fun _ => .behindBrace _ fun _ => .bind
    (.bodyOf .enumBody variants (fun ⟨variants, _⟩ closed => enumEnd variants closed)
      fun g ts => ?_) fun _ => .pure _
  have hend (a : List EnumVariant × Bool) (closed : Bool) := (enumEnd a.1 closed).stepwise
  exact .closing (Q := fun _ => True) (fun _ _ _ _ _ => trivial) (variants.settles g ts)
    (fun a us _ => .bind (.closeBlock _) (fun closed us => (enumEnd a.1 closed).settles g us)
      (.closeBlock _) (hend a))
    (fun a _ => stuck_enumEnd g a.1) variants.stepwise fun a => .bind (.closeBlock _) (hend a)

theorem typeDeclaration : Lawful .value (typeDeclaration rules) :=
  .bind .advance fun _ => .bind (.consumeName _) fun _ => .bind (.consume ..) fun _ =>
    .bind (hr.rule .type) fun _ => .bind (.eat _) fun _ => .pure _

theorem traitDeclaration (mods : Modifiers) {keyword : String}
    (hkeyword : keyword = "trait" ∨ keyword = "interface") :
    Lawful .value (traitDeclaration rules mods keyword) := by
  obtain ⟨n, rfl⟩ := hr.tied
  have hline : Text.OneLine keyword := by rcases hkeyword with rfl | rfl <;> decide
  have hname : Remark ("Expected " ++ keyword ++ " name.") :=
    ⟨append_append_ne_tooManyErrors, by rcases hkeyword with rfl | rfl <;> decide,
      oneLine_around (by decide) hline⟩
  have hbrace : Remark ("Expected '\x7b' before " ++ keyword ++ " body.") :=
    ⟨append_append_ne_tooManyErrors, append_append_not_mem_unclosedBodies,
      oneLine_around (by decide) hline⟩
  have hmethod : Remark ("Expected method declaration in " ++ keyword ++ ".") :=
    ⟨append_append_ne_tooManyErrors, append_append_not_mem_unclosedBodies,
      oneLine_around (by decide) hline⟩
  refine .bind .advance fun _ => .bind (.check _) fun _ => .guarded (.inNode _ .advance) <|
    .namedOf hname fun _ => .behindBraceOf hbrace fun _ => .bind
      (.body (.traitBody keyword hkeyword)
        (Shuts.toTwin (.bodyLoop (fun methods => ?_) (fun methods => ?_) ..)) fun _ _ => .pure _)
      fun _ => .pure _
  · exact .bind (.check _) fun _ => .guarded (d := id) (.failOf hmethod)
      (.bind (.inNode _ (.inner (.functionDeclaration hr {}))) fun _ => .pure _)
  · exact .bind fun _ => .ite (.bind fun _ => .bind fun _ => .pure rfl) (.bind fun _ => .pure rfl)

theorem moduleDeclaration : Lawful .value (moduleDeclaration rules) := by
  obtain ⟨n, rfl⟩ := hr.tied
  refine .bind .advance fun _ => .named _ fun _ => .behindBrace _ fun _ => .bind (.body .moduleBody
    (.deeper (Shuts.toTwin (.bodyLoop (fun parts => ?_) (fun parts => ?_) ..))) fun _ _ => .pure _)
    fun _ => .pure _
  · exact .peekInside fun _ => .bind (.nextDeclaration hr) fun _ => .pure _
  · exact .bind fun _ => .bind fun _ => .pure rfl

omit hr

/-! ## Imports -/

theorem importPath (rules : Rules) : Lawful .value (importPath rules) := by
  refine .bind (.eat _) fun _ => .ite ?_ <| .bind (.check _) fun _ => .ite ?_ <|
    .bind (.check _) fun _ => .ite ?_ (.fail _)
  · exact .bind (.consume ..) fun _ => .bind (.consume ..) fun _ => .pure _
  · exact .bind .advance fun _ => .pure _
  · refine .bind .advance fun _ => .bind (.repeatUpTo (fun parts => ?_) ..) fun _ => .pure _
    exact .bind (.eat _) fun _ => .ite (.bind (.consumeName _) fun _ => .pure _) (.pure _)

/-- The names that are taken or left out do not go on in front of a comma. The keyword is quoted
wherever one is missing. -/
theorem filterNames (rules : Rules) {keyword : Token}
    (hkeyword : keyword.kind = .kwShow ∨ keyword.kind = .kwHide) (kind : FilterKind) :
    TwinAt (Facing keyword) .value keyword id (do
      let keyword := (← Grammar.advance).lexeme
      let names ← Grammar.commaSeparated rules
        (Grammar.consumeName ("Expected identifier after '" ++ keyword ++ "'."))
      return some (⟨kind, names⟩ : ImportFilter)) (do
      let keyword := (← Grammar.advance).lexeme
      let names ← Grammar.commaSeparated rules
        (Grammar.consumeName ("Expected identifier after '" ++ keyword ++ "'."))
      return some (⟨kind, names⟩ : ImportFilter)) := by
  have names (t : Token) : Twin none (Written t) .row id
      (Grammar.commaSeparated rules
        (Grammar.consumeName ("Expected identifier after '" ++ t.lexeme ++ "'.")))
      (Grammar.commaSeparated rules
        (Grammar.consumeName ("Expected identifier after '" ++ t.lexeme ++ "'."))) :=
    .commaSeparatedAt (lasting_written t) rules (.consumeNameQuoting append_append_ne_tooManyErrors
      append_append_not_mem_unclosedBodies fun hwritten htidy =>
        oneLine_around (by decide) (hwritten.oneLine htidy))
  refine ⟨.bind .advance fun t => .bind (names t).alike fun _ => .pure _, fun g ts => ?_,
    .bindTo Written (.quiet .advance) (fun {i s _ _} heof hfirst hexec => ?_) fun t =>
      .bind (names t).reports fun _ => .quiet (.pure _)⟩
  · refine .bindAt .advance (fun _ hs hexec hu => ?_) .advance fun t =>
      .bind (names t).stepwise fun _ => .pure _
    obtain rfl := hs.eq_of_advance (by rcases hkeyword with h | h <;> rw [h] <;> decide) hexec hu
    refine .bind (.widen ((names _).settles g ts) fun hadmits hreads => ?_) (fun _ _ => .pure _)
      (names _).stepwise fun _ => .pure _
    refine hadmits.row fun hcomma => g.apart ?_
    rw [← hs.tokens]
    exact .importFilter hkeyword (.of_reads hreads) hcomma
  · have hnext : i.next s = keyword := hfirst
    refine written_of_advance heof ?_ hexec
    rw [hnext]
    rcases hkeyword with h | h <;> rw [h] <;> rfl

theorem importFilter (rules : Rules) : Lawful .value (importFilter rules) := by
  refine .peek (fun t => ?_) fun g hstep => .peek_nil (fun hadmits => ?_) ?_ hstep
  · rw [show t.bare.kind = t.kind from rfl]
    dsimp only
    split
    · exact .of (.pure none)
    · next kind hkind =>
      refine filterNames rules ?_ kind
      split at hkind
      · next ht => exact .inl ht
      · next ht => exact .inr ht
      · cases hkind
  · rw [g.close_kind]
    rcases hadmits.value with hnext | hnext <;> rw [hnext]
  · rw [g.close_kind]
    exact .pure none

theorem importDeclaration (rules : Rules) : Lawful .value (importDeclaration rules) :=
  .bind .advance fun _ => .bind (.importPath rules) fun _ =>
    .bind (.after _ (.consumeName _)) fun _ => .bind (.importFilter rules) fun _ =>
      .bind (.eat _) fun _ => .pure _

/-! ## Declarations -/

include hr

theorem declarationOf (mods : Modifiers) (node : Tree.Kind) :
    Lawful .value (declarationOf rules mods node) := by
  unfold Grammar.declarationOf
  split
  · exact .bind (.classDeclaration hr mods) fun _ => .pure _
  · exact .bind (.functionDeclaration hr mods) fun _ => .pure _
  · exact .destructuring hr
  · exact .bind (.varDeclaration hr mods) fun _ => .pure _
  · exact .enumDeclaration hr
  · exact .bind (.importDeclaration rules) fun _ => .pure _
  · exact .typeDeclaration hr
  · exact .bind (.traitDeclaration hr mods (.inl rfl)) fun ⟨_, _, _⟩ => .pure _
  · exact .bind (.traitDeclaration hr mods (.inr rfl)) fun ⟨_, _, _⟩ => .pure _
  · exact .moduleDeclaration hr

theorem declarationRule : Lawful .value (declarationRule rules) := by
  refine .bind .startPos fun ⟨start, line⟩ => .bind .checkpoint fun c =>
    .bind (.modifiers rules) fun mods => .peek (fun first => .second (fun second => .of ?_) fun g =>
      .inr ?_) fun g hstep => ?_
  · have hnode : declarationNode? mods first.bare second.bare = declarationNode? mods first second :=
      rfl
    simp only [id, hnode]
    split
    · exact .statementRule hr
    · next node _ =>
      exact .bind (.inNodeAt c _ (.declarationOf hr mods node)) fun _ => .bind (.spanFrom _) fun _ =>
        .pure _
  · have hnode : declarationNode? mods first g.next = declarationNode? mods first g.close := by
      unfold declarationNode?
      rw [beq_false_of_ne (Outlook.ne_of_sees g.sees_next rfl),
        beq_false_of_ne (Outlook.ne_of_sees g.sees_close rfl)]
    simp only [hnode]
  · have hnode {t : Token} (ht : t.kind = .rightParen ∨ t.kind = .comma) (second : Token) :
        declarationNode? mods t second = none := by
      unfold declarationNode?
      rcases ht with ht | ht <;> rw [ht]
    refine .peek_nil (fun hadmits => ?_) (.ignored (fun _ _ => ⟨_, rfl⟩) (fun second => ?_)
      ((Twin.statementRule hr).settles g [])) hstep
    · simp only [hnode hadmits.value, hnode (.inl g.close_kind)]
    · rw [hnode (.inl g.close_kind)]

omit hr

/-! ## Recovery -/

theorem synchronized : Lawful .within synchronized := by
  refine .get (fun _ _ => rfl) (fun _ _ => rfl) fun s => .peekInside fun _ =>
    .bind .previous fun _ => ?_
  rw [State.position_bare]
  exact .pure _

theorem synchronize (rules : Rules) (progress : Bool) :
    Lawful .within (synchronize rules progress) := by
  refine .get (fun _ _ => rfl) (fun _ _ => rfl) fun _ => .bind (.check _ rfl) fun _ =>
    .guarded .advance <| .repeatUpTo (fun _ => ?_) ..
  exact .bind (.atEnd rfl) fun _ => .bind .synchronized fun _ => .ite (.pure _) (.word _)

include hr

theorem recoveredRule : Lawful .within (recoveredRule rules) :=
  .recovering (.synchronize rules) (.inner (.declarationRule hr))

/-- A rule that calls lawful rules is lawful where it is called. -/
theorem rule {α : Type} (r : Rule α) :
    Twin none r.place r.outlook id (r.parse rules) (r.parse rules) := by
  cases r with
  | expression => exact .exprRule hr
  | power => exact .powerRule hr
  | unary => exact .unaryRule hr
  | type => exact .typeWith hr true
  | basicType => exact .basicTypeRule hr
  | pattern => exact .patternRule hr
  | ifStatement => exact .ifRule hr
  | statement => exact .statementRule hr
  | declaration => exact .declarationRule hr
  | recovered => exact .recoveredRule hr

omit hr

/-! ## Programs -/

theorem strayBrace : Lawful .within strayBrace :=
  .inNode _ (.bind (.reportHere _) fun _ => .bind (.markError _) fun _ => .word _)

include hr

theorem topDeclaration : Lawful .within (topDeclaration rules) := by
  have rest (before : Nat) (stmt : Option Stmt) : Lawful .within (do
      if (← MonadState.get).position = before && !(← Grammar.atEnd) then
        let _ ← Grammar.advance
      return stmt) := by
    refine .get (fun _ _ => rfl) (fun _ _ => rfl) fun s => ?_
    rw [State.position_bare]
    exact .bind (.atEnd rfl) fun _ => .guarded .advance (.pure _)
  refine .get (fun _ _ => rfl) (fun _ _ => rfl) fun s => .bind (.check _ rfl) fun _ => ?_
  rw [State.position_bare]
  exact .ite (.bind .strayBrace fun _ => .bind (.pure _) fun _ => rest s.position _)
    (.bind (.recoveredRule hr) fun _ => rest s.position _)

end

end Twin

/-- All rules are lawful, however deep they may call each other. -/
theorem Rules.lawful_upTo (n : Nat) : (Rules.upTo n).Lawful := by
  induction n with
  | zero =>
    refine ⟨fun _ =>
        .bindTo (d := id) (fun _ => Noted) .spend (fun _ _ hexec => ?_) fun _ => .giveUp,
      fun g x _ => ⟨fun _ _ hexec ht => ?_⟩, ⟨0, rfl⟩⟩
    · cases hexec
      exact .inr rfl
    · cases hexec
      exact nomatch ht.sober.unspent
  | succ n hr => exact ⟨fun r => .rule hr r, fun g _ hx => .exprRule hr g hx, ⟨n + 1, rfl⟩⟩

theorem Twin.topTurn (n : Nat) (stmts : List Stmt) : Lawful .within (topTurn (.upTo n) stmts) :=
  .bind (.atEnd rfl) fun _ => .get (fun _ _ => rfl) (fun _ _ => rfl) fun _ => .ite (.pure _)
    (.bind (.topDeclaration (Rules.lawful_upTo n)) fun _ => .pure _)

theorem Twin.topTurns (n bound : Nat) (stmts : List Stmt) :
    Lawful .within (Grammar.repeatUpTo (Grammar.topTurn (.upTo n)) bound stmts) :=
  .repeatUpTo (Twin.topTurn n) bound stmts

/-- The reading of a program is its own twin, and it reports as a rule should. -/
theorem Twin.topDeclarations (n : Nat) : Lawful .within (topDeclarations (.upTo n)) :=
  .bind (.topTurns n ..) fun _ => .pure _

/-- The declaration of a trait is made of the operations, whatever its keyword. -/
theorem Alike.traitDeclaration {rules : Rules} (hr : rules.Lawful) (mods : Modifiers)
    (keyword : String) : Regular (traitDeclaration rules mods keyword) := by
  refine .bind .advance fun _ => .bind (.check _) fun _ => .guarded (.inNode _ .advance) <|
    .bind (.consumeName _ append_append_ne_tooManyErrors) fun _ => .bind (.describe _) fun _ =>
      .bind (.consume _ append_append_ne_tooManyErrors _) fun brace => .bind (.inBody (e := id) _
        brace (.bind (.repeatUpTo (fun methods => ?_) ..) fun _ =>
          .bind (.closeBlock _ append_append_ne_tooManyErrors) fun _ => .pure _)) fun _ => .pure _
  exact .bind .bodyEnds fun _ => .ite (.pure _) <| .bind (.check _) fun _ =>
    .guarded (d := id) (.fail _ append_append_ne_tooManyErrors)
      (.bind (.inNode _ (Twin.functionDeclaration hr {}).alike) fun _ => .pure _)

end LimitSyntax.Grammar
