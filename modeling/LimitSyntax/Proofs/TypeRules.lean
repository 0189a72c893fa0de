import LimitSyntax.Proofs.Twins

/-!
# Lawful rules: types, patterns and bodies

The rules for types and patterns, and the parts that expressions, statements and declarations share,
are lawful. Two of them ask what stands behind a type. Its error types go on over a comma with a name
that no colon follows (`Seam.BehindErrors`), and its condition over an equals sign
(`Twin.refinement`). Of a parameter with a reserved name it is said so behind its colon, where
nothing was reported since the name was read (`Twin.typeParam`).
-/

namespace LimitSyntax.Grammar

open Ast

/-- A token that is read was of the kind, and the two behind it meet the condition. -/
theorem exec_eatBefore_eq_true {i : Input} {s u : State} {kind : Token.Kind}
    {ahead : Token → Token → Bool} (hkind : kind ≠ .eof) (heof : i.eof.kind = .eof)
    (hexec : exec (eatBefore kind ahead) i s = (.ok true, u)) :
    ∃ t rest, s.rest = t :: rest ∧ t.kind = kind ∧
      ahead (rest[0]?.getD i.eof) (rest[1]?.getD i.eof) = true ∧ u = s.take t rest := by
  rw [exec_eatBefore i s hkind heof] at hexec
  split at hexec
  next t rest hrest =>
    split at hexec
    next ht =>
      split at hexec
      next hahead =>
        cases hexec
        exact ⟨t, rest, hrest, ht, hahead, rfl⟩
      next => cases hexec
    next => cases hexec
  next => cases hexec

/-! ## Error types -/

section
variable {g : Seam} {ts : List Token}

/-- Whether an error type is next that is not the name of a parameter. -/
abbrev opensErrorType (t u : Token) : Bool := t.kind == .identifier && u.kind != .colon

/-- The tokens `ts` of the part stand behind a question mark and names. -/
def Seam.BehindErrors (g : Seam) (ts : List Token) : Prop :=
  ∃ us question row, question.kind = .question ∧ NameRow row ∧ g.part = us ++ question :: row ++ ts

/-- Whether a name follows with which the error types go on is known by the next two tokens. At the
seam there is none. -/
theorem Seam.BehindErrors.opens (h : g.BehindErrors []) {eof : Token} (heof : eof.kind = .eof)
    (hcomma : g.next.kind = .comma) :
    opensErrorType (g.more[0]?.getD eof) (g.more[1]?.getD eof) = false := by
  obtain ⟨us, question, row, hquestion, hrow, hpart⟩ := h
  rw [Bool.eq_false_iff]
  intro hopens
  obtain ⟨hname, hcolon⟩ := Bool.and_eq_true_iff.1 hopens
  cases hmore : g.more with
  | nil =>
    rw [hmore] at hname
    rw [show (([] : List Token)[0]?.getD eof).kind = .eof from heof] at hname
    cases hname
  | cons name more =>
    rw [hmore] at hname hcolon
    refine g.apart ?_
    rw [hpart, hmore, List.append_nil]
    refine .errorTypes hquestion hrow hcomma (beq_iff_eq.1 hname) fun t ht => ?_
    cases more with
    | nil => cases ht
    | cons u more =>
      cases ht
      exact bne_iff_ne.1 hcolon

/-- A token that is given back is where it was, if no tree is built. -/
theorem State.back_take_bare {s : State} {x : Token} {rest : List Token} (hbare : s.tree = none)
    (hrest : s.rest = x :: rest) : (s.take x rest).back = s := by
  rw [State.back_take, ← hrest, hbare]
  cases s
  cases hbare
  rfl

/-- In the part the next two tokens are the same, or neither way an error type. -/
theorem Seam.opensErrorType_right (g : Seam) (ts : List Token) (eof : Token) :
    opensErrorType ((g.right ts)[0]?.getD eof) ((g.right ts)[1]?.getD eof) =
      opensErrorType ((g.left ts)[0]?.getD eof) ((g.left ts)[1]?.getD eof) := by
  match ts with
  | [] =>
    show (g.next.kind == .identifier && _) = (g.close.kind == .identifier && _)
    rw [beq_false_of_ne (Outlook.ne_of_sees g.sees_next rfl),
      beq_false_of_ne (Outlook.ne_of_sees g.sees_close rfl)]
    rfl
  | [y] =>
    show (y.kind == .identifier && g.next.kind != .colon) =
      (y.kind == .identifier && g.close.kind != .colon)
    rw [bne_iff_ne.2 (Outlook.ne_of_sees g.sees_next rfl),
      bne_iff_ne.2 (Outlook.ne_of_sees g.sees_close rfl)]
  | y :: z :: ts => rfl

theorem Settles.eatBefore_comma (h : g.BehindErrors ts) :
    Settles g .type ts (eatBefore .comma opensErrorType) where
  run {i s t r us} heof hs hexec ht := by
    have hbare : (s.onto (g.right ts)).tree = none := hs.bare
    rw [exec_eatBefore i s (by decide) heof, hs.rest] at hexec
    rw [exec_eatBefore i _ (by decide) heof]
    cases ts with
    | nil =>
      have hclose : g.close.kind ≠ .comma := by rw [g.close_kind]; decide
      have hleft : g.left [] = g.close :: [g.last] := rfl
      have hright : (s.onto (g.right [])).rest = g.next :: g.more := rfl
      simp only [hleft, hclose, if_false] at hexec
      cases hexec
      obtain rfl : [] = us := Seam.left_inj (hs.rest.symm.trans ht.rest)
      simp only [hright]
      by_cases hcomma : g.next.kind = .comma
      · rw [if_pos hcomma, h.opens heof hcomma, if_neg Bool.false_ne_true,
          State.back_take_bare hbare hright]
      · rw [if_neg hcomma]
    | cons x ts =>
      have hleft : g.left (x :: ts) = x :: g.left ts := rfl
      have hright : (s.onto (g.right (x :: ts))).rest = x :: g.right ts := rfl
      simp only [hleft] at hexec
      simp only [hright]
      rw [g.opensErrorType_right ts i.eof]
      split at hexec
      next hcomma =>
        rw [if_pos hcomma]
        split at hexec
        next hopens =>
          cases hexec
          rw [if_pos hopens]
          obtain rfl : ts = us := Seam.left_inj ht.rest
          rfl
        next hopens =>
          rw [State.back_take_bare hs.bare (hs.rest.trans hleft)] at hexec
          cases hexec
          rw [if_neg hopens, State.back_take_bare hbare hright]
          obtain rfl : x :: ts = us := Seam.left_inj (hs.rest.symm.trans ht.rest)
          rfl
      next hcomma =>
        cases hexec
        rw [if_neg hcomma]
        obtain rfl : x :: ts = us := Seam.left_inj (hs.rest.symm.trans ht.rest)
        rfl

/-- One turn of the reading of error types behind the first. -/
abbrev errorTurn (names : List String) : Parse (List String × Bool) := do
  if ← eatBefore .comma opensErrorType then
    return (names ++ [(← advance).lexeme], true)
  else return (names, false)

theorem Alike.errorTurn (names : List String) : Regular (errorTurn names) :=
  .bind (.eatBefore (by decide) _ fun _ _ => rfl) fun _ => .ite (.bind .advance fun _ => .pure _)
    (.pure _)

theorem Alike.errorTypes (rules : Rules) : Regular (Grammar.errorTypes rules) :=
  .bind .advance fun _ => .repeatUpTo Alike.errorTurn ..

/-- A comma that is read has a name behind it, which is one more error type. -/
theorem Seam.BehindErrors.concat (h : g.BehindErrors ts) {i : Input} {s u : State} {us : List Token}
    (heof : i.eof.kind = .eof) (hs : g.At s ts)
    (hexec : exec (eatBefore .comma opensErrorType) i s = (.ok true, u)) (hu : g.At u us) :
    ∃ y vs, us = y :: vs ∧ y.kind = .identifier ∧ g.BehindErrors vs := by
  obtain ⟨before, question, row, hquestion, hrow, hpart⟩ := h
  obtain ⟨comma, rest, hrest, hcomma, hopens, rfl⟩ := exec_eatBefore_eq_true (by decide) heof hexec
  obtain rfl := hs.eq_cons hu
  have hleft : rest = g.left us := hu.rest
  rw [hleft] at hopens
  cases us with
  | nil =>
    have hclose : g.close.kind = .identifier := beq_iff_eq.1 (Bool.and_eq_true_iff.1 hopens).1
    exact absurd hclose (Outlook.ne_of_sees g.sees_close rfl)
  | cons y vs =>
    have hname : y.kind = .identifier := beq_iff_eq.1 (Bool.and_eq_true_iff.1 hopens).1
    refine ⟨y, vs, rfl, hname, before, question, _, hquestion, hrow.concat hcomma hname, ?_⟩
    rw [hpart]
    simp

/-- What stands behind the names that were read is no name of theirs. -/
theorem Settles.errorTypes_loop (h : g.BehindErrors ts) (bound : Nat) (names : List String) :
    Settles g .type ts (Grammar.repeatUpTo Grammar.errorTurn bound names) := by
  have hloop : ∀ bound names, Stepwise (Grammar.repeatUpTo Grammar.errorTurn bound names) :=
    fun bound names => (Alike.repeatUpTo Alike.errorTurn bound names).stepwise
  induction bound generalizing ts names with
  | zero => exact .bind .spend (fun _ _ => .pure _) Alike.spend.stepwise fun _ => .pure _
  | succ bound ih =>
    rw [Grammar.repeatUpTo, Grammar.errorTurn, bind_assoc]
    refine .bindAt (.eatBefore_comma h) (fun {i s b u us} heof hs hexec hu => ?_)
      (.eatBefore (by decide) _) fun b => ?_
    · cases b with
      | false => exact .pure _
      | true =>
        obtain ⟨y, vs, rfl, hname, hvs⟩ := h.concat heof hs hexec hu
        simp only [if_true, bind_assoc, pure_bind]
        refine .bindAt .advance (fun _ hs' hexec' hu' => ?_) .advance fun _ => hloop _ _
        obtain rfl := hs'.eq_of_advance (by rw [hname]; decide) hexec' hu'
        exact ih hvs _
    · cases b with
      | false => exact .pure _
      | true =>
        simp only [if_true, bind_assoc, pure_bind]
        exact .bind .advance fun _ => hloop _ _

theorem Settles.errorTypes {rules : Rules} {us : List Token} {question name : Token}
    (hquestion : question.kind = .question) (hname : name.kind = .identifier)
    (hpart : g.part = us ++ question :: name :: ts) :
    Settles g .type (name :: ts) (errorTypes rules) := by
  refine .bindAt .advance (fun _ hs hexec hu => ?_) .advance fun _ =>
    (Alike.repeatUpTo Alike.errorTurn _ _).stepwise
  obtain rfl := hs.eq_of_advance (by rw [hname]; decide) hexec hu
  refine .errorTypes_loop ⟨us, question, [name], hquestion, .one hname, ?_⟩ ..
  rw [hpart, List.append_assoc]
  rfl

end

theorem oneLine_reserved {name : String} (h : reservedParamNames.contains name = true) :
    Text.OneLine name := by
  have hall : ∀ name ∈ reservedParamNames, Text.OneLine name := by decide
  exact hall name (List.contains_iff_mem.1 h)

namespace Twin

section
variable {rules : Rules} (hr : rules.Lawful)
include hr

/-! ## Types -/

theorem listType : Lawful .type (listType rules) :=
  .bind .advance fun _ => .bind (.check _) fun _ =>
    .branch (.pure _) (.map (hr.rule .type)) fun _ => .bind (.consume ..) fun _ => .pure _

theorem tupleType : Lawful .type (tupleType rules) := by
  refine .bind .startPos fun ⟨start, line⟩ => .bind .advance fun _ => .shut <|
    .bind (.commaList rules _ (hr.rule .type)) fun ⟨members, comma⟩ => .consume fun _ => ?_
  split
  · exact .pure _
  · exact .bind (.spanFrom _) fun _ => .pure _

theorem dictType : Opens .type id (dictType rules) (dictType rules) :=
  .advance fun _ => .bind (hr.rule .basicType) fun _ => .consume fun _ =>
    .bind (hr.rule .type) fun _ => .bind (.consumeClose ..) fun _ => .pure _

omit hr in
theorem typeFieldName : Lawful .within typeFieldName :=
  .peekInside fun _ => .ite (.bind .advance fun _ => .pure _)
    (.ite (.bind .advance fun _ => .pure _) (.fail _))

theorem recordPart (parts : RecordParts) : Lawful .within (recordPart rules parts) := by
  have rest : ∀ parts : RecordParts, Lawful .within (do let _ ← Grammar.eat .comma; return parts) :=
    fun _ => .bind (.eat _) fun _ => .pure _
  refine .bind (.eat _) fun _ => .ite ?_ ?_
  · exact .bind (.check _) fun _ => .ite (.bind .advance fun _ => .bind (.pure _) rest)
      (.bind (.pure _) rest)
  · exact .bind .typeFieldName fun _ => .bind (.consume ..) fun _ => .bind (hr.rule .type) fun _ =>
      .bind (.pure _) rest

theorem recordType (start line : Nat) :
    Opens .type id (recordType rules start line) (recordType rules start line) := by
  refine .advance fun _ => .bind (.repeatUpTo (fun parts => ?_) ..) fun _ =>
    .consumeClose fun _ => .bind (.spanFrom _) fun _ => .pure _
  exact .bind (.check _) fun _ => .bind .atEnd fun _ =>
    .ite (.pure _) (.bind (.recordPart hr parts) fun _ => .pure _)

omit hr in
/-- Of the third token something is asked only if the second is in the part. -/
theorem startsWithParamName : Lawful .within startsWithParamName where
  alike := .bind (.check _) fun _ => .bind (.checkAt ..) fun _ => .bind (.checkAt ..) fun _ =>
    .bind (.checkAt ..) fun _ => .pure _
  settles g ts := by
    refine .look (fun _ _ => rfl) fun {i s} hs hts => ?_
    rw [hs.rest]
    have hcolon : g.next.kind ≠ .colon := Outlook.ne_of_sees g.sees_next rfl
    have hquestion : g.next.kind ≠ .question := Outlook.ne_of_sees g.sees_next rfl
    match ts, hts with
    | [], hts => exact nomatch (hts rfl).1
    | [x], _ =>
      show (x.kind == .identifier && (g.next.kind == .colon || (g.next.kind == .question && _))) =
        (x.kind == .identifier && (g.close.kind == .colon || (g.close.kind == .question && _)))
      rw [beq_false_of_ne hcolon, beq_false_of_ne hquestion, g.close_kind]
      rfl
    | [x, y], _ =>
      show (x.kind == .identifier && (y.kind == .colon ||
          (y.kind == .question && g.next.kind == .colon))) =
        (x.kind == .identifier && (y.kind == .colon ||
          (y.kind == .question && g.close.kind == .colon)))
      rw [beq_false_of_ne hcolon, g.close_kind]
      rfl
    | x :: y :: z :: ts, _ => rfl
  reports := .quiet <| .bind (.check _) fun _ => .bind (.checkAt ..) fun _ => .bind (.checkAt ..)
    fun _ => .bind (.checkAt ..) fun _ => .pure _

theorem typeParam : Lawful .within (typeParam rules) := by
  have rest (name : Option String) (optional : Bool) : Lawful .within (do
      let type ← rules.call .type
      return (⟨name, type, optional⟩ : TypeParam)) :=
    .bind (hr.rule .type) fun _ => .pure _
  refine .inNode _ (.bind .startsWithParamName fun _ => .ite ?_ (rest none false))
  -- the name stays known until it is reported on
  refine .remember (fun _ => Anywhere) .advance yields_advance (fun _ _ _ => trivial) fun token =>
    .keep lasting_anywhere (.eat _) (Quiet.eat _).silent fun optional =>
      .keep lasting_anywhere (.consume ..) (yields_consume _ _).silent fun _ => ?_
  refine .iteOf (fun hreserved => .bind (.reportAt append_ne_tooManyErrors
    append_not_mem_unclosedBodies fun _ _ => ?_) fun _ => rest ..) fun _ => .here (rest ..)
  exact .append (by decide) (oneLine_reserved hreserved)

theorem typeParams : Lawful .type (typeParams rules) :=
  .shut <| .bind (.commaList rules _ (.typeParam hr)) fun ⟨_, _⟩ => .consume fun _ => .pure _

theorem functionType : Lawful .type (functionType rules) :=
  .bind .advance fun _ => .bind (.consume ..) fun _ => .bind (.typeParams hr) fun _ =>
    .bind (.eat _) fun _ => .ite (.bind (hr.rule .type) fun _ => .pure _)
      (.bind .previous fun _ => .bind (.pure _) fun _ => .pure _)

theorem keywordFunctionType : Lawful .type (keywordFunctionType rules) :=
  .bind .advance fun _ => .bind (.eat _) fun _ => .branch (.typeParams hr) (.pure _) fun _ =>
    .bind (.after _ (hr.rule .basicType)) fun _ => .pure _

theorem simpleType (kind : Token.Kind) : Lawful .type (simpleType rules kind) := by
  unfold Grammar.simpleType
  split
  · exact .listType hr
  · exact .bind .advance fun _ => .pure _
  · exact .bind .advance fun _ => .pure _
  · exact (dictType hr).toTwin
  · exact .bind .advance fun _ => .pure _
  · exact .functionType hr
  · exact .keywordFunctionType hr
  all_goals exact .bind .advance fun _ => .pure _

omit hr in
/-- Only behind a question mark are there error types. -/
theorem typeSuffix (rules : Rules) (t : TypeExpr) : Lawful .type (typeSuffix rules t) where
  alike := .bind (.eat _) fun _ => .ite
    (.bind (.check _) fun _ => .ite (.bind (.errorTypes rules) fun _ => .pure _) (.pure _))
    (.pure _)
  settles g ts := by
    have hnames : Stepwise (Grammar.errorTypes rules) := (Alike.errorTypes rules).stepwise
    have hsuffix : ∀ b : Bool, Stepwise (if b = true then (do
        return { t with errors := t.errors ++ (← Grammar.errorTypes rules) })
        else return { t with optional := true }) := fun _ =>
      .ite (.bind hnames fun _ => .pure _) (.pure _)
    refine .bindAt (.eat (.inl rfl)) (fun {i s b u us} heof hs hexec hu => ?_)
      (Alike.eat _).stepwise fun _ => .ite (.bind (Alike.check _).stepwise hsuffix) (.pure _)
    cases b with
    | false => exact .pure _
    | true =>
      obtain ⟨question, rest, -, hquestion, rfl⟩ := exec_eat_eq_true (by decide) heof hexec
      obtain rfl := hs.eq_cons hu
      refine .checkThen rfl (fun name vs hts hname => ?_) (.pure _) hsuffix
      subst hts
      exact .bind (.errorTypes hquestion hname hs.tokens.symm) (fun _ _ => .pure _) hnames fun _ =>
        .pure _
  reports := by
    have names : Candid (Grammar.errorTypes rules) := .bind (.quiet .advance) fun _ =>
      .repeatUpTo lasting_anywhere (fun names => .quiet <| .bind (.eatBefore (by decide) _) fun _ =>
        .ite (.bind .advance fun _ => .pure _) (.pure _)) ..
    exact .bind (.quiet (.eat _)) fun _ => .ite (.bind (.quiet (.check _)) fun _ =>
      .ite (.bind names fun _ => .quiet (.pure _)) (.quiet (.pure _))) (.quiet (.pure _))

/-- Of the second token something is asked only behind a brace, which one token cannot close. -/
theorem basicTypeRule : Lawful .type (basicTypeRule rules) := by
  refine .bind .startPos fun ⟨start, line⟩ => .peek (fun first => .second (fun second => .of ?_)
    fun g => ?_) fun g _ => ?_
  · rw [show typeNode? first.bare second.bare = typeNode? first second from rfl]
    split
    · exact .fail _
    · next node _ =>
      refine .bind (.inNode _ ?_) fun _ => .bind (.spanFrom _) fun _ => .pure _
      split
      · exact .bind (.tupleType hr) fun t => .typeSuffix rules t
      · exact .bind (recordType hr start line).toTwin fun t => .typeSuffix rules t
      · exact .bind (.simpleType hr first.kind) fun _ => .bind (.spanFrom _) fun _ =>
          .bind (.pure _) fun t => .typeSuffix rules t
  · by_cases hbrace : first.kind = .leftBrace
    · left
      split
      · exact .fail _
      · next node hnode =>
        have hfirst : first.kind ≠ .eof := by rw [hbrace]; decide
        simp only [typeNode?, hbrace] at hnode
        split at hnode
        all_goals
          cases hnode
          refine Opens.stop ?_ hfirst
          refine .andThen (d := id) (.inNode _ ?_) fun _ => .bind (.spanFrom _) fun _ => .pure _
        · rw [hbrace]
          exact .andThen (dictType hr) fun _ => .bind (.spanFrom _) fun _ => .bind (.pure _) fun t =>
            .typeSuffix rules t
        · exact .andThen (recordType hr start line) fun t => .typeSuffix rules t
    · right
      have hnode : typeNode? first g.next = typeNode? first g.close := by
        unfold typeNode?
        split
        all_goals first | rfl | contradiction
      simp only [hnode]
  · refine Stuck.settles <| .peek <| .look (fun i s => exec_peekAt i s 1) fun second => ?_
    have hnone : typeNode? g.close second = none := by
      unfold typeNode?
      rw [g.close_kind]
      rfl
    rw [hnone]
    exact .fail _

theorem typeMembers {separator : Token.Kind} (hseparator : Outlook.type.sees separator = false)
    (first : TypeExpr) : Lawful .type (typeMembers rules separator first) := by
  refine .bind (.repeatUpTo (fun members => ?_) ..) fun _ => .pure _
  exact .bind (.eat _ (.inl hseparator)) fun _ => .ite (.bind (.basicTypeRule hr) fun _ => .pure _)
    (.pure _)

/-- A condition does not go on in front of an equals sign. -/
theorem refinement {keyword : Token} (hkeyword : keyword.kind = .kwWhere) :
    TwinAt Anywhere .type keyword id (do let _ ← Grammar.advance; rules.call .expression)
      (do let _ ← Grammar.advance; rules.call .expression) where
  alike := .bind .advance fun _ => hr.alike .expression
  settles g ts := by
    refine .bindAt .advance (fun _ hs hexec hu => ?_) .advance fun _ =>
      (hr.alike .expression).stepwise
    obtain rfl := hs.eq_of_advance (by rw [hkeyword]; decide) hexec hu
    have hvalue : Settles g .value ts (rules.call .expression) :=
      (hr.calls .expression).settles g ts
    refine .widen hvalue fun _ hreads => ?_
    obtain ⟨n, rfl⟩ := hr.tied
    refine Outlook.admits_value fun hequal => g.apart ?_
    rw [← hs.tokens]
    exact .condition hkeyword hreads hequal
  reports := .bind (.quiet .advance) fun _ => (hr.calls .expression).reports

theorem typeWith (refinable : Bool) : Lawful .type (typeWith rules refinable) := by
  refine .bind .checkpoint fun c => .bind .startPos fun ⟨start, line⟩ =>
    .bind (.basicTypeRule hr) fun first => .peek (fun t => ?_) fun g hstep => ?_
  · rw [show t.bare.kind = t.kind from rfl]
    split
    · exact .of <| .bind (.inNodeAt c _ (.typeMembers hr rfl first)) fun _ =>
        .bind (.spanFrom _) fun _ => .pure _
    · exact .of <| .bind (.inNodeAt c _ (.typeMembers hr rfl first)) fun _ =>
        .bind (.spanFrom _) fun _ => .pure _
    · next hkeyword =>
      split
      · exact .bind (.inNodeAt c _ (refinement hr hkeyword)) fun _ => .bind (.spanFrom _) fun _ =>
          .pure _
      · exact .of (.pure _)
    · exact .of (.pure _)
  · refine .peek_nil (fun hadmits => ?_) ?_ hstep
    · rw [g.close_kind]
      rcases hadmits.type with hnext | hnext | hnext <;> rw [hnext]
    · rw [g.close_kind]
      exact .pure first

/-! ## Patterns -/

theorem listPattern : Lawful .within (listPattern rules) := by
  refine .bind .advance fun _ => .bind (.repeatUpTo (fun parts => ?_) ..) fun _ =>
    .bind (.consume ..) fun _ => .pure _
  refine .bind (.check _) fun _ => .bind .atEnd fun _ => .ite (.pure _) (.bind (.eat _) fun _ => ?_)
  exact .ite
    (.bind (.consumeName _) fun _ => .bind (.pure _) fun _ => .bind (.eat _) fun _ => .pure _)
    (.bind (hr.rule .pattern) fun _ => .bind (.pure _) fun _ => .bind (.eat _) fun _ => .pure _)

omit hr in
theorem fieldBinding : Lawful .within fieldBinding :=
  .bind (.consumeName _) fun _ => .bind (.after _ (.consumeName _)) fun _ => .pure _

omit hr in
theorem dictPattern (rules : Rules) : Lawful .within (dictPattern rules) := by
  refine .bind .advance fun _ => .bind (.repeatUpTo (fun parts => ?_) ..) fun _ =>
    .bind (.consumeClose ..) fun _ => .pure _
  have rest : ∀ parts : DictPatternParts, Lawful .within (do return (parts, ← Grammar.eat .comma)) :=
    fun _ => .bind (.eat _) fun _ => .pure _
  refine .bind (.check _) fun _ => .bind .atEnd fun _ => .ite (.pure _) (.bind (.eat _) fun _ => ?_)
  exact .ite
    (.bind (.check _) fun _ => .ite (.bind .advance fun _ => .bind (.pure _) rest)
      (.bind (.pure _) rest))
    (.bind .fieldBinding fun _ => .bind (.pure _) rest)

omit hr in
theorem errorTypePattern (rules : Rules) : Lawful .within (errorTypePattern rules) :=
  .bind .advance fun _ => .bind (.eat _) fun _ => .ite
    (.bind (.commaList rules _ (.consumeName _)) fun ⟨_, _⟩ => .bind (.consume ..) fun _ =>
      .pure _) (.pure _)

theorem tuplePattern : Lawful .within (tuplePattern rules) :=
  .bind .advance fun _ => .bind (.commaList rules _ (hr.rule .pattern)) fun ⟨_, _⟩ =>
    .bind (.consume ..) fun _ => .pure _

omit hr in
theorem bindingPattern : Lawful .within bindingPattern :=
  .bind .advance fun _ => .bind .advance fun _ => .bind (.consumeName _) fun _ =>
    .bind (.consume ..) fun _ => .pure _

theorem patternOf (node : Tree.Kind) (first : Token) : Twin none Anywhere .within id
    (patternOf rules node first) (patternOf rules node first.bare) := by
  unfold Grammar.patternOf
  split
  · exact .bind .advance fun _ => .bind (.consumeName _) fun _ => .pure _
  · exact .bind .advance fun _ => .bind (.consumeName _) fun _ => .pure _
  · exact .errorTypePattern rules
  · exact .bind .advance fun _ => .pure _
  · exact .listPattern hr
  · exact .dictPattern rules
  · exact .tuplePattern hr
  · exact .bindingPattern
  · exact .bind .advance fun _ => .pure _
  · exact .bind .advance fun _ => .pure _

theorem patternRule : Lawful .within (patternRule rules) := by
  refine .bind .startPos fun ⟨start, line⟩ => .peek (fun first => .second (fun second => .of ?_)
    fun g => .inr ?_) fun g hstep => (Stuck.within_nil (.bind Alike.peek.stepwise hstep)).settles
  · rw [show patternNode? first.bare second.bare = patternNode? first second from rfl]
    split
    · exact .fail _
    · exact .bind .checkpoint fun c => .bind (typeWith hr false).inner fun _ =>
        .bind (.inNodeAt (e := id) c _ (.pure _)) fun _ => .bind (.spanFrom _) fun _ => .pure _
    · next node _ _ =>
      exact .bind (.inNode _ (.patternOf hr node first)) fun _ => .bind (.spanFrom _) fun _ => .pure _
  · have hnode : patternNode? first g.next = patternNode? first g.close := by
      unfold patternNode?
      rw [beq_false_of_ne (Outlook.ne_of_sees g.sees_next rfl),
        beq_false_of_ne (Outlook.ne_of_sees g.sees_close rfl)]
    simp only [hnode]

/-! ## Bodies, parameters and variables -/

theorem nextDeclaration : Lawful .within (nextDeclaration rules) := by
  refine .get (fun _ _ => rfl) (fun _ _ => rfl) fun s => .bind (hr.rule .recovered) fun _ =>
    .get (fun _ _ => rfl) (fun _ _ => rfl) fun s' => .bind (.check _) fun _ => ?_
  rw [State.position_bare, State.position_bare]
  exact .guarded .advance (.pure _)

theorem declarations : Lawful .value (declarations rules) :=
  .shut <| .andThen (.bodyLoop (fun _ => .bind (.nextDeclaration hr) fun _ => .pure _)
    (fun _ => .bind fun _ => .pure rfl) ..) fun _ => .pure _

theorem blockBody (brace : Token) (kind : String) : Twin none (Behind brace) .value id
    (blockBody rules brace kind) (blockBody rules brace.bare kind) := by
  obtain ⟨n, rfl⟩ := hr.tied
  exact .bind (.deepBody (.block kind) (.declarations hr)) fun _ => .bind (.spanFrom _) fun _ =>
    .pure _

theorem blockOf (kind : String) {description : String} (h : Remark description) :
    Lawful .value (block rules kind description) :=
  .inNode _ (.behindBraceOf h fun brace => .blockBody hr brace kind)

theorem block (kind : String) (cs : List Char)
    (h : autoParam (Remark (String.ofList cs)) Rat.reduced._autoParam) :
    Lawful .value (Grammar.block rules kind (String.ofList cs)) :=
  .blockOf hr kind h

theorem parameter : Lawful .value (parameter rules) := by
  refine .bind .startPos fun ⟨start, line⟩ => .bind (.inNode (e := id) _ ?_) fun ⟨_, _, _⟩ =>
    .bind (.spanFrom _) fun _ => .pure _
  exact .bind (.consumeName _) fun _ => .bind (.after _ (hr.rule .type)) fun _ =>
    .bind (.after _ (hr.rule .expression)) fun _ => .pure _

theorem parameters : Lawful .value (parameters rules) :=
  .inNode _ (.bind (.consume ..) fun _ => .shut <| .bind (.check _) fun _ =>
    .branch (.pure _) (.commaSeparated rules (parameter hr).inner) fun _ => .consume fun _ => .pure _)

theorem varDeclaration (mods : Modifiers) : Lawful .value (varDeclaration rules mods) :=
  .bind (.eat _) fun _ => .named _ fun _ => .bind (.after _ (hr.rule .type)) fun _ =>
    .bind (.after _ (hr.rule .expression)) fun _ => .bind (.eat _) fun _ => .pure _

end

end Twin

/-- A block is made of the operations, whatever is said if it does not start. -/
theorem Alike.block {rules : Rules} (hr : rules.Lawful) (kind : String) {description : String}
    (h : description ≠ tooManyErrors) : Regular (block rules kind description) :=
  .inNode _ (.bind (.consume description h _) fun brace => (Twin.blockBody hr brace kind).alike)

/-- Whatever stands between them, the members of a type are read alike. -/
theorem Alike.typeMembers {rules : Rules} (hr : rules.Lawful) (separator : Token.Kind)
    (first : TypeExpr) : Regular (typeMembers rules separator first) := by
  refine .bind (.repeatUpTo (fun members => ?_) ..) fun _ => .pure _
  exact .bind (.eat _) fun _ => .ite (.bind (Twin.basicTypeRule hr).alike fun _ => .pure _) (.pure _)

end LimitSyntax.Grammar
