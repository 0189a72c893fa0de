import LimitSyntax.Proofs.TandemStmts

/-!
# In tandem: declarations

The rules for declarations run alike in parses that are abreast. With them all rules do, however
deep they are nested.
-/

namespace LimitSyntax.Grammar

open Ast

namespace Tandem

section
variable {g : Pair} {cap : Nat} {rules rules' : Rules} {H : Prop} {n : Nat} {σ : Spot}
  (hr : rules.InTandem g cap rules') (hn : n ≤ cap + 1)
include hr hn

theorem modifiers : Tandem H g .within n (modifiers rules) (modifiers rules') (fun _ => .within)
    (fun _ => n) := by
  have hb := hr.bound
  have hb' := hr.bound'
  refine .repeatEq .within (by omega) (by omega) fun mods k hk =>
    .peek fun kind t t' hkind hsame => ?_
  rw [← hsame.kind, hkind]
  dsimp only
  split
  next => exact .stop fun _ => rfl
  next mods hadd =>
    have hsolid : isSolid kind = true := by
      rw [isSolid_iff]
      constructor <;> (rintro rfl; cases hadd)
    exact .ite (.andThen (.inNode (.advance hsolid)) (.again fun _ => rfl))
      (.andThen (.advance hsolid) (.again fun _ => rfl))

/-! ## Variables and functions -/

theorem destructuring : Tandem H g (.beforeTwo .kwVar .leftParen) n (destructuring rules)
    (destructuring rules') (fun _ => .any) (fun _ => n - 1) := by
  have hb := hr.bound
  have hb' := hr.bound'
  exact .andThen .advanceTo <| .andThen .advance <|
    .bindEq (.commaSeparated (by omega) (by omega) fun k hk => .consumeName ..)
      (fun names => .andThen (.consume ..) <| .andThen (.consume ..) <|
        .bind ((hr.expression (by omega)).fromSpot) <| .andThen .eatOptional <|
          .pure fun h => .destructuringStmt h.2)

omit hr hn in
theorem genericNames (hb : n ≤ rules.bound) (hb' : n ≤ rules'.bound) :
    Tandem H g .within n (genericNames rules) (genericNames rules') (fun _ => .within)
      (fun _ => n) :=
  .eat (.bind (.commaSeparated (by omega) (by omega) fun k hk => .consumeName ..) <|
    .andThen (.consume ..) <| .pure And.right) (.pure fun _ => .nil)

theorem functionDeclaration {kind : Token.Kind} (hkind : isSolid kind = true) (mods : Modifiers) :
    Tandem H g (.before kind) n (functionDeclaration rules mods) (functionDeclaration rules' mods)
      (fun _ => .any) (fun _ => n - 1) := by
  have hb := hr.bound
  have hb' := hr.bound'
  refine .startPos fun start line start' line' => .andThen (.advance hkind) <|
    .bindEq (.consumeName ..) fun name => .andThen (.describe ..) <|
    .bindEq (genericNames (by omega) (by omega)) (fun generics => .demand _ <|
    .bind (parameters hr (by omega)) fun {r r'} => ?_)
  obtain ⟨params, optionalParams⟩ := r
  obtain ⟨params', optionalParams'⟩ := r'
  refine .bind (.after (hr.type (by omega))) ?_
  refine .eatThen .any (.value fun _ => .none) (.map (block hr (by omega)) .some) <|
    .spanFrom fun _ _ => .pure fun ⟨⟨⟨_, hparams⟩, htype⟩, hbody⟩ => ?_
  exact .function (.ofList hparams.1) (.ofList hparams.2) (.ofOption htype) (.ofOption hbody)

/-! ## Classes -/

theorem constructorParts : Tandem H g (.before .identifier) n (constructorParts rules)
    (constructorParts rules') (fun _ => .within) (fun _ => n - 1) :=
  .andThen .advance <| .bind (parameters hr (by omega)) <| .bind (block hr (by omega)) <|
    .pure fun h => ⟨h.1.2, h.2⟩

omit hr hn in
theorem startsField {α : Type} [Comparable α] {mods : Modifiers} {p q p' q' : Parse α}
    {τ : α → Spot} {m : α → Nat} (htrue : Tandem H g .within n p q τ m)
    (hfalse : Tandem H g .within n p' q' τ m) :
    Tandem H g .within n (startsField mods >>= fun b => if b = true then p else p')
      (startsField mods >>= fun b => if b = true then q else q') τ m := by
  refine .test (fun _ => .within) (Alike.startsField mods).stepwise (fun _ s s' hs hseam => ?_)
    fun _ => .ite htrue hfalse
  have hexec : ∀ i s, exec (Grammar.startsField mods) i s = (.ok
    ((s.rest[0]?.getD i.eof).kind == .kwVar || (s.rest[0]?.getD i.eof).kind == .identifier &&
      ((s.rest[1]?.getD i.eof).kind == .colon ||
        mods.isConst && (s.rest[1]?.getD i.eof).kind == .equal)), s) := fun _ _ => rfl
  refine ⟨_, hexec g.left s, ?_, hseam⟩
  rw [hexec, ← (hs.peek_of_not_atSeam hseam).kind]
  refine congrArg (fun b => (Except.ok b, s')) ?_
  by_cases hname : (s.rest[0]?.getD g.left.eof).kind = .identifier
  · rw [(hs.ahead.peek_one (hname ▸ rfl)).kind]
  · rw [beq_false_of_ne hname, Bool.false_and, Bool.false_and]

section
variable {c c' : ClassDecl}

omit hr hn in
theorem addField {f f' : VarDecl} (hc : Agree c c') (hf : Agree f f') :
    Agree (c.addField f) (c'.addField f') := by
  cases hc with
  | @classDecl _ _ _ _ _ _ _ _ _ _ _ _ _ tables hargs hparams hfields hmethods =>
    have htables : tables.addField f = tables.addField f' := by cases hf; rfl
    rw [ClassDecl.addField, ClassDecl.addField, htables]
    exact .classDecl hargs hparams (.ofList (List.rel_append hfields.toList (.cons hf .nil))) hmethods

omit hr hn in
theorem addMethod {f f' : FunctionDecl} (hc : Agree c c') (hf : Agree f f') :
    Agree (c.addMethod f) (c'.addMethod f') := by
  cases hc with
  | @classDecl _ _ _ _ _ _ _ _ _ _ _ _ _ tables hargs hparams hfields hmethods =>
    have htables : tables.addMethod f = tables.addMethod f' := by cases hf; rfl
    rw [ClassDecl.addMethod, ClassDecl.addMethod, htables]
    exact .classDecl hargs hparams hfields (.ofList (List.rel_append hmethods.toList (.cons hf .nil)))

omit hr hn in
theorem headerConstructor {span span' : Span} {line line' : Nat} (hc : Agree c c') :
    Agree (c.headerConstructor span line) (c'.headerConstructor span' line') := by
  cases hc with
  | @classDecl args args' params params' _ _ _ _ _ superclass _ _ _ _ hargs hparams _ _ =>
    have hempty : args.isEmpty = args'.isEmpty := by cases hargs <;> rfl
    refine .function ?_ ?_ .none (.some (.block (.ofList (List.rel_append ?_ ?_))))
    · exact .ofList (Comparable.Agree.filter (fun hp => congrArg not (isOptional_congr hp)) hparams.toList)
    · exact .ofList (Comparable.Agree.filter isOptional_congr hparams.toList)
    · dsimp only
      rw [hempty]
      split
      · refine .cons (.stmt (.expressionStmt (.expr (.callExpr ?_ hargs .nil)))) .nil
        exact .expr (.memberExpr (.expr .superExpr))
      · exact .nil
    · refine List.rel_map (fun p p' hp => ?_) hparams.toList
      cases hp with
      | param _ _ => exact .stmt (.expressionStmt (.expr (.assignExpr
          (.memberTarget (.expr .selfExpr)) (.expr .variableExpr))))

theorem classMember (hname : c.name = c'.name) :
    Tandem (H ∧ Agree c c') g .within n (classMember rules c) (classMember rules' c')
      (fun _ => .any) (fun _ => n - 1) := by
  refine .checkpoint fun _ _ => .bindEq (modifiers hr hn) fun mods => .startsField ?_ (.check ?_ (.check ?_ ?_))
  · exact .bind (.inNodeAt (varDeclaration hr hn mods)) (.pure fun h => addField h.1.2 h.2)
  · exact .bind (.inNodeAt (functionDeclaration hr hn rfl mods)) (.pure fun h => addMethod h.1.2 h.2)
  · refine .peekAgain fun t t' hsame => ?_
    rw [← hsame.lexeme, ← hname]
    cases t.lexeme == c.name with
    | false => exact .checkNext (.fail _) (.fail _)
    | true =>
      refine .checkNext (.startPos fun _ _ _ _ => .bind (.inNodeAt
        ((constructorParts hr hn).fromSpot)) fun {r r'} => ?_) (.fail _)
      obtain ⟨params, body⟩ := r
      obtain ⟨params', body'⟩ := r'
      refine .spanFrom fun _ _ => .pure fun ⟨⟨_, hc⟩, hparams, hbody⟩ => addMethod hc ?_
      exact .function (.ofList hparams.1) (.ofList hparams.2) .none (.some hbody)
  · exact .peekAgain fun _ _ _ => .glance (Alike.checkAt 1 _).stepwise (fun _ _ => ⟨_, rfl⟩)
      fun _ _ => .fail _

end

omit hn in
theorem superclass (hn : n ≤ cap) : Tandem H g .within n (superclass rules) (superclass rules')
    (fun _ => .within) (fun _ => n) := by
  refine .eat (.bindEq (.consumeName ..) fun name => ?_) (.pure fun _ => ⟨.none, .nil⟩)
  exact .checkThen .within (arguments hr (by omega)) (.value fun _ => .nil) <|
    .pure fun h => ⟨.some rfl, h.2⟩

omit hn in
/-- A class behind its parameters. -/
theorem classBody (hn : n ≤ cap) (inHeader : Bool) {name : String} {mods : Modifiers}
    {required optional required' optional' : List Param} {start line start' line' : Nat}
    (hparams : H → Agree (required, optional) (required', optional')) :
    Tandem H g .within n
      (do
        let (base, superArgs) ← Grammar.superclass rules
        let brace ← Grammar.consume .leftBrace "Expected '\x7b' before class body."
        let c ← Grammar.inBody "class" brace do
          let c ← Grammar.repeatUpTo (fun c => do
            if ← Grammar.bodyEnds then return (c, false)
            return (← Grammar.classMember rules c, true)) rules.bound
            ⟨name, base, superArgs, required ++ optional, [], [], mods.isAbstract, mods.isFinal,
              mods.isData, {}⟩
          let _ ← Grammar.closeBlock "Expected '\x7d' after class body."
          return c
        if inHeader then return c.addMethod (c.headerConstructor (← Grammar.spanFrom start) line)
        else return c)
      (do
        let (base, superArgs) ← Grammar.superclass rules'
        let brace ← Grammar.consume .leftBrace "Expected '\x7b' before class body."
        let c ← Grammar.inBody "class" brace do
          let c ← Grammar.repeatUpTo (fun c => do
            if ← Grammar.bodyEnds then return (c, false)
            return (← Grammar.classMember rules' c, true)) rules'.bound
            ⟨name, base, superArgs, required' ++ optional', [], [], mods.isAbstract, mods.isFinal,
              mods.isData, {}⟩
          let _ ← Grammar.closeBlock "Expected '\x7d' after class body."
          return c
        if inHeader then return c.addMethod (c.headerConstructor (← Grammar.spanFrom start') line')
        else return c) (fun _ => .within) (fun _ => n) := by
  have hb := hr.bound
  have hb' := hr.bound'
  refine .bind (superclass hr hn) fun {r r'} => ?_
  obtain ⟨base, superArgs⟩ := r
  obtain ⟨base', superArgs'⟩ := r'
  refine .bindToken (.consume ..) fun _ => .bind (.inBody (.untilEnd (by omega) (by omega)
    (fun h => ?_) (fun {c c'} k hk => ?_) (fun _ _ _ _ hend => exec_bodyEnds _ _ hend)
    (.andThen (.closeBlock ..) (.value And.right)) fun _ => ?_)) <|
    .ite (.spanFrom fun _ _ => .pure fun h => addMethod h.2 (headerConstructor h.2)) (.pure And.right)
  · obtain rfl : base = base' := Strict.eq h.2.1
    have hall := (hparams h.1).1.append (hparams h.1).2
    exact .classDecl (.ofList h.2.2) (.ofList hall) .nil .nil
  · refine .bodyEnds (.stop And.right) (.bindVia .any (k - 1) ?_ (.again And.right))
    refine .assume (Twin.classMember hr.lawful c).stepwise fun h => classMember hr (by omega) ?_
    cases h.2
    rfl
  · exact (Rejects.closeBlock (by decide) (by decide) _).bind fun _ => .pure _

theorem classDeclaration {kind : Token.Kind} (hkind : isSolid kind = true) (mods : Modifiers) :
    Tandem H g (.before kind) n (classDeclaration rules mods) (classDeclaration rules' mods)
      (fun _ => .any) (fun _ => n - 1) := by
  refine .startPos fun start line start' line' => .andThen (.advance hkind) <|
    .bindEq (.consumeName ..) fun name => .andThen (.describe ..) <| .check ?_ ?_
  · refine .bind (parameters hr (by omega)) fun {r r'} => ?_
    exact (classBody hr (by omega) true And.right).loosen (fun _ => rfl) fun _ => by omega
  · exact (classBody hr (by omega) false fun _ => ⟨.nil, .nil⟩).loosen (fun _ => rfl) fun _ => by omega

/-! ## Enumerations, aliases, traits and modules -/

theorem enumVariant : Tandem H g σ n (enumVariant rules) (enumVariant rules') (fun _ => .within)
    (fun _ => n - 1) :=
  .inNode <| .bindEq (.consumeName ..) fun _ => .bind (.after (.bind (hr.type (by omega)) <|
    .andThen (.consume ..) (.value And.right))) <| .pure fun h => .variant (.ofOption h.2)

theorem enumDeclaration {kind : Token.Kind} (hkind : isSolid kind = true) :
    Tandem H g (.before kind) n (enumDeclaration rules) (enumDeclaration rules') (fun _ => .any)
      (fun _ => n - 1) := by
  have hb := hr.bound
  have hb' := hr.bound'
  refine .andThen (.advance hkind) <| .bindEq (.consumeName ..) fun name =>
    .andThen (.describe ..) <| .bindToken (.consume ..) fun _ => .bindVia .within (n - 1)
      (.inBody (.bind (.commaList .rightBrace (by omega) (by omega) fun k hk =>
        enumVariant hr (by omega)) fun {r r'} => ?_)) <| .pure fun h => .enumDeclStmt (.ofList h.2)
  obtain ⟨variants, comma⟩ := r
  obtain ⟨variants', comma'⟩ := r'
  refine .closeBlockThen _ _ (.checkWithin fun _ => .pure fun h => h.2.1) ?_
  exact .bind (Alike.check _).stepwise fun _ => .ite .giveUp (.pure _)

theorem typeDeclaration {kind : Token.Kind} (hkind : isSolid kind = true) :
    Tandem H g (.before kind) n (typeDeclaration rules) (typeDeclaration rules') (fun _ => .any)
      (fun _ => n - 1) :=
  .andThen (.advance hkind) <| .bindEq (.consumeName ..) fun _ => .andThen (.consume ..) <|
    .bind (hr.type (by omega)) <| .andThen .eatOptional <| .pure fun h => .typeAliasStmt h.2

omit hn in
/-- A trait or an interface from its name on. -/
theorem traitBody (hn : n ≤ cap) {keyword : String} {isOpen : Bool} :
    Tandem H g .within n
      (do
        let name ← Grammar.consumeName ("Expected " ++ keyword ++ " name.")
        Grammar.describe name
        let brace ← Grammar.consume .leftBrace ("Expected '\x7b' before " ++ keyword ++ " body.")
        let methods ← Grammar.inBody keyword brace do
          let methods ← Grammar.repeatUpTo (fun methods => do
            if ← Grammar.bodyEnds then return (methods, false)
            if !(← Grammar.check .kwFn) then
              Grammar.fail ("Expected method declaration in " ++ keyword ++ ".")
            let method ← Grammar.inNode .functionDeclaration (Grammar.functionDeclaration rules {})
            return (method :: methods, true)) rules.bound []
          let _ ← Grammar.closeBlock ("Expected '\x7d' after " ++ keyword ++ " body.")
          return methods
        return (name, isOpen, methods.reverse))
      (do
        let name ← Grammar.consumeName ("Expected " ++ keyword ++ " name.")
        Grammar.describe name
        let brace ← Grammar.consume .leftBrace ("Expected '\x7b' before " ++ keyword ++ " body.")
        let methods ← Grammar.inBody keyword brace do
          let methods ← Grammar.repeatUpTo (fun methods => do
            if ← Grammar.bodyEnds then return (methods, false)
            if !(← Grammar.check .kwFn) then
              Grammar.fail ("Expected method declaration in " ++ keyword ++ ".")
            let method ← Grammar.inNode .functionDeclaration (Grammar.functionDeclaration rules' {})
            return (method :: methods, true)) rules'.bound []
          let _ ← Grammar.closeBlock ("Expected '\x7d' after " ++ keyword ++ " body.")
          return methods
        return (name, isOpen, methods.reverse)) (fun _ => .any) (fun _ => n) := by
  have hb := hr.bound
  have hb' := hr.bound'
  refine .bindEq (.consumeName ..) fun name => .andThen (.describe ..) <|
    .bindToken (.consume ..) fun _ => .bind (.inBody (.untilEnd (by omega) (by omega)
      (fun _ => .nil) (fun k hk => ?_) (fun _ _ _ _ hend => exec_bodyEnds _ _ hend)
      (.andThen (.closeBlock ..) (.value And.right)) fun _ => ?_)) <|
    .pure fun h => ⟨rfl, rfl, h.2.reverse⟩
  · exact .bodyEnds (.stop And.right) (.demand _ (.bind (.inNode
      (functionDeclaration hr (by omega) rfl {})) (.again fun h => .cons h.2 h.1.2)))
  · exact (Rejects.closeBlock (by decide) (by decide) _).bind fun _ => .pure _

theorem traitDeclaration {kind : Token.Kind} (hkind : isSolid kind = true) (mods : Modifiers)
    (keyword : String) :
    Tandem H g (.before kind) n (traitDeclaration rules mods keyword)
      (traitDeclaration rules' mods keyword) (fun _ => .any) (fun _ => n - 1) :=
  .andThen (.advance hkind) <| .check
    (.andThen (.inNode .advance)
      ((traitBody hr (by omega)).loosen (fun _ => rfl) fun _ => by omega))
    (traitBody hr (by omega))

/-- A trait as a statement, and an interface likewise. -/
theorem traitStatement {kind : Token.Kind} (hkind : isSolid kind = true) (mods : Modifiers)
    (keyword : String) (make : String → Bool → List FunctionDecl → StmtKind)
    (hmake : ∀ {name isOpen methods methods'}, Agree methods methods' →
      Agree (make name isOpen methods) (make name isOpen methods')) :
    Tandem H g (.before kind) n
      (do
        let (name, isOpen, methods) ← Grammar.traitDeclaration rules mods keyword
        return make name isOpen methods)
      (do
        let (name, isOpen, methods) ← Grammar.traitDeclaration rules' mods keyword
        return make name isOpen methods) (fun _ => .any) (fun _ => n - 1) := by
  refine .bind (traitDeclaration hr hn hkind mods keyword) fun {r r'} => ?_
  obtain ⟨name, isOpen, methods⟩ := r
  obtain ⟨name', isOpen', methods'⟩ := r'
  refine .pure fun ⟨_, hname, hopen, hmethods⟩ => ?_
  obtain rfl : name = name' := hname
  obtain rfl : isOpen = isOpen' := hopen
  exact hmake hmethods

instance : Comparable ModuleParts :=
  ⟨fun p q => Agree p.forEveryone q.forEveryone ∧ Agree p.forHeirs q.forHeirs ∧
    Agree p.forOwner q.forOwner⟩

omit hr hn in
theorem addMember {parts parts' : ModuleParts} {member member' : Option Stmt} (kind : Token.Kind)
    (h : Agree parts parts') (hmember : Agree member member') :
    Agree (parts.add kind member) (parts'.add kind member') := by
  have hlist : ∀ {xs ys : List Stmt}, Agree xs ys →
      Agree (member.toList ++ xs) (member'.toList ++ ys) := by
    intro xs ys hxs
    cases hmember with
    | none => exact hxs
    | some hmember => exact .cons hmember hxs
  obtain ⟨heveryone, hheirs, howner⟩ := h
  unfold ModuleParts.add
  split
  · exact ⟨hlist heveryone, hheirs, howner⟩
  · exact ⟨heveryone, hlist hheirs, howner⟩
  · exact ⟨heveryone, hheirs, hlist howner⟩

theorem moduleDeclaration {kind : Token.Kind} (hkind : isSolid kind = true) :
    Tandem H g (.before kind) n (moduleDeclaration rules) (moduleDeclaration rules')
      (fun _ => .any) (fun _ => n - 1) := by
  have hb := hr.bound
  have hb' := hr.bound'
  refine .andThen (.advance hkind) <| .bindEq (.consumeName ..) fun name =>
    .andThen (.describe ..) <| .bindToken (.consume ..) fun _ => .bindVia .within (n - 1)
      (.inBody ?_) <| .pure fun ⟨_, heveryone, hheirs, howner⟩ =>
        .moduleDeclStmt (.ofList heveryone.reverse) (.ofList hheirs.reverse) (.ofList howner.reverse)
  have hclose : Rejects (Grammar.closeBlock "Expected '\x7d' after module body.") .eof :=
    .closeBlock (by decide) (by decide) _
  simp only [Grammar.deeper, bind_assoc, pure_bind]
  refine .andThen (.reopen (fun _ => ⟨_, _, rfl⟩) fun _ => ⟨_, _, rfl⟩) <|
    .untilEnd (by omega) (by omega) (fun _ => ?_) (fun k hk => ?_)
      (fun _ _ _ _ hend => exec_bodyEnds _ _ hend) ?_ fun parts => ?_
  · exact ⟨.nil, .nil, .nil⟩
  · refine .bodyEnds (.stop And.right) (.peekAgain fun t t' hsame => ?_)
    rw [← hsame.kind]
    exact .bind (nextDeclaration hr (by omega)) (.again fun h => addMember _ h.1.2 h.2)
  · exact .andThen (.reopen (fun _ => ⟨_, _, rfl⟩) fun _ => ⟨_, _, rfl⟩) <|
      .andThen (.closeBlock ..) (.pure And.right)
  · exact .change (fun _ => ⟨rfl, rfl, rfl, rfl⟩) (hclose.bind fun _ => .pure _)

/-! ## Imports -/

omit hr hn in
theorem importPath (hb : n ≤ rules.bound) (hb' : n ≤ rules'.bound) :
    Tandem H g .within n (importPath rules) (importPath rules') (fun _ => .within)
      (fun _ => n) := by
  refine .eat (.bindToken (.consume ..) fun ht => .andThen (.consume ..) <|
    .pure fun _ => congrArg ImportPath.file ht.text) (.check ?_ (.check ?_ (.fail _)))
  · exact .bindToken .advance fun ht => .pure fun _ => congrArg ImportPath.file ht.text
  · refine .bindToken .advance fun ht => .bindEq (.repeatUpTo .within (by omega) (by omega)
      (fun _ => .cons ht.lexeme .nil) fun k hk => ?_) (fun parts => .pure fun _ => rfl)
    exact .eat (.bindEq (.consumeName ..) fun name => .again fun h => .cons rfl h.2) (.stop And.right)

omit hr hn in
theorem importFilter (hb : n ≤ rules.bound) (hb' : n ≤ rules'.bound) :
    Tandem H g .within n (importFilter rules) (importFilter rules') (fun _ => .within)
      (fun _ => n) := by
  have hnames : ∀ {kind : Token.Kind} (filter : FilterKind), isSolid kind = true →
      Tandem H g (.before kind) n
        (do
          let keyword := (← Grammar.advance).lexeme
          let names ← Grammar.commaSeparated rules
            (Grammar.consumeName ("Expected identifier after '" ++ keyword ++ "'."))
          return some (ImportFilter.mk filter names))
        (do
          let keyword := (← Grammar.advance).lexeme
          let names ← Grammar.commaSeparated rules'
            (Grammar.consumeName ("Expected identifier after '" ++ keyword ++ "'."))
          return some (ImportFilter.mk filter names)) (fun _ => .within) (fun _ => n) :=
    fun filter hkind => .bindToken (.advance hkind) fun _ =>
      .bindEq (.commaSeparated (by omega) (by omega) fun k hk => .consumeName ..)
        (fun names => .pure fun _ => .some rfl)
  refine .peek fun kind t t' hkind hsame => ?_
  rw [← hsame.kind, hkind]
  dsimp only
  split
  next => exact .pure fun _ => .none
  next filter hfilter =>
    have hsolid : isSolid kind = true := by
      rw [isSolid_iff]
      constructor <;> (rintro rfl; cases hfilter)
    exact hnames filter hsolid

theorem importDeclaration {kind : Token.Kind} (hkind : isSolid kind = true) :
    Tandem H g (.before kind) n (importDeclaration rules) (importDeclaration rules')
      (fun _ => .any) (fun _ => n - 1) := by
  have hb := hr.bound
  have hb' := hr.bound'
  refine .andThen (.advance hkind) <| .bindEq (importPath (by omega) (by omega)) fun path =>
    .bind (.after (.consumeName ..)) <| .bind (importFilter (by omega) (by omega)) <|
    .andThen .eatOptional <| .pure fun h => ?_
  rw [Strict.eq h.1.2, Strict.eq h.2]
  rfl

/-! ## Declarations -/

omit hr hn in
theorem declarationNode?_congr {mods : Modifiers} {t t' u u' : Token} (ht : t.Same t')
    (hu : isSolid t.kind = true → u.Same u') :
    declarationNode? mods t' u' = declarationNode? mods t u := by
  unfold declarationNode?
  rw [← ht.kind]
  split
  case h_3 hkind => rw [(hu (by rw [hkind]; rfl)).kind]
  all_goals rfl

/-- The kinds of tokens that a declaration with a node of a kind starts with. -/
def DeclarationStarts (kind next : Token.Kind) : Tree.Kind → Prop
  | .destructuringDeclaration => kind = .kwVar ∧ next = .leftParen
  | _ => isSolid kind = true

omit hr hn in
theorem declarationNode?_some {mods : Modifiers} {t u : Token} {node : Tree.Kind}
    (h : declarationNode? mods t u = some node) :
    node.isRecovery = false ∧ DeclarationStarts t.kind u.kind node := by
  unfold declarationNode? at h
  split at h
  all_goals rename_i hkind
  case h_3 =>
    rw [hkind]
    obtain rfl := Option.some.inj h
    split
    next hparen => exact ⟨rfl, rfl, eq_of_beq hparen⟩
    next => exact ⟨rfl, rfl⟩
  case h_4 =>
    rw [hkind]
    split at h
    · cases h
      exact ⟨rfl, rfl⟩
    · cases h
  case h_11 => cases h
  all_goals
    cases h
    rw [hkind]
    exact ⟨rfl, rfl⟩

theorem declarationOf {kind next : Token.Kind} {node : Tree.Kind} (mods : Modifiers)
    (hstarts : DeclarationStarts kind next node) :
    Tandem H g (.beforeTwo kind next) n (declarationOf rules mods node)
      (declarationOf rules' mods node) (fun _ => .any) (fun _ => n - 1) := by
  have hbefore : (Spot.beforeTwo kind next).le (.before kind) = true := beq_self_eq_true kind
  unfold Grammar.declarationOf
  split
  · exact .bind ((classDeclaration hr hn hstarts mods).fromSpot hbefore) <|
      .pure fun h => .classDeclStmt h.2
  · exact .bind ((functionDeclaration hr hn hstarts mods).fromSpot hbefore) <|
      .pure fun h => .functionStmt h.2
  · obtain ⟨rfl, rfl⟩ := hstarts
    exact destructuring hr hn
  · exact .bind ((varDeclaration hr hn mods).fromSpot) <| .pure fun h => .varDeclStmt h.2
  · exact (enumDeclaration hr hn hstarts).fromSpot hbefore
  · exact .bindEq ((importDeclaration hr hn hstarts).fromSpot hbefore) fun _ =>
      .pure fun _ => .importsStmt
  · exact (typeDeclaration hr hn hstarts).fromSpot hbefore
  · exact (traitStatement hr hn hstarts mods _ .traitDecl fun h => .traitDeclStmt (.ofList h)).fromSpot
      hbefore
  · exact (traitStatement hr hn hstarts mods _ .interfaceDecl fun h =>
      .interfaceDeclStmt (.ofList h)).fromSpot hbefore
  next =>
    have hsolid : isSolid kind = true := by
      unfold DeclarationStarts at hstarts
      split at hstarts
      · contradiction
      · exact hstarts
    exact (moduleDeclaration hr hn hsolid).fromSpot hbefore

theorem declarationRule : Tandem H g .within n (declarationRule rules) (declarationRule rules')
    (fun _ => .any) (fun _ => n - 1) := by
  refine .startPos fun _ _ _ _ => .checkpoint fun c c' => .bindEq (modifiers hr hn) fun mods =>
    .peekTwo fun kind t t' u u' hkind ht hu => ?_
  rw [declarationNode?_congr ht hu]
  cases hnode : declarationNode? mods t u with
  | none => exact (statementRule hr hn).fromSpot
  | some node =>
    obtain ⟨hsound, hstarts⟩ := declarationNode?_some hnode
    rw [hkind] at hstarts
    exact .bind (.inNodeAt (declarationOf hr hn mods hstarts) hsound) <| .spanFrom fun _ _ =>
      .pure fun h => .stmt h.2

theorem recoveredRule : Tandem H g .within n (recoveredRule rules) (recoveredRule rules')
    (fun _ => .any) (fun _ => n - 1) :=
  .recovering (fun progress => (Twin.synchronize rules progress).stepwise) (declarationRule hr hn)

end

end Tandem

/-! ## The rules tied together -/

theorem Rules.inTandem_upTo {g : Pair} {cap fuel fuel' : Nat} (hfuel : cap ≤ fuel)
    (hfuel' : cap ≤ fuel') : Rules.InTandem g cap (.upTo fuel) (.upTo fuel') := by
  induction cap generalizing fuel fuel' with
  | zero =>
    refine ⟨Rules.lawful_upTo fuel, Nat.succ_pos fuel, Nat.succ_pos fuel', ?_, ?_, ?_, ?_, ?_, ?_,
      ?_, ?_, ?_, ?_⟩
    all_goals
      intro H n hn
      obtain rfl : n = 0 := Nat.le_zero.1 hn
      exact .starved ((Rules.lawful_upTo fuel).alike _).stepwise
  | succ cap ih =>
    obtain ⟨fuel, rfl⟩ : ∃ k, fuel = k + 1 := ⟨fuel - 1, by omega⟩
    obtain ⟨fuel', rfl⟩ : ∃ k, fuel' = k + 1 := ⟨fuel' - 1, by omega⟩
    have hr := ih (Nat.le_of_succ_le_succ hfuel) (Nat.le_of_succ_le_succ hfuel')
    exact {
      lawful := Rules.lawful_upTo (fuel + 1)
      bound := Nat.lt_succ_of_le hfuel
      bound' := Nat.lt_succ_of_le hfuel'
      expression := fun hn => .exprRule hr hn
      power := fun hn => .powerRule hr hn
      unary := fun hn => .unaryRule hr hn
      type := fun hn => .typeRule hr hn
      basicType := fun hn => .basicTypeRule hr hn
      pattern := fun hn => .patternRule hr hn
      ifStatement := fun hn => .ifRule hr hn rfl
      statement := fun hn => .statementRule hr hn
      declaration := fun hn => .declarationRule hr hn
      recovered := fun hn => .recoveredRule hr hn }

end LimitSyntax.Grammar
