import LimitSyntax.Proofs.ParseLossless
import LimitSyntax.Proofs.SparingExprs

/-!
# No bound is met: declarations, recovery and programs

The rules for declarations call other rules and repeat their loops only behind a token. So, by
induction on how deep calls may be nested, a rule that is called with fewer tokens left than that
meets no bound (`Grammar.Sparing.call`), and neither does the reading of a program.
-/

namespace LimitSyntax.Grammar

open Ast

theorem Modifiers.add?_eof (mods : Modifiers) : mods.add? .eof = none := rfl

namespace Sparing

section
variable {rules : Rules} {n N : Nat} (hr : rules.Sparing N)
include hr

/-! ## Variables and functions -/

theorem modifiers (hn : n ≤ N) : Sparing Anywhere n (modifiers rules) fun _ => false := by
  refine .loop hr (fun mods => .peek fun t _ => ?_) _
  dsimp only
  split
  next => exact .pure
  next hsome =>
    refine .sure (.ite (fun _ => ?_) fun _ => ?_) (ne_eof_of_op mods.add?_eof hsome)
    · exact .past (.inNode _ .advance) fun _ _ _ => .pure
    · exact .past .advance fun _ _ _ => .pure

theorem genericNames (hn : n ≤ N) : Sparing Anywhere n (genericNames rules) fun _ => false :=
  .eat (fun _ _ => .bind (.commaSeparated hr (.consumeName _)) fun _ => .bind (.consume ..) fun _ =>
    .pure) .pure

theorem destructuring (hn : n ≤ N) : Sparing Anywhere n (destructuring rules) fun _ => true :=
  .bind .advanceIfAny fun _ => .bind .advanceIfAny fun _ =>
    .bind (.commaSeparated hr (.consumeName _)) fun _ => .past (.consume ..) fun _ _ _ =>
      .bind (.consume ..) fun _ => .bind (hr.call .expression) fun _ => .bind (.eatIfAny _) fun _ =>
        .pure

theorem functionDeclaration (hn : n ≤ N) (mods : Modifiers) :
    Sparing Anywhere n (functionDeclaration rules mods) fun _ => true := by
  refine .look .startPos fun ⟨start, line⟩ => .bind .advanceIfAny fun _ => .past (.consumeName _)
    fun k hk _ => .bind (.describe _) fun _ => .bind (.genericNames hr (by omega)) fun _ =>
      .look (.checkAt 0 _) fun _ => .guarded (.fail _) ?_
  exact .bind (.parameters hr (by omega)) fun ⟨_, _⟩ =>
    .bind (.after fun _ _ => hr.call .type) fun _ => .bind (.eatIfAny _) fun _ =>
      .branch (c := fun _ => false) .pure (.map (.block hr (by omega) ..)) fun _ =>
        .look (.spanFrom _) fun _ => .pure

/-! ## Classes -/

theorem constructorParts (hn : n ≤ N) :
    Sparing Anywhere n (constructorParts rules) fun _ => true :=
  .bind .advanceIfAny fun _ => .past (.parameters hr hn) fun _ _ _ =>
    .bind (.block hr (by omega) ..) fun _ => .pure

omit hr in
theorem Looks.startsField (mods : Modifiers) : Looks (startsField mods) :=
  .bind (.checkAt 0 _) fun _ => .bind (.checkAt 0 _) fun _ => .bind (.checkAt 1 _) fun _ =>
    .bind (.checkAt 1 _) fun _ => .pure _

/-- Every member of a class holds a name. -/
theorem classMember (hn : n ≤ N) (c : ClassDecl) :
    Sparing Anywhere n (classMember rules c) fun _ => true := by
  refine .look .checkpoint fun mark => .bind (.modifiers hr hn) fun mods =>
    .look (.startsField mods) fun _ => .ite (fun _ => ?_) fun _ => .look (.checkAt 0 _) fun _ =>
      .ite (fun _ => ?_) fun _ => .look (.checkAt 0 _) fun _ => .look (.peekAt 0) fun t =>
        .look (.checkAt 1 _) fun _ => .ite (fun _ => ?_) fun _ => .fail _
  · exact .past (.inNodeAt mark _ (.varDeclaration hr hn mods)) fun _ _ _ => .pure
  · exact .past (.inNodeAt mark _ (.functionDeclaration hr hn mods)) fun _ _ _ => .pure
  · exact .look .startPos fun ⟨_, _⟩ => .past (.inNodeAt mark _ (.constructorParts hr hn))
      fun _ _ ⟨_, _⟩ => .look (.spanFrom _) fun _ => .pure

theorem superclass (hn : n ≤ N) : Sparing Anywhere n (superclass rules) fun _ => false :=
  .eat (fun _ _ => .bind (.consumeName _) fun _ =>
    .check (.bind (.arguments hr (by omega)) fun _ => .pure) (.given .pure)) .pure

theorem classDeclaration (hn : n ≤ N) (mods : Modifiers) :
    Sparing Anywhere n (classDeclaration rules mods) fun _ => true := by
  refine .look .startPos fun ⟨start, line⟩ => .bind .advanceIfAny fun _ => .past (.consumeName _)
    fun k hk name => .bind (.describe _) fun _ => .look (.checkAt 0 _) fun _ =>
      .branch (.parameters hr (by omega)) .pure fun ⟨_, _⟩ =>
        .bind (.superclass hr (by omega)) fun ⟨_, _⟩ => .bind (.consume ..) fun brace =>
          .bind (c := fun _ => false) (.inBody _ brace ?_) fun _ =>
            .ite (fun _ => .look (.spanFrom _) fun _ => .pure) fun _ => .pure
  refine .bind (.loop hr (fun c => ?_) _) fun _ => .bind (.closeBlock _) fun _ => .pure
  exact .bodyEnds (.past (.here (.classMember hr (by omega) c)) fun _ _ _ => .pure)

/-! ## Enumerations, aliases, traits and modules -/

theorem enumVariant (hn : n ≤ N) : Sparing Anywhere n (enumVariant rules) fun _ => true :=
  .inNode _ (.past (.consumeName _) fun _ _ _ =>
    .bind (.after (c := fun _ => false) fun _ _ => .bind (hr.call .type) fun _ =>
      .bind (.consume ..) fun _ => .pure) fun _ => .pure)

theorem enumDeclaration (hn : n ≤ N) : Sparing Anywhere n (enumDeclaration rules) fun _ => true := by
  refine .bind .advanceIfAny fun _ => .past (.consumeName _) fun k hk _ => .bind (.describe _)
    fun _ => .bind (.consume ..) fun brace => .bind (c := fun _ => false) (.inBody _ brace ?_) fun _ =>
      .pure
  exact .bind (.commaList hr (.enumVariant hr (by omega))) fun ⟨_, _⟩ => .bind (.closeBlock _)
    fun _ => .look (.checkAt 0 _) fun _ => .guarded .giveUp .pure

theorem typeDeclaration (hn : n ≤ N) : Sparing Anywhere n (typeDeclaration rules) fun _ => true :=
  .bind .advanceIfAny fun _ => .past (.consumeName _) fun _ _ _ => .bind (.consume ..) fun _ =>
    .bind (hr.call .type) fun _ => .bind (.eatIfAny _) fun _ => .pure

theorem traitDeclaration (hn : n ≤ N) (mods : Modifiers) (keyword : String) :
    Sparing Anywhere n (traitDeclaration rules mods keyword) fun _ => true := by
  refine .bind .advanceIfAny fun _ => .look (.checkAt 0 _) fun _ =>
    .guarded (.inNode _ .advanceIfAny) <| .past (.consumeName _) fun k hk _ =>
      .bind (.describe _) fun _ => .bind (.consume ..) fun brace =>
        .bind (c := fun _ => false) (.inBody _ brace (.bind (.loop hr (fun methods => ?_) _) fun _ =>
          .bind (.closeBlock _) fun _ => .pure)) fun _ => .pure
  exact .bodyEnds (.look (.checkAt 0 _) fun _ => .guarded (.fail _)
    (.past (.inNode _ (.functionDeclaration hr (by omega) {})) fun _ _ _ => .pure))

/-- A turn that goes on has read a member of the module, or skipped a token. -/
theorem moduleTurn (hn : n < N) (parts : ModuleParts) :
    Sparing Anywhere n (moduleTurn rules parts) Prod.snd :=
  .bodyEnds (.look (.peekAt 0) fun _ => .past (.nextDeclaration hr hn) fun _ _ _ => .pure)

theorem moduleDeclaration (hn : n ≤ N) :
    Sparing Anywhere n (moduleDeclaration rules) fun _ => true := by
  refine .bind .advanceIfAny fun _ => .past (.consumeName _) fun k hk _ => .bind (.describe _)
    fun _ => .bind (.consume ..) fun brace => .bind (c := fun _ => false) (.inBody _ brace ?_)
      fun _ => .pure
  exact .bind (.deeper (.loop hr (.moduleTurn hr (by omega)) _)) fun _ => .bind (.closeBlock _)
    fun _ => .pure

/-! ## Imports -/

theorem importPath (hn : n ≤ N) : Sparing Anywhere n (importPath rules) fun _ => false := by
  refine .eat (fun _ _ => ?_) (.look (.checkAt 0 _) fun _ => .ite (fun _ => ?_) fun _ =>
    .look (.checkAt 0 _) fun _ => .ite (fun _ => ?_) fun _ => .fail _)
  · exact .bind (.consume ..) fun _ => .bind (.consume ..) fun _ => .pure
  · exact .bind .advanceIfAny fun _ => .pure
  · refine .bind .advanceIfAny fun _ => .bind (.loop hr (fun parts => ?_) _) fun _ => .pure
    exact .eat (fun _ _ => .bind (.consumeName _) fun _ => .pure) .pure

theorem importFilter (hn : n ≤ N) : Sparing Anywhere n (importFilter rules) fun _ => false := by
  refine .look (.peekAt 0) fun t => ?_
  dsimp only
  split
  · exact .pure
  · exact .bind .advanceIfAny fun _ => .bind (.commaSeparated hr (.consumeName _)) fun _ => .pure

theorem importDeclaration (hn : n ≤ N) :
    Sparing Anywhere n (importDeclaration rules) fun _ => false :=
  .bind .advanceIfAny fun _ => .bind (.importPath hr hn) fun _ =>
    .bind (.after fun _ _ => .consumeName _) fun _ => .bind (.importFilter hr hn) fun _ =>
      .bind (.eatIfAny _) fun _ => .pure

/-! ## Declarations -/

theorem declarationOf (hn : n ≤ N) (mods : Modifiers) (node : Tree.Kind) :
    Sparing Anywhere n (declarationOf rules mods node) fun _ => false := by
  unfold Grammar.declarationOf
  split
  · exact .bind (.classDeclaration hr hn mods) fun _ => .pure
  · exact .bind (.functionDeclaration hr hn mods) fun _ => .pure
  · exact .any (.destructuring hr hn)
  · exact .bind (.varDeclaration hr hn mods) fun _ => .pure
  · exact .any (.enumDeclaration hr hn)
  · exact .bind (.importDeclaration hr hn) fun _ => .pure
  · exact .any (.typeDeclaration hr hn)
  · exact .bind (.traitDeclaration hr hn ..) fun ⟨_, _, _⟩ => .pure
  · exact .bind (.traitDeclaration hr hn ..) fun ⟨_, _, _⟩ => .pure
  · exact .any (.moduleDeclaration hr hn)

theorem declarationRule (hn : n ≤ N) :
    Sparing Anywhere n (declarationRule rules) fun _ => false := by
  refine .look .startPos fun ⟨start, line⟩ => .look .checkpoint fun mark =>
    .bind (.modifiers hr hn) fun mods => .look (.peekAt 0) fun first =>
      .look (.peekAt 1) fun second => ?_
  split
  · exact .statementRule hr hn
  · exact .bind (.inNodeAt mark _ (.declarationOf hr hn mods _)) fun _ => .look (.spanFrom _) fun _ =>
      .pure

/-! ## Recovery -/

omit hr in
theorem Looks.synchronized : Looks synchronized :=
  .bind .get fun _ => .bind (.peekAt 0) fun _ => .bind .previous fun _ => .pure _

theorem synchronize (hn : n ≤ N) (progress : Bool) :
    Sparing Anywhere n (synchronize rules progress) fun _ => false := by
  refine .look .get fun _ => .look (.checkAt 0 _) fun _ => .guarded .advanceIfAny <|
    .loop hr (fun _ => ?_) _
  refine .atEnd (.look .synchronized fun _ => .pure) (.look .synchronized fun _ =>
    .ite (fun _ => .pure) fun _ => .at' (.past .advance fun _ _ _ => .pure) ?_)
  exact fun hnext => hnext.2

theorem recoveredRule (hn : n ≤ N) : Sparing Anywhere n (recoveredRule rules) fun _ => false :=
  .recovering (.synchronize hr hn) (.declarationRule hr hn)

/-- A rule calls other rules behind a token only. -/
theorem rule (hn : n ≤ N) {α : Type} (r : Rule α) :
    Sparing Anywhere n (r.parse rules) fun _ => false := by
  cases r with
  | expression => exact .exprRule hr hn
  | power => exact .powerRule hr hn
  | unary => exact .unaryRule hr hn
  | type => exact .typeWith hr hn true
  | basicType => exact .basicTypeRule hr hn
  | pattern => exact .patternRule hr hn
  | ifStatement => exact .any (.ifRule hr hn)
  | statement => exact .statementRule hr hn
  | declaration => exact .declarationRule hr hn
  | recovered => exact .recoveredRule hr hn

end

/-! ## Programs -/

/-- A rule meets no bound if fewer tokens are left than calls may be nested. -/
theorem call {fuel n : Nat} (hn : n < fuel) {α : Type} (r : Rule α) :
    Sparing Anywhere n (r.call fuel) fun _ => false := by
  induction fuel generalizing n α r with
  | zero => exact absurd hn (Nat.not_lt_zero n)
  | succ fuel ih =>
    have hr : Rules.Sparing fuel ⟨fuel + 1, Rule.call fuel⟩ :=
      ⟨Nat.lt_succ_self fuel, fun r _ hk => ih hk r⟩
    exact rule hr (Nat.le_of_lt_succ hn) r

end Sparing

theorem Rules.Sparing.upTo (n : Nat) : (Rules.upTo n).Sparing n :=
  ⟨Nat.lt_succ_self n, fun r _ hk => .call hk r⟩

/-- What a program is made of, before a token is skipped for want of anything else. -/
theorem topDeclaration_eq (rules : Rules) : topDeclaration rules = get >>= fun s =>
    (check .rightBrace >>= fun stray =>
      if stray then strayBrace >>= fun _ => pure none else recoveredRule rules) >>=
        skipUnlessMoved .eof s.position := by
  refine congrArg _ (funext fun s => ?_)
  rw [bind_assoc]
  dsimp only
  refine congrArg _ (funext fun stray => ?_)
  cases stray with
  | false => rfl
  | true => exact (bind_assoc ..).symm

namespace Sparing

section
variable {rules : Rules} {n N : Nat} (hr : rules.Sparing N)

theorem strayBrace : Sparing Anywhere n strayBrace fun _ => false :=
  .inNode _ (.bind (.reportHere _) fun _ =>
    .bind (.change fun _ s => .single (.edit s _ (.markError _))) fun _ => .word)

include hr

/-- A declaration of a program is read, or a token is skipped. -/
theorem topDeclaration (hn : n ≤ N) : Sparing NotAtEnd n (topDeclaration rules) fun _ => true := by
  rw [topDeclaration_eq]
  refine .at' (.unlessStuck (c := fun _ => false) ?_) fun hnext => ⟨hnext, hnext⟩
  exact .look (.checkAt 0 _) fun _ => .ite (fun _ => .bind .strayBrace fun _ => .pure) fun _ =>
    .recoveredRule hr hn

/-- A turn that goes on has read a declaration, or skipped a token. -/
theorem topTurn (hn : n ≤ N) (stmts : List Stmt) :
    Sparing Anywhere n (topTurn rules stmts) Prod.snd := by
  refine .atEnd (.look .get fun _ => .pure) (.look .get fun _ => .ite (fun _ => .pure) fun _ => ?_)
  exact .at' (.past (.topDeclaration hr hn) fun _ _ _ => .pure) fun hnext => hnext.2

theorem topDeclarations (hn : n ≤ N) :
    Sparing Anywhere n (topDeclarations rules) fun _ => false :=
  .bind (.loop hr (.topTurn hr hn) _) fun _ => .pure

end

end Sparing

/-- A program is read by moves alone. -/
theorem moves_topDeclarations (stream : Scan.Stream) (config : Config)
    (errors : Diagnostic.Collector) :
    Moves (.of stream config) (.start stream config errors)
      (exec (topDeclarations (.upTo stream.tokens.length)) (.of stream config)
        (.start stream config errors)).2 :=
  ((Sparing.topDeclarations (.upTo stream.tokens.length) (Nat.le_refl _)).run _ _
    (endOf_kind stream.tokens) trivial (Nat.le_refl _)).1

end LimitSyntax.Grammar
