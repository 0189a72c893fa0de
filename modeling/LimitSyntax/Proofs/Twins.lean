import LimitSyntax.Proofs.Candid
import LimitSyntax.Proofs.Seams

/-!
# Lawful parsers

Every rule of the grammar is made of the operations of `Alike`, it stops alike in front of whatever
may stand behind it (`Settles`), and it reports as a rule should (`Reports`). All three go by the
text of the rule, so they are shown together (`Grammar.Twin`): a lemma for each operation, and then
one for each rule. A rule has closed what it opened before it stops (`Grammar.Shuts`,
`Grammar.Opens`).
-/

namespace LimitSyntax.Grammar

open Ast

/-- `p` and `q` are made of the same operations, `p` settles under the outlook, and it reports as a
rule should from a place `K`. If a token is given, then it was the next one, and nothing was
reported since then. -/
structure Twin (w : Option Token) (K : Input → State → Prop) (o : Outlook) {α : Type} (e : α → α)
    (p q : Parse α) : Prop where
  alike : Alike e p q
  settles : ∀ g ts, Settles g o ts p
  reports : Reports w K p

/-- So they do in front of the token `x` of a part. -/
structure TwinAt (K : Input → State → Prop) (o : Outlook) (x : Token) {α : Type} (e : α → α)
    (p q : Parse α) : Prop where
  alike : Alike e p q
  settles : ∀ g ts, Settles g o (x :: ts) p
  reports : Reports none K p

/-- Nor do they stop where a part ends: something is closed there that was opened in it. -/
structure Shuts (o : Outlook) {α : Type} (e : α → α) (p q : Parse α) : Prop extends
    Twin none Anywhere o e p q where
  stuck : ∀ g, Stuck g o [] p

/-- A parser that is its own twin, wherever it starts. -/
abbrev Lawful (o : Outlook) {α : Type} (p : Parse α) : Prop := Twin none Anywhere o id p p

/-- A parser that is its own twin and does not stop where a part ends. -/
abbrev Sealed (o : Outlook) {α : Type} (p : Parse α) : Prop := Shuts o id p p

/-- The token is the next one. -/
def Facing (x : Token) (i : Input) (s : State) : Prop := i.next s = x

namespace Facing

variable {x : Token} {i : Input} {s : State}

theorem kind_eq (h : Facing x i s) : (i.next s).kind = x.kind := congrArg Token.kind h

/-- A token that is next and not the end is a token of the parse. -/
theorem mem (h : Facing x i s) (heof : i.eof.kind = .eof) (hx : x.kind ≠ .eof) :
    x ∈ s.read.toList ++ s.rest := by
  subst h
  rw [Input.next] at hx ⊢
  cases hrest : s.rest with
  | nil =>
    rw [hrest] at hx
    exact absurd heof hx
  | cons t rest => exact List.mem_append_right _ List.mem_cons_self

/-- Behind the next token the second one is next. -/
theorem advance (h : Facing x i s) (heof : i.eof.kind = .eof) (hx : x.kind ≠ .eof) {u : State}
    {t y : Token} (hsecond : s.rest[1]?.getD i.eof = y)
    (hexec : exec Grammar.advance i s = (.ok t, u)) : Facing y i u := by
  subst h hsecond
  rw [exec_advance] at hexec
  rw [Input.next] at hx
  cases hrest : s.rest with
  | nil =>
    rw [hrest] at hx
    exact absurd heof hx
  | cons v rest =>
    rw [hrest] at hexec hx
    have hkind : v.kind ≠ .eof := hx
    simp only [hkind, if_false] at hexec
    cases hexec
    rfl

end Facing

namespace Twin

section
variable {α β : Type} {w : Option Token} {K K' : Input → State → Prop} {o o' : Outlook} {x : Token}
  {d : β → β} {e : α → α} {p q p' q' : Parse α}

theorem stepwise (h : Twin w K o e p q) : Stepwise p := h.alike.stepwise

theorem le (h : Twin w K o' e p q) (hle : o.le o' = true) : Twin w K o e p q :=
  ⟨h.alike, fun g ts => (h.settles g ts).le hle, h.reports⟩

/-- What does not stop where a part ends need not look out. -/
theorem inner (h : Twin w K o e p q) : Twin w K .within e p q := h.le o.within_le

theorem shut (h : Shuts o e p q) : Twin none Anywhere o e p q := h.toTwin

/-- What is lawful anywhere is so at any place, whatever was the next token before. -/
theorem here (h : Twin none Anywhere o e p q) : Twin w K o e p q :=
  ⟨h.alike, h.settles, .here h.reports⟩

theorem weaken (h : Twin w K o e p q) (hK : ∀ {i s}, K' i s → K i s) : Twin w K' o e p q :=
  ⟨h.alike, h.settles, h.reports.weaken hK⟩

theorem pure (a : α) : Twin w K o e (Pure.pure a) (Pure.pure (e a)) :=
  ⟨.pure a, fun _ _ => .pure a, .quiet (.pure a)⟩

/-! ## Parsers in a row -/

/-- Of a value, and of the place where it is yielded, `V` is known. -/
theorem bindTo {p q : Parse β} {f f' : β → Parse α} (V : β → Input → State → Prop)
    (hp : Twin w K o d p q)
    (hV : ∀ {i s a t}, i.eof.kind = .eof → K i s → exec p i s = (.ok a, t) → V a i t)
    (hf : ∀ a, Twin none (V a) o e (f a) (f' (d a))) : Twin w K o e (p >>= f) (q >>= f') where
  alike := .bind hp.alike fun a => (hf a).alike
  settles g ts := .bind (hp.settles g ts) (fun a us => (hf a).settles g us) hp.stepwise fun a =>
    (hf a).stepwise
  reports := .bindTo V hp.reports hV fun a => (hf a).reports

theorem bind {p q : Parse β} {f f' : β → Parse α} (hp : Twin w K o d p q)
    (hf : ∀ a, Twin none Anywhere o e (f a) (f' (d a))) : Twin w K o e (p >>= f) (q >>= f') :=
  .bindTo (fun _ => Anywhere) hp (fun _ _ _ => trivial) hf

/-- A sequence at a place that is not left. -/
theorem bindAt {p q : Parse β} {f f' : β → Parse α} (hK : Lasting K) (hp : Twin w K o d p q)
    (hf : ∀ a, Twin none K o e (f a) (f' (d a))) : Twin w K o e (p >>= f) (q >>= f') :=
  .bindTo (fun _ => K) hp (fun heof hs hexec => hK (hp.stepwise.run heof hexec) hs) hf

/-- The token that is yielded is known from then on. -/
theorem remember {d : Token → Token} {p q : Parse Token} {f f' : Token → Parse α}
    (V : Token → Input → State → Prop) (hp : Twin w K o d p q) (hyields : YieldsNext p)
    (hV : ∀ {i s t u}, i.eof.kind = .eof → K i s → exec p i s = (.ok t, u) → V t i u)
    (hf : ∀ t, Twin (some t) (V t) o e (f t) (f' (d t))) : Twin w K o e (p >>= f) (q >>= f') where
  alike := .bind hp.alike fun a => (hf a).alike
  settles g ts := .bind (hp.settles g ts) (fun a us => (hf a).settles g us) hp.stepwise fun a =>
    (hf a).stepwise
  reports := .remember V hp.reports hyields hV fun a => (hf a).reports

/-- Nothing is reported at a place that is not left. -/
theorem keep {t : Token} {p q : Parse β} {f f' : β → Parse α} (hK : Lasting K)
    (hp : Twin none Anywhere o d p q) (hsilent : Silent p)
    (hf : ∀ a, Twin (some t) K o e (f a) (f' (d a))) :
    Twin (some t) K o e (p >>= f) (q >>= f') where
  alike := .bind hp.alike fun a => (hf a).alike
  settles g ts := .bind (hp.settles g ts) (fun a us => (hf a).settles g us) hp.stepwise fun a =>
    (hf a).stepwise
  reports := .keep (fun _ => K) (.here hp.reports) hsilent
    (fun heof hs hexec => hK (hp.stepwise.run heof hexec) hs) fun a => (hf a).reports

/-- Either way, with what is known then. -/
theorem iteOf {c : Prop} [Decidable c] (h : c → Twin w K o e p q) (h' : ¬ c → Twin w K o e p' q') :
    Twin w K o e (if c then p else p') (if c then q else q') := by
  split
  next hc => exact h hc
  next hc => exact h' hc

theorem ite {c : Prop} [Decidable c] (h : Twin w K o e p q) (h' : Twin w K o e p' q') :
    Twin w K o e (if c then p else p') (if c then q else q') :=
  .iteOf (fun _ => h) fun _ => h'

/-- Two ways to a value, and what follows both. -/
theorem branch {c : Prop} [Decidable c] {p q p' q' : Parse β} {f f' : β → Parse α}
    (h : Twin w K o d p q) (h' : Twin w K o d p' q')
    (hf : ∀ b, Twin none Anywhere o e (f b) (f' (d b))) :
    Twin w K o e (if c then p >>= f else p' >>= f) (if c then q >>= f' else q' >>= f') :=
  .ite (h.bind hf) (h'.bind hf)

/-- Something done on a condition, and what follows in any case. -/
theorem guarded {c : Prop} [Decidable c] {p q : Parse β} {k k' : Parse α} (h : Twin w K o d p q)
    (hk : Twin none Anywhere o e k k') :
    Twin w K o e (if c then p >>= fun _ => k else k) (if c then q >>= fun _ => k' else k') :=
  .ite (h.bind fun _ => hk) hk.here

theorem map {f : α → β} (h : Twin w K o id p q) : Twin w K o id (f <$> p) (f <$> q) := by
  rw [map_eq_pure_bind, map_eq_pure_bind]
  exact h.bind fun a => .pure (f a)

/-! ## Looking -/

/-- What follows looks at anything but the tokens and the errors. -/
theorem get {f f' : State → Parse α} (hblind : ∀ s ts, f (s.onto ts) = f s)
    (hdeaf : ∀ s c, f (s.withErrors c) = f s) (hf : ∀ s, Twin w K o e (f s) (f' s.bare)) :
    Twin w K o e (MonadState.get >>= f) (MonadState.get >>= f') where
  alike := .get hblind fun s => (hf s).alike
  settles g ts := .get hblind (fun s => (hf s).settles g ts) fun s => (hf s).stepwise
  reports := .getAt hdeaf fun s => (hf s).reports.weaken And.left

/-- What follows knows the next token. -/
theorem peek {f f' : Token → Parse α} (hf : ∀ x, TwinAt (Facing x) o x e (f x) (f' x.bare))
    (hseam : ∀ g, (∀ x, Stepwise (f x)) → Settles g o [] (Grammar.peek >>= f)) :
    Twin w K o e (Grammar.peek >>= f) (Grammar.peek >>= f') where
  alike := .bind .peek fun x => (hf x).alike
  settles g ts := by
    have hf' : ∀ x, Stepwise (f x) := fun x => (hf x).alike.stepwise
    cases ts with
    | nil => exact hseam g hf'
    | cons x ts => exact .peek_cons ((hf x).settles g ts) hf'
  reports := by
    refine .bindTo Facing (.quiet .peek) (fun _ _ hexec => ?_) fun x => (hf x).reports
    cases hexec
    rfl

/-- What follows does not tell apart the tokens that may be next where a part ends. -/
theorem peekSame {f f' : Token → Parse α} (hf : ∀ x, Twin none Anywhere o e (f x) (f' x.bare))
    (hseam : ∀ g, o.Admits g [] → f g.next = f g.close) :
    Twin w K o e (Grammar.peek >>= f) (Grammar.peek >>= f') :=
  .peek (fun x => ⟨(hf x).alike, fun g ts => (hf x).settles g (x :: ts), .here (hf x).reports⟩)
    fun g => .peek_nil (hseam g) ((hf g.close).settles g [])

theorem peekInside {f f' : Token → Parse α}
    (hf : ∀ x, Twin none Anywhere .within e (f x) (f' x.bare)) :
    Twin w K .within e (Grammar.peek >>= f) (Grammar.peek >>= f') :=
  .peek (fun x => ⟨(hf x).alike, fun g ts => (hf x).settles g (x :: ts), .here (hf x).reports⟩)
    fun _ hf' => (Stuck.within_nil (.bind Alike.peek.stepwise hf')).settles

theorem checkNext (kind : Token.Kind)
    (h : autoParam (Outlook.type.sees kind = false) Rat.reduced._autoParam) :
    Twin w K .within id (checkAt 1 kind) (checkAt 1 kind) where
  alike := .checkAt 1 kind
  settles _ ts := by
    cases ts with
    | nil => exact (Stuck.within_nil (Alike.checkAt 1 kind).stepwise).settles
    | cons x ts => exact .checkAt_one h
  reports := .quiet (.checkAt 1 kind)

theorem previous : Twin w K o Token.bare previous previous :=
  ⟨.previous, fun _ _ => .previous, .quiet .previous⟩

theorem checkpoint : Twin w K o (fun _ => none) checkpoint checkpoint :=
  ⟨.checkpoint, fun _ _ => .look (v := fun _ s => s.tree.map (·.checkpoint)) (fun _ _ => rfl)
    fun _ _ => rfl, .quiet .checkpoint⟩

theorem check (kind : Token.Kind)
    (h : autoParam (o.sees kind = false) Rat.reduced._autoParam) :
    Twin w K o id (check kind) (check kind) :=
  ⟨.check kind, fun _ _ => .check h, .quiet (.check kind)⟩

/-- What is read if the next token is of some kind. -/
theorem checked {kind : Token.Kind} (hp : Twin none (Before (· = kind)) o e p q)
    (hq : Twin none Anywhere o e p' q')
    (h : autoParam (o.sees kind = false) Rat.reduced._autoParam) :
    Twin w K o e (do if ← Grammar.check kind then p else p')
      (do if ← Grammar.check kind then q else q') := by
  refine .bindTo (d := id) (fun b i s => b = true → Before (· = kind) i s) (.check kind h)
    (fun _ _ hexec => before_of_check hexec) fun b => ?_
  cases b with
  | false => exact hq.here
  | true => exact hp.weaken fun hnext => hnext rfl

theorem atEnd (h : autoParam (o.sees .eof = false) Rat.reduced._autoParam) :
    Twin w K o id atEnd atEnd :=
  check .eof h

/-- A test of the tokens ahead comes out the same, or nothing stops. -/
theorem test {p q : Parse Bool} {v : Input → State → Bool} {f f' : Bool → Parse α}
    (hp : Alike id p q) (hexec : ∀ i s, exec p i s = (.ok (v i s), s))
    (hdeaf : ∀ i s c, v i (s.withErrors c) = v i s)
    (hf : ∀ b, Twin none Anywhere o e (f b) (f' b))
    (hv : ∀ {g ts i s}, i.eof.kind = .eof → g.At s ts → o.Admits g ts →
      Stuck g o ts (f (v i s)) ∨ v i (s.onto (g.right ts)) = v i s) :
    Twin w K o e (p >>= f) (q >>= f') where
  alike := .bind hp fun b => (hf b).alike
  settles g ts := .glance hexec (fun b => (hf b).stepwise) fun heof hs hadmits =>
    (hv heof hs hadmits).imp id fun heq => ⟨congrArg f heq, (hf _).settles g ts⟩
  reports := .bind (.quiet (.look hexec hdeaf)) fun b => (hf b).reports

/-- The second token matters only if the first is of the kind. -/
theorem checkTwo {kind kind' : Token.Kind} {f f' : Bool → Bool → Parse α}
    (hf : ∀ b c, Twin none Anywhere o e (f b c) (f' b c)) (hfalse : ∀ c, f false c = f false false)
    (hsecond : ∀ g (x : Token), x.kind = kind →
      Stuck g o [x] (f true (g.close.kind == kind')) ∨ Outlook.type.sees kind' = false)
    (h : autoParam (o.sees kind = false) Rat.reduced._autoParam) :
    Twin w K o e (Grammar.check kind >>= fun b => checkAt 1 kind' >>= fun c => f b c)
      (Grammar.check kind >>= fun b => checkAt 1 kind' >>= fun c => f' b c) where
  alike := .bind (.check kind) fun b => .bind (.checkAt 1 kind') fun c => (hf b c).alike
  settles g _ := .checkTwo h (fun b c us => (hf b c).settles g us) hfalse (hsecond g) fun b c =>
    (hf b c).stepwise
  reports := .bind (.quiet (.check kind)) fun b => .bind (.quiet (.checkAt 1 kind')) fun c =>
    (hf b c).reports

theorem startPos : Twin w K o id startPos startPos :=
  ⟨.startPos, fun _ _ => .startPos, .quiet .startPos⟩

theorem spanFrom (start : Nat) : Twin w K o id (spanFrom start) (spanFrom start) :=
  ⟨.spanFrom start, fun _ _ => .spanFrom start, .quiet (.spanFrom start)⟩

/-! ## Reading -/

theorem advance : Twin w K o Token.bare advance advance :=
  ⟨.advance, fun _ _ => .advance, .quiet .advance⟩

theorem eat (kind : Token.Kind)
    (h : autoParam (o.sees kind = false ∨ kind = .rightParen) Rat.reduced._autoParam) :
    Twin w K o id (eat kind) (eat kind) :=
  ⟨.eat kind, fun _ _ => .eat h, .quiet (.eat kind)⟩

theorem after (kind : Token.Kind) (hp : Twin none Anywhere o id p q)
    (h : autoParam (o.sees kind = false ∨ kind = .rightParen) Rat.reduced._autoParam) :
    Twin w K o id (after kind p) (after kind q) :=
  .bind (eat kind h) fun _ => .ite (.bind hp fun _ => .pure _) (.pure _)

/-! ## Reports -/

/-- What is wrong was noted before. -/
theorem giveUp : Twin w Noted o e giveUp giveUp := ⟨.giveUp, fun _ _ => .giveUp, .giveUp⟩

theorem spend : Twin w K o id spend spend := ⟨.spend, fun _ _ => .spend, .quiet .spend⟩

theorem noteError (description : String) (h : ∀ {i s}, i.eof.kind = .eof → K i s →
      s.NotesNeatly { s with lastError := some description }) :
    Twin w K o id (modify ({ · with lastError := some description }))
      (modify ({ · with lastError := some description })) where
  alike := .noteError description
  settles _ _ := .change (fun _ => rfl) fun _ _ => rfl
  reports := .note (fun _ _ => .single (.context ..)) (fun _ _ => rfl) h

theorem reportAt {t : Token} {description : String} (hcap : description ≠ tooManyErrors)
    (h : description ∉ unclosedBodies)
    (hline : ∀ {i s}, K i s → s.Tidy → Text.OneLine description) :
    Twin (some t) K o id (reportAt t description) (reportAt t.bare description) :=
  ⟨.reportAt t description hcap, fun _ _ => .reportAt t description,
    .reportAt t description h hline⟩

/-- The one report that comes late. -/
theorem reportLate (t : Token) : Twin w (Passed t) o id
    (Grammar.reportAt t "Invalid assignment target.")
    (Grammar.reportAt t.bare "Invalid assignment target.") :=
  ⟨.reportAt t _, fun _ _ => .reportAt t _, .reportLate t⟩

-- a text that quotes a token is said where the token stands on one line
section
variable {description : String} (hcap : description ≠ tooManyErrors)
  (h : description ∉ unclosedBodies) (hline : ∀ {i s}, K i s → s.Tidy → Text.OneLine description)
include hcap h hline

theorem consumeQuoting (kind : Token.Kind) :
    Twin w K o Token.bare (consume kind description) (consume kind description) :=
  ⟨.consume description hcap kind, fun _ _ => .consume kind description, .consume h hline kind⟩

theorem consumeNameQuoting :
    Twin w K o id (consumeName description) (consumeName description) :=
  .bind (consumeQuoting hcap h hline _) fun _ => .pure _

end

section
variable {description : String} (h : Remark description)
include h

theorem failOf : Twin w K o e (fail description) (fail description) :=
  ⟨.fail description h.capless, fun _ _ => (Stuck.fail description).settles,
    .fail h.apart fun _ _ => h.oneLine⟩

theorem consumeOf (kind : Token.Kind) :
    Twin w K o Token.bare (consume kind description) (consume kind description) :=
  .consumeQuoting h.capless h.apart (fun _ _ => h.oneLine) kind

theorem consumeNameOf : Twin w K o id (consumeName description) (consumeName description) :=
  .consumeNameQuoting h.capless h.apart fun _ _ => h.oneLine

end

-- what is said here is written out in the rules
section
variable (cs : List Char) (h : autoParam (Remark (String.ofList cs)) Rat.reduced._autoParam)
include h

theorem reportHere :
    Twin w K o id (reportHere (String.ofList cs)) (reportHere (String.ofList cs)) :=
  ⟨.reportHere _ h.capless, fun _ _ => (Stuck.reportHere _).settles,
    .reportHere h.apart fun _ _ => h.oneLine⟩

theorem fail : Twin w K o e (fail (String.ofList cs)) (fail (String.ofList cs)) := .failOf h

theorem consume (kind : Token.Kind) :
    Twin w K o Token.bare (consume kind (String.ofList cs)) (consume kind (String.ofList cs)) :=
  .consumeOf h kind

theorem consumeClose (kind : Token.Kind) :
    Twin w K o id (consumeClose kind (String.ofList cs)) (consumeClose kind (String.ofList cs)) :=
  ⟨.consumeClose _ h.capless kind, fun _ _ => .consumeClose kind _, .consumeClose kind h⟩

theorem consumeName :
    Twin w K o id (consumeName (String.ofList cs)) (consumeName (String.ofList cs)) :=
  .consumeNameOf h

end

/-! ## The tree, bodies and recovery -/

theorem describe {text : String} (h : ∀ {i s}, K i s → s.Tidy → Text.OneLine text) :
    Twin w K o id (describe text) (describe text) where
  alike := .describe text
  settles _ _ := .onTree _
  reports := .onTree (.describe text) Tree.Builder.mem_notes_describe fun hK htidy =>
    .inr (.description (h hK htidy))

theorem markError (cs : List Char) (h : autoParam ('\n' ∉ cs) Rat.reduced._autoParam) :
    Twin w K o id (Grammar.onTree (·.markError (String.ofList cs)))
      (Grammar.onTree (·.markError (String.ofList cs))) where
  alike := .markError _
  settles _ _ := .onTree _
  reports := .onTree (.markError _) Tree.Builder.mem_notes_markError fun _ _ => .inr (.error (by
    rwa [Text.OneLine, String.toList_ofList]))

/-- A name that is read and describes the current node. -/
theorem namedOf {description : String} {f f' : String → Parse α} (h : Remark description)
    (hf : ∀ name, Twin none Anywhere o e (f name) (f' name)) :
    Twin w K o e
      (do
        let name ← Grammar.consumeName description
        Grammar.describe name
        f name)
      (do
        let name ← Grammar.consumeName description
        Grammar.describe name
        f' name) := by
  refine .bindTo (d := id) (fun name i s => ∃ t, Written t i s ∧ t.lexeme = name) (.consumeNameOf h)
    (fun heof _ hexec => ?_) fun name => .bind (d := id) (.describe fun ⟨t, ht, hname⟩ htidy => ?_)
      fun _ => hf name
  · obtain ⟨t, u, hconsume, hname⟩ := exec_bind_eq_ok hexec
    cases hname
    exact ⟨t, written_of_consume rfl heof hconsume, rfl⟩
  · rw [← hname]
    exact ht.oneLine htidy

theorem named (cs : List Char) {f f' : String → Parse α}
    (hf : ∀ name, Twin none Anywhere o e (f name) (f' name))
    (h : autoParam (Remark (String.ofList cs)) Rat.reduced._autoParam) :
    Twin w K o e
      (do
        let name ← Grammar.consumeName (String.ofList cs)
        Grammar.describe name
        f name)
      (do
        let name ← Grammar.consumeName (String.ofList cs)
        Grammar.describe name
        f' name) :=
  .namedOf h hf

/-- A node that starts at a place which has nothing to do with the tree. -/
theorem inNodeAtOf (hK : ∀ {i s f}, K i s → K i (s.mapTree f)) (c : Option Tree.Checkpoint)
    (kind : Tree.Kind) (h : Twin none K o e p q) :
    Twin w K o e (inNodeAt c kind p) (inNodeAt none kind q) :=
  ⟨.inNodeAt c kind h.alike, fun g ts => (h.settles g ts).inNodeAt h.stepwise c kind,
    .inNodeAt hK c kind h.reports⟩

theorem inNodeOf (hK : ∀ {i s f}, K i s → K i (s.mapTree f)) (kind : Tree.Kind)
    (h : Twin none K o e p q) : Twin w K o e (inNode kind p) (inNode kind q) :=
  .inNodeAtOf hK none kind h

theorem inNodeAt (c : Option Tree.Checkpoint) (kind : Tree.Kind)
    (h : Twin none Anywhere o e p q) :
    Twin w K o e (inNodeAt c kind p) (inNodeAt none kind q) :=
  .here (.inNodeAtOf id c kind h)

theorem inNode (kind : Tree.Kind) (h : Twin none Anywhere o e p q) :
    Twin w K o e (inNode kind p) (inNode kind q) :=
  .inNodeAt none kind h

theorem deeper (h : Twin none Anywhere o e p q) :
    Twin none Anywhere o e (deeper p) (deeper q) :=
  ⟨.deeper h.alike, fun g ts => (h.settles g ts).deeper h.stepwise, .deeper h.reports⟩

theorem concurrently (h : Twin none Anywhere o e p q) :
    Twin w K o e (concurrently p) (concurrently q) :=
  ⟨.concurrently h.alike, fun g ts => (h.settles g ts).concurrently, .concurrently h.reports⟩

theorem recovering {skip skip' : Bool → Parse Unit}
    (hskip : ∀ progress, Twin none Anywhere .within id (skip progress) (skip' progress))
    (h : Twin none Anywhere .within id p q) :
    Twin none Anywhere .within id (recovering skip p) (recovering skip' q) where
  alike := .recovering (fun progress => (hskip progress).alike) h.alike
  settles g ts := .recovering (fun progress us => (hskip progress).settles g us)
    (fun progress => (hskip progress).stepwise) (h.settles g ts) h.stepwise
  reports := .recovering (fun progress => (hskip progress).reports) h.reports

section
variable {fuel : Nat} {kind description : String} {brace : Token}

/-- A body is entered behind its brace, and told that its other brace is missing at its end. -/
theorem bodyOf {p q : Parse β} {f f' : β → Bool → Parse α}
    (hbody : Body (.upTo fuel) kind description p) (hp : Twin none Anywhere o' d p q)
    (hf : ∀ a closed,
      Twin none (fun i s => closed = false → Noted i s) o e (f a closed) (f' (d a) closed))
    (hsettles : ∀ g ts, Settles g o ts (do
      let a ← p
      f a (← closeBlock description))) :
    Twin w (Behind brace) o e
      (inBody kind brace do
        let a ← p
        f a (← closeBlock description))
      (inBody kind brace.bare do
        let a ← q
        f' a (← closeBlock description)) where
  alike := .inBody kind brace <| .bind hp.alike fun a =>
    .bind (d := id) (.closeBlock _ hbody.capless) fun closed => (hf a closed).alike
  settles g ts := (hsettles g ts).inBody (.bind hp.stepwise fun a =>
    .bind (.closeBlock description) fun closed => (hf a closed).stepwise) kind brace
  reports := .body hbody hp.reports fun a closed => (hf a closed).reports

theorem body {p q : Parse β} {f f' : β → Bool → Parse α}
    (hbody : Body (.upTo fuel) kind description p) (hp : Twin none Anywhere o d p q)
    (hf : ∀ a closed,
      Twin none (fun i s => closed = false → Noted i s) o e (f a closed) (f' (d a) closed)) :
    Twin w (Behind brace) o e
      (inBody kind brace do
        let a ← p
        f a (← closeBlock description))
      (inBody kind brace.bare do
        let a ← q
        f' a (← closeBlock description)) :=
  .bodyOf hbody hp hf fun g ts => .bind (hp.settles g ts)
    (fun a _ => .bind (.closeBlock description) (fun closed vs => (hf a closed).settles g vs)
      (.closeBlock description) fun closed => (hf a closed).stepwise)
    hp.stepwise fun a => .bind (.closeBlock description) fun closed => (hf a closed).stepwise

/-- A body inside of which another one is counted as open. -/
theorem deepBody (hbody : Body (.upTo fuel) kind description do
      modify fun s => { s with depth := s.depth + 1 }
      p)
    (hp : Twin none Anywhere o e p q) :
    Twin w (Behind brace) o e
      (inBody kind brace (Grammar.deeper do
        let a ← p
        let _ ← closeBlock description
        return a))
      (inBody kind brace.bare (Grammar.deeper do
        let a ← q
        let _ ← closeBlock description
        return a)) where
  alike := .inBody kind brace <| .deeper <| .bind hp.alike fun a =>
    .bind (d := id) (.closeBlock _ hbody.capless) fun _ => .pure a
  settles g ts := by
    have hrest (a : α) : Stepwise (do let _ ← closeBlock description; return a) :=
      .bind (.closeBlock description) fun _ => .pure a
    have hinside : Stepwise (do let a ← p; let _ ← closeBlock description; return a) :=
      .bind hp.stepwise hrest
    refine Settles.inBody (.deeper (.bind (hp.settles g ts) (fun a _ => ?_) hp.stepwise hrest)
      hinside) (.deeper hinside) kind brace
    exact .bind (.closeBlock description) (fun _ _ => .pure a) (.closeBlock description) fun _ =>
      .pure a
  reports := .deepBody hbody hp.reports

/-- A body whose opening brace comes first. -/
theorem behindBraceOf {before : String} {f f' : Token → Parse α} (h : Remark before)
    (hf : ∀ brace, Twin none (Behind brace) o e (f brace) (f' brace.bare)) :
    Twin w K o e (Grammar.consume .leftBrace before >>= f)
      (Grammar.consume .leftBrace before >>= f') :=
  .bindTo Behind (.consumeOf h _) (fun heof _ hexec => behind_of_consume heof hexec) hf

theorem behindBrace (cs : List Char) {f f' : Token → Parse α}
    (hf : ∀ brace, Twin none (Behind brace) o e (f brace) (f' brace.bare))
    (h : autoParam (Remark (String.ofList cs)) Rat.reduced._autoParam) :
    Twin w K o e (Grammar.consume .leftBrace (String.ofList cs) >>= f)
      (Grammar.consume .leftBrace (String.ofList cs) >>= f') :=
  .behindBraceOf h hf

end

/-! ## Loops -/

theorem repeatAt {σ : Type} {turn turn' : σ → Parse (σ × Bool)} (hK : Lasting K)
    (h : ∀ x, Twin none K o id (turn x) (turn' x)) (bound : Nat) (x : σ) :
    Twin none K o id (repeatUpTo turn bound x) (repeatUpTo turn' bound x) where
  alike := .repeatUpTo (fun x => (h x).alike) bound x
  settles g _ := .repeatUpTo (fun x us => (h x).settles g us) (fun x => (h x).stepwise) bound x
  reports := .repeatUpTo hK (fun x => (h x).reports) bound x

theorem repeatUpTo {σ : Type} {turn turn' : σ → Parse (σ × Bool)}
    (h : ∀ x, Twin none Anywhere o id (turn x) (turn' x)) (bound : Nat) (x : σ) :
    Twin none Anywhere o id (repeatUpTo turn bound x) (repeatUpTo turn' bound x) :=
  .repeatAt lasting_anywhere h bound x

/-- Where commas are looked for, none may be next. -/
theorem commaSeparatedAt (hK : Lasting K) (rules : Rules) (h : Twin none K o id p q)
    (hcomma : autoParam (o.sees .comma = false) Rat.reduced._autoParam) :
    Twin none K o id (commaSeparated rules p) (commaSeparated rules q) := by
  refine .bindAt hK h fun first => .bind (.repeatAt hK (fun items => ?_) rules.bound [first])
    fun _ => .pure _
  exact .bindAt hK (.eat .comma (.inl hcomma)) fun _ => .ite (.bind h fun _ => .pure _) (.pure _)

theorem commaSeparated (rules : Rules) (h : Twin none Anywhere o id p q)
    (hcomma : autoParam (o.sees .comma = false) Rat.reduced._autoParam) :
    Twin none Anywhere o id (commaSeparated rules p) (commaSeparated rules q) :=
  .commaSeparatedAt lasting_anywhere rules h hcomma

theorem commaList (rules : Rules) (close : Token.Kind) (h : Twin none Anywhere .within id p q) :
    Twin none Anywhere .within id (commaList rules close p) (commaList rules close q) := by
  refine .bind (.repeatUpTo (fun ⟨items, comma⟩ => ?_) rules.bound _) fun ⟨_, _⟩ => .pure _
  exact .bind (check close rfl) fun _ => .bind .atEnd fun _ =>
    .ite (.pure _) (.bind h fun _ => .bind (.eat .comma) fun _ => .pure _)

end

end Twin

/-! ## The second token -/

namespace TwinAt

variable {α β : Type} {K : Input → State → Prop} {o : Outlook} {x : Token} {d : β → β} {e : α → α}
  {p q : Parse α}

theorem of (h : Twin none Anywhere o e p q) : TwinAt K o x e p q :=
  ⟨h.alike, fun g ts => h.settles g (x :: ts), .here h.reports⟩

/-- What goes by the place. -/
theorem on (h : Twin none K o e p q) : TwinAt K o x e p q :=
  ⟨h.alike, fun g ts => h.settles g (x :: ts), h.reports⟩

theorem bind {p q : Parse β} {f f' : β → Parse α} (hp : TwinAt K o x d p q)
    (hf : ∀ a, Twin none Anywhere o e (f a) (f' (d a))) : TwinAt K o x e (p >>= f) (q >>= f') where
  alike := .bind hp.alike fun a => (hf a).alike
  settles g ts := .bind (hp.settles g ts) (fun a us => (hf a).settles g us) hp.alike.stepwise
    fun a => (hf a).stepwise
  reports := .bind hp.reports fun a => (hf a).reports

theorem inNodeAt (c : Option Tree.Checkpoint) (kind : Tree.Kind) (h : TwinAt Anywhere o x e p q) :
    TwinAt K o x e (inNodeAt c kind p) (inNodeAt none kind q) :=
  ⟨.inNodeAt c kind h.alike, fun g ts => (h.settles g ts).inNodeAt h.alike.stepwise c kind,
    .here (.inNodeAt id c kind h.reports)⟩

theorem inNode (kind : Tree.Kind) (h : TwinAt Anywhere o x e p q) :
    TwinAt K o x e (inNode kind p) (inNode kind q) :=
  .inNodeAt none kind h

/-- Unless nothing stops where the second token is behind the part, nothing is asked of it there. -/
theorem second {f f' : Token → Parse α}
    (hf : ∀ y, TwinAt (fun i s => K i s ∧ s.rest[1]?.getD i.eof = y) o x e (f y) (f' y.bare))
    (hseam : ∀ g, Stuck g o [x] (f g.close) ∨ f g.next = f g.close) :
    TwinAt K o x e (peekAt 1 >>= f) (peekAt 1 >>= f') where
  alike := .bind (.peekAt 1) fun y => (hf y).alike
  settles g ts := .second (fun y => (hf y).settles g ts) (fun _ => hseam g) fun y =>
    (hf y).alike.stepwise
  reports := by
    refine .bindTo (fun y i s => K i s ∧ s.rest[1]?.getD i.eof = y) (.quiet (.peekAt 1))
      (fun _ hK hexec => ?_) fun y => (hf y).reports
    cases hexec
    exact ⟨hK, rfl⟩

theorem checkNext (kind : Token.Kind)
    (h : autoParam (Outlook.type.sees kind = false) Rat.reduced._autoParam) :
    TwinAt K o x id (checkAt 1 kind) (checkAt 1 kind) :=
  ⟨.checkAt 1 kind, fun _ _ => .checkAt_one h, .quiet (.checkAt 1 kind)⟩

end TwinAt

/-! ## What is closed -/

/-- One token is not enough for a parser that has to close what it opens with the token. -/
structure Opens (o : Outlook) {α : Type} (e : α → α) (p q : Parse α) : Prop extends
    Twin none Anywhere o e p q where
  stuck : ∀ g (x : Token), x.kind ≠ .eof → Stuck g o [x] p

namespace Opens

variable {α β : Type} {o : Outlook} {d : β → β} {e : α → α} {p q : Parse α}

theorem advance {k k' : Token → Parse α} (hk : ∀ t, Shuts o e (k t) (k' t.bare)) :
    Opens o e (advance >>= k) (Grammar.advance >>= k') where
  toTwin := .bind .advance fun t => (hk t).toTwin
  stuck g x hx := .past fun {i _} _ hs =>
    ⟨x, _, [], hs.exec_advance hx i, hs.take, (hk x).stuck g⟩

theorem stop (h : Opens o id p p) {g : Seam} {x : Token} (hx : x.kind ≠ .eof) : Stuck g o [x] p :=
  h.stuck g x hx

theorem andThen {p q : Parse β} {f f' : β → Parse α} (hp : Opens o d p q)
    (hf : ∀ a, Twin none Anywhere o e (f a) (f' (d a))) : Opens o e (p >>= f) (q >>= f') where
  toTwin := .bind hp.toTwin hf
  stuck g x hx := (hp.stuck g x hx).bind hp.stepwise fun a => (hf a).stepwise

theorem inNode (kind : Tree.Kind) (h : Opens o e p q) :
    Opens o e (inNode kind p) (inNode kind q) where
  toTwin := .inNode kind h.toTwin
  stuck g x hx := (h.stuck g x hx).inNodeAt h.stepwise none kind

end Opens

namespace Shuts

variable {α β : Type} {o : Outlook} {d : β → β} {e : α → α} {p q p' q' : Parse α}

/-- What comes before may stop inside the part only. -/
theorem bind {p q : Parse β} {f f' : β → Parse α} (hp : Twin none Anywhere .within d p q)
    (hf : ∀ a, Shuts o e (f a) (f' (d a))) : Shuts o e (p >>= f) (q >>= f') where
  alike := .bind hp.alike fun a => (hf a).alike
  settles g ts := .closing (Q := fun _ => True) (fun _ _ _ _ _ => trivial) (hp.settles g ts)
    (fun a us _ => (hf a).settles g us) (fun a _ => (hf a).stuck g) hp.stepwise fun a =>
      (hf a).stepwise
  reports := .bind hp.reports fun a => (hf a).reports
  stuck g := .behind (Q := fun _ => True) (fun _ _ _ _ _ => trivial) hp.stepwise
    (fun a => (hf a).stepwise) fun a _ => (hf a).stuck g

/-- What comes after goes by the outlook. -/
theorem andThen {p q : Parse β} {f f' : β → Parse α} (hp : Shuts o d p q)
    (hf : ∀ a, Twin none Anywhere o e (f a) (f' (d a))) : Shuts o e (p >>= f) (q >>= f') where
  toTwin := .bind hp.toTwin hf
  stuck g := (hp.stuck g).bind hp.stepwise fun a => (hf a).stepwise

theorem ite {c : Prop} [Decidable c] (h : Shuts o e p q) (h' : Shuts o e p' q') :
    Shuts o e (if c then p else p') (if c then q else q') := by
  split
  · exact h
  · exact h'

theorem branch {c : Prop} [Decidable c] {p q p' q' : Parse β} {f f' : β → Parse α}
    (h : Twin none Anywhere .within d p q) (h' : Twin none Anywhere .within d p' q')
    (hf : ∀ b, Shuts o e (f b) (f' (d b))) :
    Shuts o e (if c then p >>= f else p' >>= f) (if c then q >>= f' else q' >>= f') :=
  .ite (.bind h hf) (.bind h' hf)

theorem inNodeAt (c : Option Tree.Checkpoint) (kind : Tree.Kind) (h : Shuts o e p q) :
    Shuts o e (inNodeAt c kind p) (inNodeAt none kind q) where
  toTwin := .inNodeAt c kind h.toTwin
  stuck g := (h.stuck g).inNodeAt h.stepwise c kind

section
variable {kind : Token.Kind} {cs : List Char}

theorem consume {k k' : Token → Parse α} (hk : ∀ t, Twin none Anywhere o e (k t) (k' t.bare))
    (h : autoParam (Remark (String.ofList cs)) Rat.reduced._autoParam) :
    Shuts o e (consume kind (String.ofList cs) >>= k) (consume kind (String.ofList cs) >>= k') where
  toTwin := .bind (.consumeOf h kind) hk
  stuck _ := (Stuck.consume kind _).bind (.consume kind _) fun t => (hk t).stepwise

theorem consumeClose {k k' : Unit → Parse α} (hk : ∀ t, Twin none Anywhere o e (k t) (k' t))
    (h : autoParam (Remark (String.ofList cs)) Rat.reduced._autoParam) :
    Shuts o e (consumeClose kind (String.ofList cs) >>= k)
      (consumeClose kind (String.ofList cs) >>= k') where
  toTwin := .bind (.consumeClose cs h kind) hk
  stuck _ := (Stuck.consumeClose kind _).bind (.consumeClose kind _) fun t => (hk t).stepwise

end

/-- A loop over the parts of a body. -/
theorem bodyLoop {σ : Type} {next next' : σ → Parse (σ × Bool)}
    (h : ∀ x, Twin none Anywhere .within id (next x) (next' x))
    (hmore : ∀ x, Yields (fun r => r.2 = true) (next x)) (bound : Nat) (x : σ) :
    Shuts o id (repeatUpTo (turnOf next) bound x) (repeatUpTo (turnOf next') bound x) where
  alike := .repeatUpTo (fun x => .bind .bodyEnds fun _ => .ite (.pure _) (h x).alike) bound x
  settles g _ := .bodyLoop hmore (fun x us => (h x).settles g us) (fun x => (h x).stepwise) bound x
  reports := by
    refine .repeatUpTo lasting_anywhere (fun x => .bind (.quiet .bodyEnds) fun ends => ?_) bound x
    cases ends with
    | true => exact .quiet (.pure _)
    | false => exact (h x).reports
  stuck _ := .bodyLoop hmore (fun x => (h x).stepwise) bound x

end Shuts

/-! ## Rules -/

/-- What may be next where a rule stops. -/
def Rule.outlook {α : Type} : Rule α → Outlook
  | .type | .basicType => .type
  | .pattern | .recovered => .within
  | _ => .value

/-- The rules are called some number of calls deep, and all of them are lawful. -/
structure Rules.Lawful (rules : Rules) : Prop where
  calls : ∀ {α : Type} (r : Rule α), Twin none r.place r.outlook id (rules.call r) (rules.call r)
  /-- A name is no argument by itself if nothing of the part is left behind it. -/
  named : ∀ (g : Seam) {x : Token}, x.kind = .identifier →
    Stuck g .within [x] (rules.call .expression)
  tied : ∃ n, rules = .upTo n

namespace Rules.Lawful

variable {rules : Rules} {α : Type} {o : Outlook}

theorem alike (hr : rules.Lawful) (r : Rule α) : Grammar.Regular (rules.call r) := (hr.calls r).alike

theorem rule (hr : rules.Lawful) (r : Rule α)
    (hle : autoParam (o.le r.outlook = true) Rat.reduced._autoParam) :
    Twin none r.place o id (rules.call r) (rules.call r) :=
  (hr.calls r).le hle

end Rules.Lawful

end LimitSyntax.Grammar
