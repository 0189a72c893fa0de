import LimitSyntax.Proofs.DeclRules
import LimitSyntax.Proofs.Progress
import LimitSyntax.Proofs.StatementNodes

/-!
# What recovery wraps

A declaration that is given up becomes one error node in the node that is open around it. The node
says what is wrong, and holds what was read of the declaration and what was skipped behind it
(`Grammar.recovery_wraps`). To skip is to read tokens (`Grammar.Skips`) up to a place where a
statement is likely to start or the enclosing body ends (`Grammar.Resumable`).
-/

namespace LimitSyntax

/-! ## Tokens in a row -/

namespace Tree.Builder

/-- Tokens that are added leave the nodes around the current one, and what is said of it, alone. -/
theorem foldl_token_eq (b : Builder) (ts : List Token) :
    (ts.foldl Builder.token b).outline = b.outline ∧
      (ts.foldl Builder.token b).top.error = b.top.error := by
  induction ts generalizing b with
  | nil => exact ⟨rfl, rfl⟩
  | cons t ts ih => exact ih (b.token t)

/-- The tokens of a node that was added are all that was added. -/
theorem Adds.leaves_eq {n : Node} {b b' : Builder} (h : b.Adds n b') :
    b'.leaves = b.leaves ++ n.allTokens := by
  rw [leaves, leaves, h.below, Frame.leaves, Frame.leaves, h.elements, leavesOf_append,
    Node.allTokens_eq]
  simp

/-- An error node around what was gained, with the tokens that are skipped in it, is added when it is
closed. -/
theorem Gains.adds_errorNode {ns : List Node} {b b' : Builder} (h : Gains ns b b') (error : String)
    (ts : List Token) :
    ∃ n, b.Adds n (ts.foldl token ((b'.startAt b.checkpoint .errorNode).markError error)).finish ∧
      n.kind = .errorNode ∧ n.error = some error := by
  let marked := (b'.startAt b.checkpoint .errorNode).markError error
  let full := ts.foldl token marked
  obtain ⟨houtline, herror⟩ :
      full.outline = marked.outline ∧ full.top.error = marked.top.error :=
    marked.foldl_token_eq ts
  rw [outline_markError, h.outline_startAt] at houtline
  obtain ⟨hbelow, htop⟩ := finish_of_below (congrArg Prod.snd houtline)
  refine ⟨full.top.node (full.top.span full.offset), ⟨hbelow.trans h.below, ?_, ?_⟩,
    congrArg Prod.fst houtline, herror⟩
  · rw [htop]
    exact h.start
  · rw [htop, Array.toList_push]

end Tree.Builder

namespace Grammar

open Ast
open LimitSyntax.Tree (Builder)

/-! ## Calls -/

/-- In the run of the first parser from one place, the second one is run from another. All that is
run on the way takes steps. -/
inductive Reaches (i : Input) : {α β : Type} → Parse α → State → Parse β → State → Prop where
  | here {α : Type} (p : Parse α) (s : State) : Reaches i p s p s
  | first {α β γ : Type} {p : Parse α} {f : α → Parse γ} {q : Parse β} {s u : State}
      (h : Reaches i p s q u) (hf : ∀ a, Stepwise (f a)) : Reaches i (p >>= f) s q u
  | next {α β γ : Type} {p : Parse α} {f : α → Parse γ} {q : Parse β} {s t u : State} {a : α}
      (hp : Stepwise p) (hexec : exec p i s = (.ok a, t)) (h : Reaches i (f a) t q u) :
      Reaches i (p >>= f) s q u
  | attempt {α β : Type} {p : Parse α} {q : Parse β} {s u : State} (h : Reaches i p s q u) :
      Reaches i (attempt p) s q u

/-- The run that is reached stands in the middle of the other one. -/
theorem Reaches.steps {i : Input} {α β : Type} {p : Parse α} {q : Parse β} {s u : State}
    (h : Reaches i p s q u) (heof : i.eof.kind = .eof) :
    Steps i s u ∧ Steps i (exec q i u).2 (exec p i s).2 := by
  induction h with
  | here => exact ⟨.refl, .refl⟩
  | @first _ _ _ p _ _ s _ _ hf ih =>
    obtain ⟨hbefore, hbehind⟩ := ih
    exact ⟨hbefore, hbehind.trans (Stepwise.behind hf s heof)⟩
  | @next _ _ _ p _ _ s t _ a hp hexec _ ih =>
    obtain ⟨hbefore, hbehind⟩ := ih
    rw [exec_bind_ok i hexec]
    exact ⟨(hp.run heof hexec).trans hbefore, hbehind⟩
  | @attempt _ _ p _ s _ _ ih =>
    obtain ⟨hbefore, hbehind⟩ := ih
    rw [exec_attempt_snd]
    exact ⟨hbefore, hbehind⟩

/-! ## Skipping -/

/-- From `s` to `t` the tokens `ts` are read, and nothing else is done. -/
structure Skips (ts : List Token) (s t : State) : Prop where
  rest : s.rest = ts ++ t.rest
  read : t.read.toList = s.read.toList ++ ts
  tree : t.tree = s.tree.map (ts.foldl Builder.token)
  halted : t.halted = s.halted
  depth : t.depth = s.depth

theorem Skips.refl (s : State) : Skips [] s s := by
  refine ⟨rfl, (List.append_nil _).symm, ?_, rfl, rfl⟩
  cases s.tree <;> rfl

theorem Skips.trans {ts us : List Token} {s t u : State} (h : Skips ts s t) (h' : Skips us t u) :
    Skips (ts ++ us) s u where
  rest := by rw [h.rest, h'.rest, List.append_assoc]
  read := by rw [h'.read, h.read, List.append_assoc]
  tree := by
    rw [h'.tree, h.tree, Option.map_map]
    congr 1
    funext b
    simp
  halted := h'.halted.trans h.halted
  depth := h'.depth.trans h.depth

/-- A place where a statement is likely to start, or where the enclosing body ends. -/
def Resumable (i : Input) (t : State) : Prop :=
  (i.next t).kind = .eof ∨ (∃ u, t.read.back? = some u ∧ u.kind = .semicolon) ∨
    startsStatement (i.next t).kind = true ∨ ((i.next t).kind = .rightBrace ∧ 0 < t.depth)

section
variable {i : Input} {s t : State}

/-- The next token is skipped, unless it is the end. -/
theorem exec_advance_skips (heof : i.eof.kind = .eof) {token : Token}
    (h : exec advance i s = (.ok token, t)) :
    ∃ ts, Skips ts s t ∧ ((i.next s).kind ≠ .eof → ts ≠ []) := by
  rw [exec_advance] at h
  cases hrest : s.rest with
  | nil =>
    rw [hrest] at h
    cases h
    refine ⟨[], .refl s, fun hend => absurd heof ?_⟩
    rwa [Input.next, hrest] at hend
  | cons u us =>
    rw [hrest] at h
    obtain ⟨-, rfl⟩ := Prod.mk.inj h
    split
    next hkind =>
      refine ⟨[], .refl s, fun hend => absurd hkind ?_⟩
      rwa [Input.next, hrest] at hend
    next =>
      refine ⟨[u], ⟨by simp [State.take, hrest], by simp [State.take], ?_, rfl, rfl⟩, by simp⟩
      simp only [State.take]
      cases s.tree <;> rfl

/-- Skipping ends at such places only. -/
theorem resumable_of_exec {b : Bool} (hatEnd : exec atEnd i s = (.ok b, s)) {b' : Bool}
    (hsynchronized : exec synchronized i s = (.ok b', s)) (h : (b || b') = true) :
    Resumable i s := by
  have hprevious := exec_previous i s
  obtain ⟨rfl⟩ : b = ((i.next s).kind == .eof) := by
    cases hatEnd
    rfl
  obtain ⟨rfl⟩ : b' = ((decide (s.position > 0) &&
      (s.read.back?.getD (i.next s)).kind == .semicolon) || startsStatement (i.next s).kind ||
      ((i.next s).kind == .rightBrace && decide (s.depth > 0))) := by
    have hpeek : exec peek i s = (.ok (i.next s), s) := rfl
    rw [synchronized, exec_bind_ok i (exec_get i s), exec_bind_ok i hpeek,
      exec_bind_ok i hprevious] at hsynchronized
    cases hsynchronized
    rfl
  simp only [Bool.or_eq_true, Bool.and_eq_true, beq_iff_eq, decide_eq_true_eq] at h
  rcases h with hend | (⟨hread, hkind⟩ | hstarts) | hbrace
  · exact .inl hend
  · cases hlast : s.read.back? with
    | none =>
      rw [Array.back?_eq_none_iff] at hlast
      simp [State.position, hlast] at hread
    | some u =>
      rw [hlast] at hkind
      exact .inr (.inl ⟨u, hlast, hkind⟩)
  · exact .inr (.inr (.inl hstarts))
  · exact .inr (.inr (.inr hbrace))

/-- The loop that skips ends at such a place, unless a bound is met. -/
theorem exec_skipLoop (heof : i.eof.kind = .eof) {bound : Nat} (hspent : t.spent = false)
    (h : exec (repeatUpTo (fun _ => do
      if (← atEnd) || (← synchronized) then return ((), false)
      let _ ← advance
      return ((), true)) bound ()) i s = (.ok (), t)) :
    (∃ ts, Skips ts s t) ∧ Resumable i t := by
  induction bound generalizing s with
  | zero =>
    cases h
    cases hspent
  | succ bound ih =>
    obtain ⟨⟨_, more⟩, u, hturn, hrest⟩ := exec_bind_eq_ok h
    obtain ⟨b, v, hatEnd, hturn'⟩ := exec_bind_eq_ok hturn
    obtain ⟨b', w, hsynchronized, hstep⟩ := exec_bind_eq_ok hturn'
    have hv : v = s := by
      cases hatEnd
      rfl
    subst hv
    obtain ⟨_, hlook⟩ := Sparing.Looks.synchronized i v
    have hw : w = v := by
      cases hlook.symm.trans hsynchronized
      rfl
    subst hw
    split at hstep
    next hstop =>
      cases hstep
      cases hrest
      exact ⟨⟨[], .refl _⟩, resumable_of_exec hatEnd hsynchronized hstop⟩
    next =>
      obtain ⟨token, x, hadvance, hdone⟩ := exec_bind_eq_ok hstep
      cases hdone
      obtain ⟨ts, hskips, -⟩ := exec_advance_skips heof hadvance
      obtain ⟨⟨us, hskips'⟩, hresumable⟩ := ih hrest
      exact ⟨⟨ts ++ us, hskips.trans hskips'⟩, hresumable⟩

/-- What is skipped is a row of tokens up to such a place. -/
theorem exec_synchronize (heof : i.eof.kind = .eof) {rules : Rules} {progress : Bool}
    (hspent : t.spent = false) (h : exec (synchronize rules progress) i s = (.ok (), t)) :
    (∃ ts, Skips ts s t) ∧ Resumable i t ∧
      (progress = false → (i.next s).kind ≠ .eof → s.position < t.position) := by
  obtain ⟨_, _, hget, hrest⟩ := exec_bind_eq_ok h
  cases hget
  obtain ⟨closes, _, hcheck, hskip⟩ := exec_bind_eq_ok hrest
  cases hcheck
  dsimp only at hskip
  split at hskip
  next =>
    obtain ⟨token, u, hadvance, hloop⟩ := exec_bind_eq_ok hskip
    obtain ⟨ts, hskips, hread⟩ := exec_advance_skips heof hadvance
    obtain ⟨⟨us, hskips'⟩, hresumable⟩ := exec_skipLoop heof hspent hloop
    have hboth := hskips.trans hskips'
    refine ⟨⟨ts ++ us, hboth⟩, hresumable, fun _ hend => ?_⟩
    have hlength := congrArg List.length hboth.read
    have hpos := List.length_pos_iff.2 (hread hend)
    simp only [Array.length_toList, List.length_append] at hlength
    simp only [State.position]
    omega
  next hstays =>
    obtain ⟨hskips, hresumable⟩ := exec_skipLoop heof hspent hskip
    exact ⟨hskips, hresumable, fun hprogress => absurd (by simp [hprogress]) hstays⟩

/-! ## Error nodes -/

variable {rules : Rules} {b b₁ : Builder} {ns : List Tree.Node} {error : String}

/-- What is done inside an error node, after which it is closed. -/
theorem exec_errorNode (heof : i.eof.kind = .eof) (hb : s.tree = some b₁) (hgains : b.Gains ns b₁)
    (herror : s.lastError = some error) (hspent : t.spent = false) {start : Nat}
    (h : exec (inNodeAt (some b.checkpoint) .errorNode do
      if let some error := (← get).lastError then onTree (·.markError error)
      if !(← get).halted then synchronize rules ((← get).position > start)) i s = (.ok (), t)) :
    (∃ b' n, t.tree = some b' ∧ b.Adds n b' ∧ n.kind = .errorNode ∧ n.error = some error) ∧
      t.halted = s.halted ∧ (s.halted = false → Resumable i t ∧ s.position ≤ t.position ∧
        (s.position ≤ start → (i.next s).kind ≠ .eof → s.position < t.position)) := by
  obtain ⟨u, hnode, rfl⟩ := exec_node_eq_ok h
  have hspent : u.spent = false := hspent
  obtain ⟨_, v, hget, hnode⟩ := exec_bind_eq_ok hnode
  cases hget
  have hlast : (s.mapTree (·.startAt b.checkpoint .errorNode)).lastError = some error := herror
  dsimp only at hnode
  rw [hlast] at hnode
  obtain ⟨_, w, hmark, hnode⟩ := exec_bind_eq_ok hnode
  obtain ⟨_, _, hget, hskip⟩ := exec_bind_eq_ok hnode
  cases hget
  -- the state in which skipping starts
  obtain ⟨hw, hrest, hread, hhalted⟩ : w.tree =
      some ((b₁.startAt b.checkpoint .errorNode).markError error) ∧ w.rest = s.rest ∧
      w.read = s.read ∧ w.halted = s.halted := by
    cases hmark
    exact ⟨by simp [State.mapTree, hb], rfl, rfl, rfl⟩
  obtain ⟨⟨ts, hskips⟩, hresumes⟩ : (∃ ts, Skips ts w u) ∧ (s.halted = false → Resumable i u ∧
      (s.position ≤ start → (i.next s).kind ≠ .eof → s.position < u.position)) := by
    split at hskip
    next =>
      obtain ⟨_, _, hget, hskip⟩ := exec_bind_eq_ok hskip
      cases hget
      obtain ⟨hskips, hresumable, hlt⟩ := exec_synchronize heof hspent hskip
      refine ⟨hskips, fun _ => ⟨hresumable, fun hstart hend => ?_⟩⟩
      rw [State.position, ← hread] at hstart ⊢
      exact hlt (decide_eq_false (Nat.not_lt.2 hstart)) (by rwa [Input.next, hrest])
    next hstays =>
      cases hskip
      refine ⟨⟨[], .refl _⟩, fun hgoing => absurd ?_ hstays⟩
      rw [hhalted, hgoing]
      rfl
  refine ⟨?_, hskips.halted.trans hhalted, fun hgoing => ?_⟩
  · obtain ⟨n, hadds, hkind, hmarked⟩ := hgains.adds_errorNode error ts
    refine ⟨_, n, ?_, hadds, hkind, hmarked⟩
    rw [State.mapTree, hskips.tree, hw]
    rfl
  · obtain ⟨hresumable, hlt⟩ := hresumes hgoing
    refine ⟨hresumable, ?_, hlt⟩
    have hlength := congrArg List.length hskips.read
    rw [hread, List.length_append] at hlength
    exact Nat.le.intro hlength.symm

/-- The tokens of a node that was added are those that were read meanwhile. -/
theorem read_eq_of_adds {b' : Builder} {node : Tree.Node} (hsteps : Steps i s t)
    (hb : s.tree = some b) (ht : t.tree = some b') (hadds : b.Adds node b') :
    t.read.toList = s.read.toList ++ node.allTokens := by
  obtain ⟨b'', htree, hleaves⟩ := (kept_leaves (b.leaves ++ s.rest)).steps ⟨b, hb, rfl⟩ hsteps
  cases ht.symm.trans htree
  rw [hadds.leaves_eq, List.append_assoc] at hleaves
  have htokens := hsteps.tokens_eq
  rw [← List.append_cancel_left hleaves, ← List.append_assoc] at htokens
  exact List.append_cancel_right htokens

/-- A token was read if what follows reads one at least where nothing was read before. -/
theorem position_lt_of_unmoved {u : State} (hbefore : Steps i s u) (hend : (i.next s).kind ≠ .eof)
    (hle : u.position ≤ t.position)
    (hlt : u.position ≤ s.position → (i.next u).kind ≠ .eof → u.position < t.position) :
    s.position < t.position := by
  have hpos : s.position ≤ u.position := hbefore.position_le
  by_cases hmoved : u.position ≤ s.position
  · have hadd := hbefore.position_add
    have hrest : u.rest = s.rest := hbefore.rest_suffix.eq_of_length (by omega)
    have hfurther : u.position < t.position := by
      refine hlt hmoved ?_
      rwa [Input.next, hrest]
    omega
  · omega

/-- A declaration that is given up becomes an error node that says what is wrong and holds all that
was read and skipped since it started. -/
theorem exec_recoveredRule_wraps (heof : i.eof.kind = .eof) {n : Nat} (hb : s.tree = some b)
    (hend : (i.next s).kind ≠ .eof) (h : exec (recoveredRule (.upTo n)) i s = (.ok none, t))
    (hspent : t.spent = false) :
    ∃ b' node, t.tree = some b' ∧ b.Adds node b' ∧ node.kind = .errorNode ∧ node.error.isSome ∧
      t.read.toList = s.read.toList ++ node.allTokens ∧
      (t.halted = false → s.position < t.position ∧ Resumable i t) := by
  have hr : (Rules.upTo n).Lawful := Rules.lawful_upTo n
  have hsteps : Steps i s t := (Twin.recoveredRule hr).stepwise.run heof h
  rw [recoveredRule, exec_recovering] at h
  rcases hrun : exec (declarationRule (.upTo n)) i s with ⟨_ | stmt, u⟩
  · rw [hrun] at h
    obtain ⟨_, v, hrecover, hdone⟩ := exec_bind_eq_ok h
    cases hdone
    obtain ⟨_, w, hreturn, hnode⟩ := exec_bind_eq_ok hrecover
    cases hreturn
    have hbefore : Steps i s u := (Twin.declarationRule hr).stepwise.run heof hrun
    have hafter : Steps i u t :=
      (Stepwise.recover (fun progress => (Twin.synchronize (.upTo n) progress).stepwise)
        s.place).run heof hrecover
    -- what is wrong was noted, as no bound was met
    obtain ⟨error, herror⟩ : ∃ error, u.lastError = some error := by
      have hnoted : Noted i u :=
        (Twin.declarationRule (Rules.lawful_upTo n)).reports.noted heof trivial hrun
      rcases hnoted with hsome | hmet
      · exact Option.isSome_iff_exists.1 hsome
      · exact absurd (hafter.spent_eq_false hspent) (by rw [hmet]; decide)
    obtain ⟨b₁, ns, hu, hgains⟩ := exec_declarationRule_unwind hr hb hrun
    have hplace : s.place.checkpoint = some b.checkpoint := by rw [State.place, hb]; rfl
    have hreturned : (u.returnTo s.place).tree = some (b₁.unwind b.depth) := by
      simp [State.returnTo, State.place, hu, hb]
    rw [hplace] at hnode
    obtain ⟨⟨b', node, ht, hadds, hkind, hmarked⟩, hhalted, hgoing⟩ :=
      exec_errorNode heof hreturned hgains herror hspent hnode
    refine ⟨b', node, ht, hadds, hkind, by rw [hmarked]; rfl, ?_, fun hnot => ?_⟩
    · exact read_eq_of_adds hsteps hb ht hadds
    · obtain ⟨hresumable, hle, hlt⟩ := hgoing (hhalted.symm.trans hnot)
      exact ⟨position_lt_of_unmoved hbefore hend hle hlt, hresumable⟩
  · rw [hrun] at h
    cases h

end

/-! ## Calls in a parse -/

/-- A parse starts with a declaration, unless it starts with its end or a closing brace. -/
theorem reaches_first_declaration (stream : Scan.Stream) (config : Config)
    (errors : Diagnostic.Collector)
    (hend : ((Input.of stream config).next (.start stream config errors)).kind ≠ .eof)
    (hbrace : ((Input.of stream config).next (.start stream config errors)).kind ≠ .rightBrace) :
    Reaches (.of stream config) (topDeclarations (.upTo stream.tokens.length))
      (.start stream config errors) (recoveredRule (.upTo stream.tokens.length))
      (.start stream config errors) := by
  refine .first (.first ?_ fun _ => .ite (Twin.topTurns ..).stepwise (.pure _)) fun _ => .pure _
  refine .next Quiet.atEnd.stepwise rfl (.next .get rfl ?_)
  rw [if_neg (by simpa [State.start] using hend)]
  refine .first (.next .get rfl (.next (Quiet.check _).stepwise rfl ?_)) fun _ => .pure _
  dsimp only
  rw [if_neg (by simpa using hbrace)]
  exact .first (.here ..) fun _ => .bind .get fun _ => .bind Quiet.atEnd.stepwise fun _ =>
    .ite (.bind .advance fun _ => .pure _) (.pure _)

/-- Let a tree be built in the parse of a stream of tokens, and let a declaration that is called in
it, at a token that is not the end, be given up. Then the node that is open around the declaration
has one more element, an error node. The node says what is wrong, and its tokens are those from
where the declaration was called up to where the parse goes on. Unless the limit of reports was
reached, the parse goes on further behind: at the end, behind a semicolon, at a token that a
statement may start with, or at a closing brace inside a body. -/
theorem recovery_wraps (stream : Scan.Stream) (config : Config) (errors : Diagnostic.Collector)
    (hbuild : config.buildTree = true) (hmode : stream.mode = .lossless) {n : Nat} {s t : State}
    (hcall : Reaches (.of stream config) (topDeclarations (.upTo stream.tokens.length))
      (.start stream config errors) (recoveredRule (.upTo n)) s)
    (hstart : ((Input.of stream config).next s).kind ≠ .eof)
    (hfails : exec (recoveredRule (.upTo n)) (.of stream config) s = (.ok none, t)) :
    ∃ b b' node, s.tree = some b ∧ t.tree = some b' ∧ b.Adds node b' ∧ node.kind = .errorNode ∧
      node.error.isSome ∧ t.read.toList = s.read.toList ++ node.allTokens ∧
      (t.halted = false → s.position < t.position ∧
        (((Input.of stream config).next t).kind = .eof ∨
          (∃ last, t.read.back? = some last ∧ last.kind = .semicolon) ∨
          startsStatement ((Input.of stream config).next t).kind = true ∨
          (((Input.of stream config).next t).kind = .rightBrace ∧ 0 < t.depth))) := by
  have heof : (Input.of stream config).eof.kind = .eof := endOf_kind stream.tokens
  obtain ⟨hbefore, hbehind⟩ := hcall.steps heof
  have htrivial : Kept fun _ _ => True := ⟨fun _ => trivial, fun _ => trivial, fun _ _ => trivial⟩
  obtain ⟨b, hb, -⟩ := htrivial.steps ⟨{}, by simp [State.start, hbuild, hmode], trivial⟩ hbefore
  -- the parse ends without having met a bound
  have hspent : t.spent = false := by
    obtain ⟨_, u, -, hrun, hu⟩ := exec_topDeclarations_start stream config errors
    rw [hfails, hrun] at hbehind
    exact hbehind.spent_eq_false hu.spent_eq
  obtain ⟨b', node, ht, hadds, hkind, herror, htokens, hgoing⟩ :=
    exec_recoveredRule_wraps heof hb hstart hfails hspent
  exact ⟨b, b', node, hb, ht, hadds, hkind, herror, htokens, hgoing⟩

theorem exists_eq_none {α : Type} {r : Except Unit (Option α) × State}
    (h : r.1.toOption.map Option.isNone = some true) : ∃ t, r = (.ok none, t) := by
  obtain ⟨_ | _ | a, t⟩ := r
  · cases h
  · exact ⟨t, rfl⟩
  · cases h

/-- A class is given up at a sign inside its body, and what follows up to the semicolon is
skipped. -/
theorem recovery_wraps_class : ∃ (stream : Scan.Stream) (t : State),
    stream = (Scan.scan ⟨"class A \x7b x: int + \x7d y; z", "a"⟩ .lossless {}).1 ∧
    Reaches (.of stream { buildTree := true }) (topDeclarations (.upTo stream.tokens.length))
      (.start stream { buildTree := true } {}) (recoveredRule (.upTo stream.tokens.length))
      (.start stream { buildTree := true } {}) ∧
    ((Input.of stream { buildTree := true }).next
      (.start stream { buildTree := true } {})).kind ≠ .eof ∧
    exec (recoveredRule (.upTo stream.tokens.length)) (.of stream { buildTree := true })
      (.start stream { buildTree := true } {}) = (.ok none, t) ∧
    ∃ b b' node, (State.start stream { buildTree := true } {}).tree = some b ∧
      t.tree = some b' ∧ b.Adds node b' ∧ node.kind = .errorNode ∧ node.error.isSome ∧
      t.read.toList = [] ++ node.allTokens ∧
      (t.halted = false → 0 < t.position ∧
        (((Input.of stream { buildTree := true }).next t).kind = .eof ∨
          (∃ last, t.read.back? = some last ∧ last.kind = .semicolon) ∨
          startsStatement ((Input.of stream { buildTree := true }).next t).kind = true ∨
          (((Input.of stream { buildTree := true }).next t).kind = .rightBrace ∧
            0 < t.depth))) := by
  let stream := (Scan.scan ⟨"class A \x7b x: int + \x7d y; z", "a"⟩ .lossless {}).1
  have hend : ((Input.of stream { buildTree := true }).next
      (.start stream { buildTree := true } {})).kind ≠ .eof := by decide +kernel
  have hcall := reaches_first_declaration stream { buildTree := true } {} hend (by decide +kernel)
  obtain ⟨t, hfails⟩ : ∃ t, exec (recoveredRule (.upTo stream.tokens.length))
      (.of stream { buildTree := true }) (.start stream { buildTree := true } {}) =
        (.ok none, t) := by
    refine exists_eq_none ?_
    decide +kernel
  exact ⟨stream, t, rfl, hcall, hend, hfails,
    recovery_wraps stream { buildTree := true } {} rfl rfl hcall hend hfails⟩

end Grammar

end LimitSyntax
