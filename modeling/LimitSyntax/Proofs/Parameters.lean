import LimitSyntax.Proofs.Reading

/-!
# Parameter lists

A list of parameters is read as these parameters if each of their types and default values is read
on its own, in front of a closing parenthesis (`Grammar.parameters_read`). In front of a comma or of
the sign of a default value it then ends at the same place (`Completes.readsBefore`), since every rule
settles there (`Grammar.Twin.rule`). Only what is open behind goes on (`Grammar.Joins`): error types
with a name that no colon follows, a condition with a default value, and in a default value what is
printed, and the names of an import, with whatever follows the comma (`Grammar.parameters_join`).
-/

namespace LimitSyntax.Grammar

open Ast

/-! ## Lists as they are written -/

section
variable (known : Bool) (e : Token)

/-- The tokens of a part that may be left out, with others behind it: a mark in front, and behind it
what the rule reads as the value on its own, in front of a parenthesis and the end `e`. It must not end
in what goes on with the tokens behind. -/
inductive WrittenPart {α : Type} (mark : Token.Kind) (rule : Rules → Parse α) :
    List Token → List Token → Option α → Prop where
  | absent {behind : List Token} : WrittenPart mark rule [] behind none
  | present {t close : Token} {ts behind : List Token} {a : α} (ht : t.kind = mark)
      (hclose : close.kind = .rightParen)
      (h : Completes known (rule (.upTo (ts.length + 2))) ts [close, e] a)
      (hapart : ¬ Joins [close, e] ts behind) : WrittenPart mark rule (t :: ts) behind (some a)

/-- The tokens of a parameter, with others behind it: its name, a type and a default value. -/
inductive WrittenParam : List Token → List Token → Param → Prop where
  | intro {name : Token} {ts us behind : List Token} {type : Option TypeExpr}
      {default? : Option Expr} {span : Span} (hname : name.kind = .identifier)
      (htype : WrittenPart known e .colon typeRule ts (us ++ behind) type)
      (hdefault : WrittenPart known e .equal exprRule us behind default?) :
      WrittenParam (name :: (ts ++ us)) behind ⟨name.lexeme, type, default?, span⟩

/-- The tokens of parameters with commas between them, and of the parenthesis behind them. -/
inductive WrittenParams : List Token → List Param → Prop where
  | last {ts : List Token} {close : Token} {p : Param} (hclose : close.kind = .rightParen)
      (hp : WrittenParam known e ts [close] p) : WrittenParams (ts ++ [close]) [p]
  | more {ts us : List Token} {comma : Token} {p : Param} {ps : List Param}
      (hcomma : comma.kind = .comma) (hp : WrittenParam known e ts (comma :: us) p)
      (hrest : WrittenParams us ps) : WrittenParams (ts ++ comma :: us) (p :: ps)

/-- The tokens of a list of parameters in parentheses. -/
inductive WrittenList : List Token → List Param → Prop where
  | none {opening close : Token} (hopen : opening.kind = .leftParen)
      (hclose : close.kind = .rightParen) : WrittenList [opening, close] []
  | some {opening : Token} {ts : List Token} {ps : List Param} (hopen : opening.kind = .leftParen)
      (h : WrittenParams known e ts ps) : WrittenList (opening :: ts) ps

end

section
variable {known : Bool} {e : Token} {n : Nat} {ts behind : List Token}

/-- Neither the end nor a token that was reported when it was scanned is among them. -/
def Sound (ts : List Token) : Prop := ∀ t ∈ ts, t.kind ≠ .eof ∧ t.kind ≠ .error

theorem Sound.cons {t : Token} (ht : t.kind ≠ .eof ∧ t.kind ≠ .error) (h : Sound ts) :
    Sound (t :: ts) :=
  List.forall_mem_cons.2 ⟨ht, h⟩

theorem Sound.append {us : List Token} (h : Sound ts) (h' : Sound us) : Sound (ts ++ us) :=
  List.forall_mem_append.2 ⟨h, h'⟩

/-! ## What stands behind a part -/

/-- A type that is not there is reported. -/
theorem Rejects.typeRule {rules : Rules} (hr : rules.Lawful) :
    Rejects (typeRule rules) .rightParen := by
  have hbasic : Rejects (basicTypeRule rules) .rightParen := by
    refine .glance (fun _ _ => ⟨_, rfl⟩) fun ⟨start, line⟩ => .peek fun t ht =>
      .glance (fun _ _ => ⟨_, rfl⟩) fun u => ?_
    have hnode : typeNode? t u = none := by
      rw [typeNode?, ht]
      rfl
    rw [hnode]
    exact .fail (by decide) _
  refine .glance (fun _ _ => ⟨_, rfl⟩) fun c => .glance (fun _ _ => ⟨_, rfl⟩) fun ⟨start, line⟩ =>
    hbasic.bind fun first => .bind Alike.peek.stepwise fun t => ?_
  split
  iterate 2
    · exact .bind (.inNodeAt c _ (Alike.typeMembers hr _ first).stepwise) fun _ =>
        .bind (Alike.spanFrom _).stepwise fun _ => .pure _
  · exact .bind (.inNodeAt c _ (.bind .advance fun _ => (hr.alike .expression).stepwise)) fun _ =>
      .bind (Alike.spanFrom _).stepwise fun _ => .pure _
  · exact .pure first

/-- Neither the place of the next token nor the end behind the others matters. -/
theorem Joins.of_append {stop more : List Token} {next next' : Token}
    (h : Joins stop ts (next' :: (more ++ [e]))) (hnext : next.kind = next'.kind)
    (he : e.kind = .eof) : Joins stop ts (next :: more) := by
  generalize hbehind : next' :: (more ++ [e]) = behind at h
  cases h with
  | errorTypes hquestion hnames hcomma hname hmore =>
    obtain ⟨rfl, hrest⟩ := List.cons.inj hbehind
    cases more with
    | nil =>
      obtain ⟨rfl, -⟩ := List.cons.inj hrest
      rw [he] at hname
      cases hname
    | cons name more =>
      obtain ⟨rfl, rfl⟩ := List.cons.inj hrest
      refine .errorTypes hquestion hnames (hnext.trans hcomma) hname fun t ht => hmore t ?_
      cases more with
      | nil => cases ht
      | cons => exact ht
  | condition hkeyword hvs hequal =>
    cases hbehind
    exact .condition hkeyword hvs (hnext.trans hequal)
  | print hkeyword hopen hvs hcomma =>
    cases hbehind
    exact .print hkeyword hopen hvs (hnext.trans hcomma)
  | importFilter hkeyword hnames hcomma =>
    cases hbehind
    exact .importFilter hkeyword hnames (hnext.trans hcomma)

/-- What goes on has a keyword in it, or a question mark and a name behind the comma that no colon
follows. -/
theorem Joins.keyword_or_question {stop : List Token} (h : Joins stop ts behind) :
    (∃ t ∈ ts, t.kind = .kwWhere ∨ t.kind = .kwPrint ∨ t.kind = .kwShow ∨ t.kind = .kwHide) ∨
      (∃ t ∈ ts, t.kind = .question) ∧
        ∃ comma name more, behind = comma :: name :: more ∧ ∀ t ∈ more.head?, t.kind ≠ .colon := by
  cases h with
  | errorTypes hquestion _ _ _ hmore =>
    exact .inr ⟨⟨_, by simp, hquestion⟩, _, _, _, rfl, hmore⟩
  | condition hkeyword => exact .inl ⟨_, by simp, .inl hkeyword⟩
  | print hkeyword => exact .inl ⟨_, by simp, .inr (.inl hkeyword)⟩
  | importFilter hkeyword => exact .inl ⟨_, by simp, .inr (.inr hkeyword)⟩

/-- A rule for something that may stand behind a mark. -/
structure Readable {α : Type} [Comparable α] (o : Outlook) (rule : Rules → Parse α) : Prop where
  lawful : ∀ {rules : Rules}, rules.Lawful → Lawful o (rule rules)
  sees : o.sees .rightParen = true
  rejects : ∀ {rules : Rules}, rules.Lawful → Rejects (rule rules) .rightParen
  sparing : ∀ n, Sparing Anywhere n (rule (.upTo n)) fun _ => false
  tandem : ∀ {g : Pair} {cap : Nat} {rules rules' : Rules}, rules.InTandem g cap rules' →
    Tandem True g .within (cap + 1) (rule rules) (rule rules') (fun _ => .inner) fun _ => cap
  trans : ∀ {a b c : α}, Agree a b → Agree b c → Agree a c

theorem readable_typeRule : Readable .type typeRule where
  lawful hr := .typeWith hr true
  sees := rfl
  rejects := .typeRule
  sparing n := .rule (.upTo n) le_rfl .type
  tandem hr := .typeRule hr le_rfl
  trans := .trans

theorem readable_exprRule : Readable .value exprRule where
  lawful := .exprRule
  sees := rfl
  rejects hr := .exprRule hr rfl (by decide)
  sparing n := .rule (.upTo n) le_rfl .expression
  tandem hr := .exprRule hr le_rfl
  trans := .trans

section
variable {α : Type} [Comparable α] {o : Outlook} {mark : Token.Kind} {rule : Rules → Parse α}
  {a? : Option α} (hrule : Readable o rule)
include hrule

theorem WrittenPart.sound (h : WrittenPart known e mark rule ts behind a?)
    (hmark : mark ≠ .eof ∧ mark ≠ .error) : Sound ts := by
  cases h with
  | absent => exact fun t ht => nomatch ht
  | present ht _ hown =>
    refine .cons (ht ▸ hmark) fun t ht => ?_
    exact ⟨hown.kind_ne_eof (hrule.lawful (Rules.lawful_upTo _)).stepwise t ht, hown.sound t ht⟩

/-- What is read on its own is not nothing. -/
theorem Completes.ne_nil {close : Token} {a : α} (hclose : close.kind = .rightParen)
    (h : Completes known (rule (.upTo n)) ts [close, e] a) : ts ≠ [] := by
  rintro rfl
  obtain ⟨i, t, heof, hexec, -, herrors⟩ := h.run
  have hreport := hrule.rejects (Rules.lawful_upTo n) i (.before known [close, e]) heof
    ⟨rfl, rfl, rfl⟩ hclose
  rw [List.nil_append] at hexec
  rw [hexec] at hreport
  exact hreport herrors

/-- What is read in front of a parenthesis is read so on its own in front of other tokens at its
place, unless it goes on with them. -/
theorem Parses.settles {R : α → Prop} {close next : Token} {more : List Token}
    (h : Parses known (ts ++ [close, e]) (rule (.upTo n)) fun a us => R a ∧ us = [close, e])
    (hne : ts ≠ []) (hsound : ∀ t ∈ ts, t.kind ≠ .error) (hn : ts.length + 2 ≤ n)
    (hclose : close.kind = .rightParen) (he : e.kind = .eof) (hnext : o.sees next.kind = true)
    (hspan : next.span = close.span) (hline : next.line = close.line)
    (hapart : ¬ Joins [close, e] ts (next :: more)) :
    ∃ a, R a ∧ Completes known (rule (.upTo n)) ts (next :: more) a := by
  let g : Seam := {
    part := ts
    close
    last := e
    next
    more
    some := hne
    sound := hsound
    close_kind := hclose
    last_kind := he
    sees_next := Outlook.sees_of_le o.le_type hnext
    span := hspan
    line := hline
    apart := hapart }
  let i : Input := ⟨⟨"", ""⟩, .eof 0 0, 1⟩
  have heof : i.eof.kind = .eof := rfl
  let s : State := .before known (ts ++ [close, e])
  obtain ⟨a, t, hexec, hquiet, ha, hrest⟩ := h i s heof rfl ⟨rfl, rfl, rfl⟩
  have hlength : s.rest.length ≤ n := by simpa [s, State.before] using hn
  have hspent : t.spent = false := by
    have hmoves := ((hrule.sparing n).run i s heof trivial hlength).1.spent_eq
    rwa [hexec] at hmoves
  have hstops : g.Stops o (Except.ok a) t [] :=
    ⟨hrest, ⟨hquiet.errors, hquiet.going, hspent⟩, fun _ => ⟨hclose ▸ hrule.sees, hnext⟩,
      fun _ => ⟨a, rfl⟩⟩
  have hright := ((hrule.lawful (Rules.lawful_upTo n)).settles g ts).run heof ⟨rfl, rfl, rfl⟩ hexec
    hstops
  exact ⟨a, ha, hsound, i, _, heof, hright, rfl, hquiet.errors⟩

/-- What is read on its own is read in front of the tokens behind it. -/
theorem Completes.readsBefore {close next : Token} {more : List Token} {a : α}
    (h : Completes known (rule (.upTo (ts.length + 2))) ts [close, e] a)
    (hclose : close.kind = .rightParen) (he : e.kind = .eof) (hbehind : Sound (next :: more))
    (hnext : o.sees next.kind = true) (hapart : ¬ Joins [close, e] ts (next :: more))
    (hn : ts.length + more.length + 2 ≤ n) :
    Parses known (ts ++ (next :: more ++ [e])) (rule (.upTo n)) fun a' us =>
      Agree a a' ∧ us = next :: more ++ [e] := by
  have hlawful := hrule.lawful (Rules.lawful_upTo n)
  have hframed : Framed (rule (.upTo n)) := hlawful.alike.framed
  -- with as many calls as the list takes
  have hown : Parses known (ts ++ [close, e]) (rule (.upTo n)) fun a' us =>
      Agree a a' ∧ us = [close, e] := by
    have hsound : Sound [close] := .cons (by rw [hclose]; decide) fun t ht => nomatch ht
    have hself : List.Forall₂ Token.Same [close] [close] := .cons .rfl .nil
    have hclosed : Completes known (rule (.upTo (ts.length + 2))) ts ([close] ++ [e]) a := h
    exact hclosed.reads
      (fun g => hrule.tandem (Rules.inTandem_upTo (by simp) (by simp; omega))) hframed
      hlawful.stepwise (List.forall₂_same.2 fun _ _ => .rfl) hself hsound he .rfl
  -- in front of the next token at the place of the parenthesis
  let next' : Token := { next with span := close.span, line := close.line }
  obtain ⟨a', ha', hplaced⟩ := hown.settles hrule (h.ne_nil hrule hclose) h.sound (by omega) hclose
    he (show o.sees next'.kind = true from hnext) rfl rfl fun hjoins =>
      hapart (hjoins.of_append rfl he)
  -- and in front of the tokens at their places
  have hsound : Sound (next' :: more) := .cons (hbehind next (by simp)) fun t ht =>
    hbehind t (List.mem_cons_of_mem _ ht)
  have hsame : List.Forall₂ Token.Same (next' :: more) (next :: more) :=
    .cons ⟨rfl, rfl, rfl⟩ (List.forall₂_same.2 fun _ _ => .rfl)
  have hmoved : Completes known (rule (.upTo n)) ts (next' :: more ++ [e]) a' := hplaced
  have hreads := hmoved.reads
    (fun g => hrule.tandem (Rules.inTandem_upTo (by simp; omega) (by simp; omega))) hframed
    hlawful.stepwise (List.forall₂_same.2 fun _ _ => .rfl) hsame hsound he .rfl
  intro i s heof hs hquiet
  obtain ⟨b, t, hexec, ht, hb, hrest⟩ := hreads i s heof hs hquiet
  exact ⟨b, t, hexec, ht, hrule.trans ha' hb, hrest⟩

/-- A part is read where its rule is called. -/
theorem WrittenPart.reads {next : Token} {more : List Token}
    (h : WrittenPart known e mark rule ts (next :: more) a?) {q : Parse α}
    (hq : q = rule (.upTo n)) (hmark : mark ≠ .eof) (hbehind : Sound (next :: more))
    (he : e.kind = .eof) (hn : ts.length + more.length + 1 ≤ n) (hne : next.kind ≠ mark)
    (hnext : o.sees next.kind = true) :
    Parses known (ts ++ (next :: more ++ [e])) (Grammar.after mark q) fun b us =>
      Agree a? b ∧ us = next :: more ++ [e] := by
  have heat : Framed (eat mark) := (Alike.eat mark).framed
  cases h with
  | absent =>
    refine .after (.eat hne) heat ?_
    rintro _ _ ⟨rfl, rfl⟩
    exact .pure ⟨.none, rfl⟩
  | present ht hclose h hapart =>
    refine .after (.eatThis ht hmark) heat ?_
    rintro _ _ ⟨rfl, rfl⟩
    rw [hq]
    rw [List.length_cons] at hn
    refine (h.readsBefore hrule hclose he hbehind hnext hapart (by omega)).bind ?_
    rintro b _ ⟨hagree, rfl⟩
    exact .pure ⟨.some hagree, rfl⟩

end

/-! ## Parameters -/

variable {ps : List Param} {p : Param}

theorem WrittenParam.sound (h : WrittenParam known e ts behind p) : Sound ts := by
  obtain ⟨hname, htype, hdefault⟩ := h
  refine .cons (by rw [hname]; decide) (.append ?_ ?_)
  · exact htype.sound readable_typeRule (by decide)
  · exact hdefault.sound readable_exprRule (by decide)

theorem WrittenParams.sound (h : WrittenParams known e ts ps) : Sound ts := by
  induction h with
  | last hclose hp => exact hp.sound.append (.cons (by rw [hclose]; decide) fun t ht => nomatch ht)
  | more hcomma hp _ ih => exact hp.sound.append (.cons (by rw [hcomma]; decide) ih)

/-- A parameter is read in front of a comma or the closing parenthesis. -/
theorem WrittenParam.reads {next : Token} {more : List Token}
    (h : WrittenParam known e ts (next :: more) p) (hbehind : Sound (next :: more))
    (he : e.kind = .eof) (hkind : next.kind = .comma ∨ next.kind = .rightParen)
    (hn : ts.length + more.length ≤ n) :
    Parses known (ts ++ (next :: more ++ [e])) (parameter (.upTo (n + 1))) fun p' us =>
      Agree p p' ∧ us = next :: more ++ [e] := by
  obtain @⟨name, ts, us, _, type, default?, span, hname, htype, hdefault⟩ := h
  have hus : Sound us := hdefault.sound readable_exprRule (by decide)
  simp only [List.length_cons, List.length_append] at hn
  have hdefaults := hdefault.reads readable_exprRule (q := (Rules.upTo (n + 1)).call .expression)
    (n := n) rfl (by decide) hbehind he (by omega) (by rcases hkind with h | h <;> rw [h] <;> decide)
    (by rcases hkind with h | h <;> rw [h] <;> rfl)
  -- the type ends in front of the default value, or of what stands behind the parameter
  have htypes : Parses known (ts ++ (us ++ (next :: more ++ [e])))
      (Grammar.after .colon ((Rules.upTo (n + 1)).call .type)) fun type' vs =>
        Agree type type' ∧ vs = us ++ (next :: more ++ [e]) := by
    cases us with
    | nil =>
      exact htype.reads readable_typeRule rfl (by decide) hbehind he (by simp at hn; omega)
        (by rcases hkind with h | h <;> rw [h] <;> decide)
        (by rcases hkind with h | h <;> rw [h] <;> rfl)
    | cons u us =>
      have hu : u.kind = .equal := by cases hdefault with | present ht => exact ht
      have hreads := htype.reads readable_typeRule (q := (Rules.upTo (n + 1)).call .type) (n := n) rfl
        (by decide) (hus.append hbehind) he (by simp at hn ⊢; omega) (by rw [hu]; decide)
        (by rw [hu]; rfl)
      simpa using hreads
  rw [List.cons_append, List.append_assoc]
  refine .after .startPos Alike.startPos.framed ?_
  rintro ⟨start, line⟩ _ rfl
  refine Parses.bind (Q := fun (r : String × Option TypeExpr × Option Expr) us =>
    (r.1 = name.lexeme ∧ Agree type r.2.1 ∧ Agree default? r.2.2) ∧ us = next :: more ++ [e])
    (.inNode ?_) ?_
  · refine .after (.consumeName hname) (Alike.consumeName _).framed ?_
    rintro _ _ ⟨rfl, rfl⟩
    refine htypes.bind ?_
    rintro type' _ ⟨htype', rfl⟩
    refine hdefaults.bind ?_
    rintro default?' _ ⟨hdefault', rfl⟩
    exact .pure ⟨⟨rfl, htype', hdefault'⟩, rfl⟩
  · rintro ⟨name', type', default?'⟩ _ ⟨⟨rfl, htype', hdefault'⟩, rfl⟩
    refine .after (.spanFrom start) (Alike.spanFrom start).framed ?_
    rintro span' _ rfl
    exact .pure ⟨.param (.ofOption htype') (.ofOption hdefault'), rfl⟩

/-- One turn of the loop over the parameters behind the first. -/
def paramTurn (rules : Rules) (items : List Param) : Parse (List Param × Bool) := do
  if ← eat .comma then return ((← parameter rules) :: items, true)
  else return (items, false)

/-- The parameters in a row are read one after the other, up to the parenthesis. -/
theorem WrittenParams.reads (h : WrittenParams known e ts ps) (he : e.kind = .eof)
    (hn : ts.length ≤ n) {bound : Nat} (hbound : ts.length ≤ bound) {items items' : List Param}
    (hitems : Agree items items') :
    Parses known (ts ++ [e]) (do
        let item ← parameter (.upTo (n + 1))
        repeatUpTo (paramTurn (.upTo (n + 1))) bound (item :: items'))
      fun r us => Agree (ps.reverse ++ items) r ∧
        ∃ close, close.kind = .rightParen ∧ us = [close, e] := by
  induction h generalizing bound items items' with
  | @last ts close p hclose hp =>
    simp only [List.length_append, List.length_singleton] at hn hbound
    obtain ⟨bound, rfl⟩ : ∃ b, bound = b + 1 := ⟨bound - 1, by omega⟩
    have hbehind : Sound [close] := .cons (by rw [hclose]; decide) fun t ht => nomatch ht
    have hne : close.kind ≠ .comma := by rw [hclose]; decide
    rw [List.append_assoc]
    refine (hp.reads hbehind he (.inr hclose) (by simp; omega)).bind ?_
    rintro p' _ ⟨hp', rfl⟩
    rw [repeatUpTo, paramTurn, bind_assoc]
    refine .after (.eat hne) (Alike.eat _).framed ?_
    rintro _ _ ⟨rfl, rfl⟩
    exact .pure ⟨.cons hp' hitems, close, hclose, rfl⟩
  | @more ts us comma p ps hcomma hp hrest ih =>
    simp only [List.length_append, List.length_cons] at hn hbound
    obtain ⟨bound, rfl⟩ : ∃ b, bound = b + 1 := ⟨bound - 1, by omega⟩
    have hbehind : Sound (comma :: us) := .cons (by rw [hcomma]; decide) hrest.sound
    rw [List.append_assoc]
    refine (hp.reads hbehind he (.inl hcomma) (by omega)).bind ?_
    rintro p' _ ⟨hp', rfl⟩
    rw [repeatUpTo, paramTurn, bind_assoc]
    refine .after (.eatThis hcomma (by decide)) (Alike.eat _).framed ?_
    rintro _ _ ⟨rfl, rfl⟩
    simp only [if_true, bind_assoc, pure_bind]
    have hmore := ih (by omega) (show us.length ≤ bound by omega) (.cons hp' hitems)
    rwa [List.reverse_cons, List.append_assoc]

/-- The first token of the parameters in a row is a name. -/
theorem WrittenParams.head (h : WrittenParams known e ts ps) :
    ∃ name more, ts = name :: more ∧ name.kind = .identifier := by
  cases h with
  | last _ hp =>
    obtain ⟨hname, _, _⟩ := hp
    exact ⟨_, _, rfl, hname⟩
  | more _ hp _ =>
    obtain ⟨hname, _, _⟩ := hp
    exact ⟨_, _, rfl, hname⟩

/-- The parameters in a row are read, in their order. -/
theorem Parses.commaSeparated_parameter (h : WrittenParams known e ts ps) (he : e.kind = .eof)
    (hn : ts.length ≤ n) :
    Parses known (ts ++ [e]) (commaSeparated (.upTo (n + 1)) (parameter (.upTo (n + 1))))
      fun r us => Agree ps r ∧ ∃ close, close.kind = .rightParen ∧ us = [close, e] := by
  have hloop := h.reads he hn (show ts.length ≤ n + 2 by omega) .nil
  have hparse := hloop.bind (f := fun items => Pure.pure items.reverse)
    (R := fun r us => Agree ps r ∧ ∃ close, close.kind = .rightParen ∧ us = [close, e]) ?_
  · rwa [bind_assoc] at hparse
  · rintro items us ⟨hitems, hclose⟩
    refine .pure ⟨?_, hclose⟩
    have hreverse := hitems.reverse
    rwa [List.append_nil, List.reverse_reverse] at hreverse

/-- A list of parameters is read as these parameters, if each of their types and default values is
read on its own and does not go on with what stands behind it: nothing is reported, and those with a
default value or an optional type are told from the others, all in their order. -/
theorem parameters_read (h : WrittenList known e ts ps) (he : e.kind = .eof)
    (hn : ts.length < n) :
    Parses known (ts ++ [e]) (parameters (.upTo n)) fun r us =>
      Agree (ps.filter (!·.isOptional), ps.filter (·.isOptional)) r ∧ us = [e] := by
  obtain ⟨n, rfl⟩ : ∃ k, n = k + 1 := ⟨n - 1, by omega⟩
  have hend : ∀ (params : List Param) (close : Token), Agree ps params → close.kind = .rightParen →
      Parses known [close, e] (consume .rightParen "Expected ')' after parameters." >>= fun _ =>
        Pure.pure (params.filter (!·.isOptional), params.filter (·.isOptional))) fun r us =>
      Agree (ps.filter (!·.isOptional), ps.filter (·.isOptional)) r ∧ us = [e] := by
    intro params close hparams hclose
    refine .after (.consume hclose (by decide)) (Alike.consume _ (by decide) _).framed ?_
    rintro _ _ ⟨-, rfl⟩
    refine .pure ⟨⟨hparams.filter fun hp => ?_, hparams.filter Tandem.isOptional_congr⟩, rfl⟩
    exact congrArg not (Tandem.isOptional_congr hp)
  cases h with
  | none hopen hclose =>
    refine .inNode (.after (.consume hopen (by decide)) (Alike.consume _ (by decide) _).framed ?_)
    rintro _ _ ⟨-, rfl⟩
    refine .after (.check .rightParen) (Alike.check _).framed ?_
    rintro _ _ ⟨rfl, rfl⟩
    rw [hclose]
    exact hend [] _ .nil hclose
  | some hopen h =>
    rw [List.length_cons] at hn
    have hrow := Parses.commaSeparated_parameter h he (show _ ≤ n by omega)
    obtain ⟨name, more, rfl, hname⟩ := h.head
    refine .inNode (.after (.consume hopen (by decide)) (Alike.consume _ (by decide) _).framed ?_)
    rintro _ _ ⟨-, rfl⟩
    refine .after (.check .rightParen) (Alike.check _).framed ?_
    rintro _ _ ⟨rfl, rfl⟩
    rw [hname]
    refine hrow.bind ?_
    rintro params _ ⟨hparams, close, hclose, rfl⟩
    exact hend params close hparams hclose

end

/-- A token of a text in one line. -/
def token (kind : Token.Kind) (lexeme : String) (start : Nat) : Token :=
  { kind := kind, lexeme := lexeme, span := ⟨start, start + lexeme.length⟩, line := 1 }

/-- A text in one line of the length. -/
def input (length : Nat) : Input where
  source := ⟨"", "a"⟩
  eof := .eof length 1
  limit := 20

/-- In `(a: int? E, b: int, c = 1, d)` the comma behind `E` ends the type of `a`. -/
theorem parameters_read_mixed : ∃ (ts : List Token) (ps : List Param) (e : Token),
    ts.map (·.lexeme) = ["(", "a", ":", "int", "?", "E", ",", "b", ":", "int", ",", "c", "=", "1",
      ",", "d", ")"] ∧
    ps.map (·.name) = ["a", "b", "c", "d"] ∧ WrittenList false e ts ps ∧ e.kind = .eof ∧
    ts.length < 20 ∧
    Parses false (ts ++ [e]) (parameters (.upTo 20)) fun r us =>
      Agree (ps.filter (!·.isOptional), ps.filter (·.isOptional)) r ∧ us = [e] := by
  have hvalue : Completes false (exprRule (.upTo 3)) [token .intLiteral "1" 24]
      [token .rightParen ")" 28, .eof 29 1] ⟨.literal (.int "1"), ⟨24, 25⟩, 1⟩ :=
    ⟨by decide, input 29, _, rfl, rfl, rfl, rfl⟩
  let opening := token .leftParen "(" 0
  let a := token .identifier "a" 1
  let colon := token .colon ":" 2
  let int := token .intType "int" 4
  let question := token .question "?" 7
  let error := token .identifier "E" 9
  let comma := token .comma "," 10
  let b := token .identifier "b" 12
  let colon' := token .colon ":" 13
  let int' := token .intType "int" 15
  let comma' := token .comma "," 18
  let c := token .identifier "c" 20
  let equal := token .equal "=" 22
  let one := token .intLiteral "1" 24
  let comma'' := token .comma "," 25
  let d := token .identifier "d" 27
  let close := token .rightParen ")" 28
  let e : Token := .eof 29 1
  have htype : Completes false (typeRule (.upTo 5)) [int, question, error] [close, e]
      ⟨.primitive "int", false, ["E"], none, ⟨4, 10⟩, 1⟩ :=
    ⟨by decide, input 29, _, rfl, rfl, rfl, rfl⟩
  have htype' : Completes false (typeRule (.upTo 3)) [int'] [close, e]
      (.plain (.primitive "int") ⟨15, 18⟩ 1) :=
    ⟨by decide, input 29, _, rfl, rfl, rfl, rfl⟩
  have hcolon : ¬ Joins [close, e] [int, question, error]
      [comma, b, colon', int', comma', c, equal, one, comma'', d, close] := by
    intro hjoins
    rcases hjoins.keyword_or_question with h | ⟨-, _, _, _, hbehind, hmore⟩
    · exact absurd h (by decide)
    · cases hbehind
      exact hmore colon' rfl rfl
  have hpart : WrittenPart false e .colon typeRule [colon, int, question, error]
      [comma, b, colon', int', comma', c, equal, one, comma'', d, close] (some _) :=
    .present rfl rfl htype hcolon
  have hpart' : WrittenPart false e .colon typeRule [colon', int']
      [comma', c, equal, one, comma'', d, close] (some _) :=
    .present rfl rfl htype' fun hjoins =>
      hjoins.keyword_or_question.elim (absurd · (by decide)) fun h => absurd h.1 (by decide)
  have hpart'' : WrittenPart false e .equal exprRule [equal, one] [comma'', d, close] (some _) :=
    .present rfl rfl hvalue fun hjoins =>
      hjoins.keyword_or_question.elim (absurd · (by decide)) fun h => absurd h.1 (by decide)
  have ha : WrittenParam false e [a, colon, int, question, error] _ ⟨"a", _, none, ⟨1, 10⟩⟩ :=
    .intro rfl hpart .absent
  have hb : WrittenParam false e [b, colon', int'] _ ⟨"b", _, none, ⟨12, 18⟩⟩ :=
    .intro rfl hpart' .absent
  have hc : WrittenParam false e [c, equal, one] _ ⟨"c", none, _, ⟨20, 25⟩⟩ :=
    .intro rfl .absent hpart''
  have hd : WrittenParam false e [d] [close] ⟨"d", none, none, ⟨27, 28⟩⟩ :=
    .intro rfl .absent .absent
  have hrow := WrittenParams.more rfl ha (.more rfl hb (.more rfl hc (.last rfl hd)))
  have hlist : WrittenList false e (opening :: _) _ := .some rfl hrow
  exact ⟨_, _, e, rfl, rfl, hlist, rfl, by decide, parameters_read hlist rfl (by decide)⟩

/-- On its own the rule reads the part as the value. Of the list that the part stands in, from the
parenthesis that opens it to the one that closes it, nothing is reported, and `p` is the only
parameter. -/
def ReadsOn {α : Type} (rule : Rules → Parse α) (before part behind : List Token) (value : α)
    (p : Param) : Prop :=
  ∃ (close e : Token) (i : Input) (r : List Param × List Param) (t : State),
    close.kind = .rightParen ∧ e.kind = .eof ∧ i.eof = e ∧
    Completes false (rule (.upTo (part.length + 2))) part [close, e] value ∧
    exec (parameters (.upTo 20)) i (.before false (before ++ part ++ behind ++ [e])) = (.ok r, t) ∧
    t.errors.messages = #[] ∧ r.1 ++ r.2 = [p]

set_option maxRecDepth 4000 in
/-- In `(a: int? E, b)` the name `b` is one more error of the type of `a`, in `(a: int where b = 5)`
there is no default value, and in `(a = x? else print c, b)` and
`(a = x? else comptime import m show c, b)` the name `b` goes to the default value of `a`. -/
theorem parameters_join :
    (∃ type type' span, ReadsOn typeRule
      [token .leftParen "(" 0, token .identifier "a" 1, token .colon ":" 2]
      [token .intType "int" 4, token .question "?" 7, token .identifier "E" 9]
      [token .comma "," 10, token .identifier "b" 12, token .rightParen ")" 13]
      type ⟨"a", some type', none, span⟩ ∧ type.errors = ["E"] ∧ type'.errors = ["E", "b"]) ∧
    (∃ type p, ReadsOn typeRule
      [token .leftParen "(" 0, token .identifier "a" 1, token .colon ":" 2]
      [token .intType "int" 4, token .kwWhere "where" 8, token .identifier "b" 14]
      [token .equal "=" 16, token .intLiteral "5" 18, token .rightParen ")" 19] type p ∧
      p.default? = none) ∧
    (∃ value p, ReadsOn exprRule
      [token .leftParen "(" 0, token .identifier "a" 1, token .equal "=" 3]
      [token .identifier "x" 5, token .question "?" 6, token .kwElse "else" 8,
        token .kwPrint "print" 13, token .identifier "c" 19]
      [token .comma "," 20, token .identifier "b" 22, token .rightParen ")" 23] value p) ∧
    ∃ value p, ReadsOn exprRule
      [token .leftParen "(" 0, token .identifier "a" 1, token .equal "=" 3]
      [token .identifier "x" 5, token .question "?" 6, token .kwElse "else" 8,
        token .kwComptime "comptime" 13, token .kwImport "import" 22, token .identifier "m" 29,
        token .kwShow "show" 31, token .identifier "c" 36]
      [token .comma "," 37, token .identifier "b" 39, token .rightParen ")" 40] value p := by
  refine ⟨?_, ?_, ?_, ?_⟩
  · exact ⟨_, _, _, ⟨token .rightParen ")" 13, .eof 14 1, input 14, _, _, rfl, rfl, rfl,
      ⟨by decide, input 14, _, rfl, rfl, rfl, rfl⟩, rfl, rfl, rfl⟩, rfl, rfl⟩
  · exact ⟨_, _, ⟨token .rightParen ")" 19, .eof 20 1, input 20, _, _, rfl, rfl, rfl,
      ⟨by decide, input 20, _, rfl, rfl, rfl, rfl⟩, rfl, rfl, rfl⟩, rfl⟩
  · exact ⟨_, _, token .rightParen ")" 23, .eof 24 1, input 24, _, _, rfl, rfl, rfl,
      ⟨by decide, input 24, _, rfl, rfl, rfl, rfl⟩, rfl, rfl, rfl⟩
  · exact ⟨_, _, token .rightParen ")" 40, .eof 41 1, input 41, _, _, rfl, rfl, rfl,
      ⟨by decide, input 41, _, rfl, rfl, rfl, rfl⟩, rfl, rfl, rfl⟩

end LimitSyntax.Grammar
