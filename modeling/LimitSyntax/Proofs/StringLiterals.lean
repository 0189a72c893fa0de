import LimitSyntax.Proofs.Accepts
import LimitSyntax.Proofs.ErrorsReported
import LimitSyntax.Proofs.ScanAppend

/-!
# Strings that are written down and read

Any text can stand in a string once its backslashes, quotation marks and braces are escaped
(`Token.escape`), and names can stand between such texts as interpolations (`Token.written`). The
scanner reads back what was written (`Scan.forms_scan_written`), and so does the parser.
-/

namespace LimitSyntax

namespace Token

/-! ## Written strings -/

/-- A text as it stands in a string. -/
def escape (mark : Char) (text : List Char) : List Char :=
  text.flatMap fun c => if c = '\x5c' ∨ c = mark ∨ c = '{' then ['\x5c', c] else [c]

/-- A word that is no keyword. An underscore alone is no name. -/
structure IsName (name : String) : Prop where
  spelled : ∃ c cs, name.toList = c :: cs ∧ isWordStart c = true ∧ ∀ d ∈ cs, isWordChar d = true
  ne_underscore : name ≠ "_"
  no_keyword : Kind.ofWord? name = none

/-- What stands behind the opening mark of a string: a text and, for each of the names, an
interpolation and another text. -/
def written (mark : Char) (text : String) : List (String × String) → List Char
  | [] => escape mark text.toList ++ [mark]
  | (name, next) :: more =>
    escape mark text.toList ++ '{' :: (name.toList ++ '}' :: written mark next more)

/-- What a token is, wherever it stands. -/
def form (t : Token) : Kind × String × Option String := (t.kind, t.lexeme, t.value)

theorem form_eq_iff {t : Token} {kind : Kind} {lexeme : String} {value : Option String} :
    t.form = (kind, lexeme, value) ↔ t.kind = kind ∧ t.lexeme = lexeme ∧ t.value = value := by
  simp [form]

/-- The tokens of such a string, of which `opening` is read. -/
def forms (mark : Char) (opening : List Char) (text : String) :
    List (String × String) → List (Kind × String × Option String)
  | [] => [(.string, .ofList (opening ++ escape mark text.toList ++ [mark]), some text)]
  | (name, next) :: more =>
    (.interpolationStart, .ofList (opening ++ escape mark text.toList ++ ['{']), some text) ::
      (.identifier, name, none) :: (.interpolationEnd, .ofList ['}'], none) ::
        forms mark [] next more

theorem length_forms (mark : Char) (opening : List Char) (text : String)
    (more : List (String × String)) :
    (forms mark opening text more).length = 3 * more.length + 1 := by
  induction more generalizing opening text with
  | nil => rfl
  | cons part more ih =>
    rw [forms, List.length_cons, List.length_cons, List.length_cons, ih, List.length_cons]
    omega

/-! ## Reading them -/

section
variable {mark : Char} (hmark : isQuote mark = true)
include hmark

theorem mark_ne_backslash : mark ≠ '\x5c' := by rintro rfl; cases hmark

theorem unescape_mark : unescape mark = [mark] := by
  simp only [isQuote, Bool.or_eq_true, decide_eq_true_eq] at hmark
  obtain rfl | rfl := hmark <;> rfl

/-- Escaped text is read as what it stands for. -/
theorem stretchFrom_escape (taken value text rest : List Char) :
    stretchFrom mark taken value (escape mark text ++ rest) =
      stretchFrom mark ((escape mark text).reverse ++ taken) (text.reverse ++ value) rest := by
  induction text generalizing taken value with
  | nil => rfl
  | cons c text ih =>
    by_cases hc : c = '\x5c' ∨ c = mark ∨ c = '{'
    · have hcons : escape mark (c :: text) = '\x5c' :: c :: escape mark text := by
        simp [escape, hc]
      have hvalue : unescape c = [c] := by
        obtain rfl | rfl | rfl := hc
        · rfl
        · exact unescape_mark hmark
        · rfl
      rw [hcons, List.cons_append, List.cons_append, stretchFrom, hvalue, ih]
      simp
    · have hcons : escape mark (c :: text) = c :: escape mark text := by simp [escape, hc]
      rw [not_or, not_or] at hc
      rw [hcons, List.cons_append, stretchFrom_cons hc.1, if_neg hc.2.1, if_neg (by simp [hc.2.2]),
        ih]
      simp

/-- The last text of a string. -/
theorem stretchFrom_written_nil (taken text : List Char) :
    stretchFrom mark taken [] (escape mark text ++ [mark]) =
      ⟨.closed, taken.reverse ++ escape mark text ++ [mark], text, []⟩ := by
  rw [stretchFrom_escape hmark, stretchFrom_cons (mark_ne_backslash hmark), if_pos rfl]
  simp

end

/-! ## Names -/

theorem isDigit_of_isWordStart {c : Char} (hc : isWordStart c = true) : c.isDigit = false := by
  rw [isWordStart, Bool.or_eq_true, decide_eq_true_eq] at hc
  obtain halpha | rfl := hc
  · refine Bool.eq_false_iff.2 fun hdigit => ?_
    have hle : c.val.toNat ≤ 57 := of_decide_eq_true (Bool.and_eq_true_iff.1 hdigit).2
    obtain hupper | hlower := Bool.or_eq_true_iff.1 halpha
    · have h65 : 65 ≤ c.val.toNat := (of_decide_eq_true hupper).1
      omega
    · have h97 : 97 ≤ c.val.toNat := of_decide_eq_true (Bool.and_eq_true_iff.1 hlower).1
      omega
  · rfl

namespace IsName

variable {name : String} (hname : IsName name)
include hname

theorem isWordChar {c : Char} (hc : c ∈ name.toList) : isWordChar c = true := by
  obtain ⟨d, ds, heq, hstart, htail⟩ := hname.spelled
  rw [heq, List.mem_cons] at hc
  obtain rfl | hc := hc
  · simp only [isWordStart, Token.isWordChar, Char.isAlphanum, Bool.or_eq_true] at hstart ⊢
    tauto
  · exact htail c hc

theorem wordKind : wordKind name.toList = .identifier := by
  have hne : name.toList ≠ ['_'] := fun h => hname.ne_underscore (String.toList_injective h)
  rw [Token.wordKind, if_neg hne, String.ofList_toList, hname.no_keyword]
  rfl

/-- A name alone is read as such. -/
theorem front : ∃ c cs, name.toList = c :: cs ∧
    Front.of c cs = .token .identifier name.toList [] := by
  obtain ⟨c, cs, heq, hstart, -⟩ := hname.spelled
  refine ⟨c, cs, heq, ?_⟩
  have hne : ∀ d, isWordStart d = false → c ≠ d := by
    rintro d hd rfl
    rw [hstart] at hd
    cases hd
  have hdigit : c.isDigit = false := isDigit_of_isWordStart hstart
  have hword : word (c :: cs) = (.identifier, name.toList, []) := by
    have hall : ∀ d ∈ name.toList, Token.isWordChar d = true := fun _ hd => hname.isWordChar hd
    simp only [word, List.span_eq_takeWhile_dropWhile, ← heq, List.takeWhile_eq_self_iff.2 hall,
      List.dropWhile_eq_nil_iff.2 hall, hname.wordKind]
  have hblank : isBlank c = false := by
    simp [isBlank, hne ' ' rfl, hne '\t' rfl, hne '\r' rfl, hne '\x0b' rfl, hne '\x0c' rfl]
  have hquote : isQuote c = false := by simp [isQuote, hne '\x22' rfl, hne '\x27' rfl]
  simp [Front.of, Front.ofToken, hblank, hquote, hdigit, hstart, hword, hne '\n' rfl, hne '/' rfl]

end IsName

section
variable {mark : Char} (hmark : isQuote mark = true) {name : String} (hname : IsName name)
include hmark hname

/-- Neither braces nor quotation marks stand in names. -/
theorem IsName.ne {c : Char} (hc : c ∈ name.toList) : c ≠ '{' ∧ c ≠ '}' ∧ c ≠ mark := by
  have hword := hname.isWordChar hc
  refine ⟨?_, ?_, ?_⟩
  · rintro rfl
    cases hword
  · rintro rfl
    cases hword
  · rintro rfl
    simp only [isQuote, Bool.or_eq_true, decide_eq_true_eq] at hmark
    obtain rfl | rfl := hmark <;> cases hword

/-- A brace before a name opens an interpolation. -/
theorem IsName.opensInterpolation (rest : List Char) :
    opensInterpolation mark (name.toList ++ '}' :: rest) = true := by
  obtain ⟨c, cs, heq, hstart, -⟩ := hname.spelled
  have hc : c ∈ name.toList := heq ▸ List.mem_cons_self
  obtain ⟨-, hclose, hend⟩ := hname.ne hmark hc
  refine List.any_eq_true.2 ⟨c, ?_, ?_⟩
  · rw [heq, List.cons_append, List.takeWhile_cons_of_pos (by simp [hclose, hend])]
    exact List.mem_cons_self
  · have hbare : c.isDigit = false := isDigit_of_isWordStart hstart
    have hcomma : c ≠ ',' := by rintro rfl; cases hstart
    have hspace : c ≠ ' ' := by rintro rfl; cases hstart
    simp [hbare, hcomma, hspace]

/-- The name is what is interpolated. -/
theorem IsName.interpolation? (rest : List Char) :
    interpolation? mark (name.toList ++ '}' :: rest) = some (name.toList, rest) := by
  have hread : ∀ cs inner, (∀ c ∈ cs, c ∈ name.toList) →
      interpolationFrom mark 0 inner (cs ++ '}' :: rest) = some (inner.reverse ++ cs, rest) := by
    intro cs
    induction cs with
    | nil =>
      intro inner _
      simp [interpolationFrom]
    | cons c cs ih =>
      intro inner hcs
      obtain ⟨hopen, hclose, hend⟩ := hname.ne hmark (hcs c List.mem_cons_self)
      rw [List.cons_append, interpolationFrom, if_neg hopen, if_neg hclose, if_neg hend,
        ih (c :: inner) fun d hd => hcs d (List.mem_cons_of_mem _ hd)]
      simp
  exact hread name.toList [] fun _ hc => hc

/-- A text before an interpolation. -/
theorem stretchFrom_written_cons (taken text rest : List Char) :
    stretchFrom mark taken [] (escape mark text ++ '{' :: (name.toList ++ '}' :: rest)) =
      ⟨.opened, taken.reverse ++ escape mark text ++ ['{'], text, name.toList ++ '}' :: rest⟩ := by
  have hne : '{' ≠ mark := by
    rintro rfl
    cases hmark
  rw [stretchFrom_escape hmark, stretchFrom_cons (by decide), if_neg hne,
    hname.opensInterpolation hmark]
  simp

end

end Token

namespace Scan

/-! ## Scans of written strings -/

namespace State

variable (src : Source) (mode : Mode) {mark : Char} (hmark : Token.isQuote mark = true)
include hmark

/-- A written string, its opening mark read, is read up to its end. -/
theorem steps_written (s : State) (hwaiting : s.waiting = []) (opening : List Char) (text : String)
    {more : List (String × String)} (hmore : ∀ p ∈ more, Token.IsName p.1) :
    ∃ t, Steps src mode (s.stretch src mark
        (Token.stretchFrom mark opening.reverse [] (Token.written mark text more))) t ∧
      t.rest = [] ∧ t.waiting = [] ∧ t.errors = s.errors ∧
      t.tokens.map Token.form =
        (Token.forms mark opening text more).reverse ++ s.tokens.map Token.form := by
  induction more generalizing s opening text with
  | nil =>
    rw [Token.written, Token.stretchFrom_written_nil hmark]
    refine ⟨_, .refl, rfl, hwaiting, rfl, ?_⟩
    simp [stretch, token, Token.form, Token.forms]
  | cons part more ih =>
    obtain ⟨name, next⟩ := part
    have hname : Token.IsName name := hmore _ List.mem_cons_self
    obtain ⟨c, cs, heq, hfront⟩ := hname.front
    rw [Token.written, Token.stretchFrom_written_cons hmark hname]
    have hinner := hname.interpolation? hmark (Token.written mark next more)
    simp only [stretch, List.reverse_reverse, hinner, String.ofList_toList]
    set u : State := { s.token .interpolationStart _ _ (some text) with
      rest := name.toList, waiting := ⟨mark, Token.written mark next more⟩ :: s.waiting } with hu
    have hread : step? u src mode = some (u.token .identifier name.toList [] none) := by
      have hrest : u.rest = c :: cs := heq
      simp only [step?, hrest, hfront, lexeme]
    have hleave : step? (u.token .identifier name.toList [] none) src mode =
        some ((u.token .identifier name.toList [] none).leave src
          ⟨mark, Token.written mark next more⟩ s.waiting) := rfl
    obtain ⟨t, hsteps, hrest, hwait, herrors, htokens⟩ := ih
      ({ u.token .identifier name.toList [] none with waiting := s.waiting }.token
        .interpolationEnd ['}'] (Token.written mark next more) none) hwaiting [] next
      fun p hp => hmore p (List.mem_cons_of_mem _ hp)
    refine ⟨t, .head hread (.head hleave hsteps), hrest, hwait, herrors, ?_⟩
    rw [htokens]
    simp [token, Token.form, Token.forms, hu, State.advance]

end State

/-- What is written is scanned, in either mode, as the tokens it stands for, and nothing is
reported. -/
theorem forms_scan_written {mark : Char} (hmark : Token.isQuote mark = true) (text : String)
    {more : List (String × String)} (hmore : ∀ p ∈ more, Token.IsName p.1) (file : String)
    (mode : Mode) (errors : Diagnostic.Collector) :
    (scan ⟨.ofList (mark :: Token.written mark text more), file⟩ mode errors).1.tokens.map
        Token.form = Token.forms mark [mark] text more ++ [(.eof, "", none)] ∧
      (scan ⟨.ofList (mark :: Token.written mark text more), file⟩ mode errors).2 = errors := by
  set src : Source := ⟨.ofList (mark :: Token.written mark text more), file⟩ with hsrc
  have htext : src.text.toList = mark :: Token.written mark text more := String.toList_ofList
  let s : State := { rest := src.text.toList, errors }
  obtain ⟨t, hsteps, hrest, hwaiting, herrors, htokens⟩ :=
    s.steps_written src mode hmark rfl [mark] text hmore
  have hfront : Token.Front.of mark (Token.written mark text more) =
      .quote mark (Token.written mark text more) := by
    simp only [Token.isQuote, Bool.or_eq_true, decide_eq_true_eq] at hmark
    obtain rfl | rfl := hmark <;> rfl
  have hopen : s.step? src mode = some (s.stretch src mark
      (Token.stretchFrom mark [mark] [] (Token.written mark text more))) := by
    have hrest : s.rest = mark :: Token.written mark text more := htext
    simp only [State.step?, hrest, hfront, State.lexeme]
  have hend : State.atEnd src mode errors = t := by
    refine State.run_eq_of_steps (.head hopen hsteps) ?_ (Nat.le_of_eq ?_)
    · simp only [State.step?, hrest, hwaiting]
    · simp [State.remaining, s]
  rw [tokens_scan, errors_scan, hend]
  refine ⟨?_, herrors⟩
  rw [List.map_append, List.map_reverse, htokens]
  simp [s, Token.form, State.eof, Token.eof]

end Scan

/-! ## Parses of written strings -/

namespace Ast

/-- A part of a string, wherever it stands. -/
def StringPart.shape : StringPart → String ⊕ ExprKind
  | .str text => .inl text
  | .expr e => .inr e.kind

/-- Texts, and names between them. -/
def shapes (text : String) : List (String × String) → List (String ⊕ ExprKind)
  | [] => [.inl text]
  | (name, next) :: more => .inl text :: .inr (.variable name) :: shapes next more

/-- The expression stands for a string of texts with names between them. -/
def Expr.IsString (text : String) (more : List (String × String)) (e : Expr) : Prop :=
  match more with
  | [] => e.kind = .literal (.str text)
  | _ :: _ => ∃ parts, e.kind = .interpolated parts ∧ parts.map StringPart.shape = shapes text more

end Ast

namespace Grammar

open Ast

namespace Accepts

variable {rules : Rules} {mark : Char}

/-- A name in an interpolation. -/
theorem interpolatedName {fuel : Nat} {x y : Token} {us : List Token} (hx : x.kind = .identifier)
    (hy : y.kind = .interpolationEnd) :
    Accepts (x :: y :: us) (Rule.call (fuel + 1) .expression) fun e vs =>
      e.kind = .variable x.lexeme ∧ vs = y :: us := by
  refine .exprRule_primary (Nat.succ_pos _) (.of_none (by rw [hy]; rfl)) (by rw [hx]; rfl)
    (.namePrimary hx ?_)
  rw [hy]
  decide

section
variable (hcall : ∀ x y us, x.kind = .identifier → y.kind = .interpolationEnd →
    Accepts (x :: y :: us) (rules.call .expression) fun e vs =>
      e.kind = .variable x.lexeme ∧ vs = y :: us)
  (us : List Token)
include hcall

/-- The interpolations of a string, up to its last text. -/
theorem interpolations (opening : List Char) (text : String) (more : List (String × String))
    {ts : List Token} (hts : ts.map Token.form = Token.forms mark opening text more) {n : Nat}
    (hn : more.length < n) (parts : List StringPart) :
    Accepts (ts ++ us) (Grammar.repeatUpTo (fun parts => do
        if ← Grammar.check .interpolationStart then
          let text := (← Grammar.advance).text
          let e ← rules.call .expression
          Grammar.consumeClose .interpolationEnd "Expected '\x7d' after interpolation expression."
          return (.expr e :: .str text :: parts, true)
        else return (parts, false)) n parts) fun parts' vs =>
      ∃ last, vs = last :: us ∧ last.kind = .string ∧
        parts'.reverse.map StringPart.shape ++ [.inl last.text] =
          parts.reverse.map StringPart.shape ++ shapes text more := by
  induction more generalizing opening text ts n parts with
  | nil =>
    obtain ⟨last, rfl, hlast⟩ := List.map_eq_singleton_iff.1 hts
    obtain ⟨hkind, -, hvalue⟩ := Token.form_eq_iff.1 hlast
    refine .stop (Nat.zero_lt_of_lt hn) (.bindTo (.check .interpolationStart) ?_)
      ⟨last, rfl, hkind, ?_⟩
    · rw [hkind]
      exact .pure ⟨rfl, rfl⟩
    · rw [Token.text, hvalue]
      rfl
  | cons part more ih =>
    obtain ⟨name, next⟩ := part
    obtain ⟨start, _, rfl, hstart, hts⟩ := List.map_eq_cons_iff.1 hts
    obtain ⟨x, _, rfl, hx, hts⟩ := List.map_eq_cons_iff.1 hts
    obtain ⟨y, ws, rfl, hy, hws⟩ := List.map_eq_cons_iff.1 hts
    obtain ⟨hkind, -, hvalue⟩ := Token.form_eq_iff.1 hstart
    obtain ⟨hname, hlexeme, -⟩ := Token.form_eq_iff.1 hx
    obtain ⟨hclose, -⟩ := Token.form_eq_iff.1 hy
    obtain ⟨n, rfl⟩ := Nat.exists_eq_succ_of_ne_zero (Nat.ne_of_gt (Nat.zero_lt_of_lt hn))
    refine .repeatUpTo (T := fun r vs => ∃ e, r = (.expr e :: .str text :: parts, true) ∧
      e.kind = .variable name ∧ vs = ws ++ us) ?_ ?_ ?_
    · refine .bindTo (.check .interpolationStart) ?_
      rw [hkind]
      refine .bindTo (.advance (by rw [hkind]; decide)) <|
        (hcall x y (ws ++ us) hname hclose).bind ?_
      rintro e _ ⟨he, rfl⟩
      refine (Accepts.consumeClose hclose (by decide)).bindAny fun _ => .pure ?_
      refine ⟨e, ?_, hlexeme ▸ he, rfl⟩
      rw [Token.text, hvalue]
      rfl
    · rintro _ _ ⟨e, heq, he, rfl⟩
      cases heq
      refine (ih [] next hws (Nat.lt_of_succ_lt_succ hn) _).mono ?_
      rintro parts' vs ⟨last, hvs, hlast, hshape⟩
      refine ⟨last, hvs, hlast, hshape.trans ?_⟩
      simp [StringPart.shape, shapes, he]
    · rintro _ _ ⟨e, heq, -⟩
      cases heq

/-- A written string is read as the expression it stands for. -/
theorem primary_written (opening : List Char) (text : String) (more : List (String × String))
    {ts : List Token} (hts : ts.map Token.form = Token.forms mark opening text more)
    (hbound : more.length < rules.bound) :
    Accepts (ts ++ us) (primary rules) fun e vs => e.IsString text more ∧ vs = us := by
  have hloop := interpolations hcall us opening text more hts hbound []
  cases more with
  | nil =>
    obtain ⟨last, rfl, hlast⟩ := List.map_eq_singleton_iff.1 hts
    obtain ⟨hkind, -, hvalue⟩ := Token.form_eq_iff.1 hlast
    refine (stringPrimary hkind).mono ?_
    rintro e _ ⟨he, rfl⟩
    rw [Token.text, hvalue] at he
    exact ⟨he, rfl⟩
  | cons part more =>
    obtain ⟨start, _, rfl, hstart, -⟩ := List.map_eq_cons_iff.1 hts
    obtain ⟨hkind, -⟩ := Token.form_eq_iff.1 hstart
    refine .bindAny .startPos fun place => ?_
    obtain ⟨at', line⟩ := place
    refine .bindTo .peek ?_
    simp only [literal?, hkind]
    refine .bind (Q := fun kind vs => (∃ parts, kind = .interpolated parts ∧
      parts.map StringPart.shape = shapes text (part :: more)) ∧ vs = us) (.inNode ?_) ?_
    · refine hloop.bind ?_
      rintro parts _ ⟨last, rfl, hlast, hshape⟩
      refine .bindTo (.check .string) ?_
      rw [hlast]
      refine .bindTo (.advance (by rw [hlast]; decide)) <| .bindTo (.pure ⟨rfl, rfl⟩) <|
        .pure ⟨⟨_, rfl, ?_⟩, rfl⟩
      simpa [StringPart.shape] using hshape
    · rintro kind _ ⟨hparts, rfl⟩
      refine Accepts.exprFrom.mono ?_
      rintro e _ ⟨rfl, rfl⟩
      exact ⟨hparts, rfl⟩

end

end Accepts

/-- A stream of the tokens of a written string has one statement, and nothing is reported. -/
theorem runProgram_written {mark : Char} {text : String} {more : List (String × String)}
    (stream : Scan.Stream) (hstream : stream.tokens.map Token.form =
      Token.forms mark [mark] text more ++ [(.eof, "", none)])
    (config : Config) (errors : Diagnostic.Collector) :
    (∃ stmt e, (runProgram stream config errors).1 = [stmt] ∧ stmt.kind = .expression e ∧
      e.IsString text more) ∧ (runProgram stream config errors).2.errors = errors := by
  obtain ⟨ts, us, htokens, hts, hus⟩ := List.map_eq_append_iff.1 hstream
  obtain ⟨u, rfl, hu⟩ := List.map_eq_singleton_iff.1 hus
  have heof : u.kind = .eof := (Token.form_eq_iff.1 hu).1
  have hlength : stream.tokens.length = 3 * more.length + 2 := by
    rw [← List.length_map Token.form, hstream, List.length_append, Token.length_forms]
    rfl
  obtain ⟨t, ts', rfl, hopens⟩ : ∃ t ts', ts = t :: ts' ∧ Accepts.Opens t := by
    cases more with
    | nil =>
      obtain ⟨t, ts', rfl, ht, -⟩ := List.map_eq_cons_iff.1 hts
      exact ⟨t, ts', rfl, .inl (Token.form_eq_iff.1 ht).1⟩
    | cons part more =>
      obtain ⟨t, ts', rfl, ht, -⟩ := List.map_eq_cons_iff.1 hts
      exact ⟨t, ts', rfl, .inr (Token.form_eq_iff.1 ht).1⟩
  have hexpr : Accepts (t :: (ts' ++ [u])) (exprRule (.upTo stream.tokens.length)) fun e vs =>
      e.IsString text more ∧ vs = [u] := by
    rw [hlength]
    refine .exprRule_primary (Nat.succ_pos _) (.of_none (by rw [heof]; rfl)) (hopens.eq rfl rfl) ?_
    refine Accepts.primary_written (fun x y us hx hy => .interpolatedName hx hy) [u] [mark] text
      more hts ?_
    exact Nat.lt_succ_of_le (by omega)
  obtain ⟨stmts, s, hexec, herrors, -, hstmts⟩ := Accepts.topDeclarations hopens heof hexpr
    (Nat.lt_succ_of_le (by omega)) (.of stream config) (.start stream config errors) htokens rfl
  rw [runProgram_eq, hexec]
  exact ⟨hstmts, herrors⟩

/-- Strings decode what was encoded. Texts are written with their escapes, and names between them as
interpolations. Then a scan in either mode reports nothing and has the tokens of these texts and
names; and the source is a program of one statement, an expression that stands for them. -/
theorem written_string_read (mark : Char) (hmark : mark = '\x22' ∨ mark = '\x27') (text : String)
    (more : List (String × String)) (hmore : ∀ p ∈ more, Token.IsName p.1) (src : Source)
    (hsrc : src.text = .ofList (mark :: Token.written mark text more)) :
    (∀ mode errors, (Scan.scan src mode errors).1.tokens.map Token.form =
        Token.forms mark [mark] text more ++ [(.eof, "", none)] ∧
      (Scan.scan src mode errors).2 = errors) ∧
    (∀ config errors, (∃ stmt e, (parseSource src config errors).1.program.statements = [stmt] ∧
        stmt.kind = .expression e ∧ e.IsString text more) ∧
      (parseSource src config errors).2 = errors) ∧
    ∃ program stmt e, parseProgram src = .ok program ∧ program.statements = [stmt] ∧
      stmt.kind = .expression e ∧ e.IsString text more := by
  have hquote : Token.isQuote mark = true := by simpa [Token.isQuote] using hmark
  obtain ⟨source, file⟩ := src
  obtain rfl : source = .ofList (mark :: Token.written mark text more) := hsrc
  have hscan := Scan.forms_scan_written hquote text hmore file
  generalize Source.mk (.ofList (mark :: Token.written mark text more)) file = src at hscan ⊢
  have hparse : ∀ config errors mode,
      (∃ stmt e, (parseScanned src mode config errors).1.program.statements = [stmt] ∧
        stmt.kind = .expression e ∧ e.IsString text more) ∧
      (parseScanned src mode config errors).2 = errors := by
    intro config errors mode
    obtain ⟨htokens, herrors⟩ := hscan mode errors
    have hrun := runProgram_written ⟨(Scan.scan src mode errors).1.tokens, mode, src⟩ htokens config
      (Scan.scan src mode errors).2
    rw [parseScanned, statements_parse, collector_parse]
    exact ⟨hrun.1, hrun.2.trans herrors⟩
  refine ⟨hscan, fun config errors => ?_, ?_⟩
  · obtain ⟨hstmts, herrors⟩ :=
      hparse config errors (if config.buildTree then .lossless else .lossy)
    rw [program_parseSource src config errors _ rfl]
    exact ⟨hstmts, by rw [parseSource_eq src config errors _ rfl, herrors]⟩
  · obtain ⟨⟨stmt, e, hstmts, hkind, he⟩, herrors⟩ := hparse {} {} .lossy
    refine ⟨_, stmt, e, parseProgram_eq_ok_iff.2 ⟨?_, rfl⟩, hstmts, hkind, he⟩
    rw [herrors]

/-- A quotation mark and a line feed around a name. -/
theorem written_string_read_name : Token.IsName "x" ∧
    ∃ program stmt e parts, parseProgram ⟨"\"\\\"\x7bx\x7d\n\"", "a"⟩ = .ok program ∧
      program.statements = [stmt] ∧ stmt.kind = .expression e ∧ e.kind = .interpolated parts ∧
      parts.map StringPart.shape = [.inl "\"", .inr (.variable "x"), .inl "\n"] := by
  have hname : Token.IsName "x" :=
    ⟨⟨'x', [], rfl, by decide, by simp⟩, by decide, by decide⟩
  obtain ⟨-, -, program, stmt, e, hparse, hstmts, hkind, parts, he, hparts⟩ :=
    written_string_read '\x22' (.inl rfl) "\"" [("x", "\n")]
      (by rintro p (_ | ⟨_, ⟨⟩⟩); exact hname) ⟨"\"\\\"\x7bx\x7d\n\"", "a"⟩ (by decide)
  exact ⟨hname, program, stmt, e, parts, hparse, hstmts, hkind, he, hparts⟩

end Grammar

end LimitSyntax
