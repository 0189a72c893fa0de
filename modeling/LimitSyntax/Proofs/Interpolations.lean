import LimitSyntax.Proofs.Brackets
import LimitSyntax.Proofs.ErrorsReported
import LimitSyntax.Proofs.MakesExprs

/-!
# Interpolated strings

Behind an interpolation the text of its string goes on (`Grammar.Strung`): so a scan that reports
nothing has it, and the parser relies on that. What it makes of a string with interpolations are
texts and expressions in turn, with a text at both ends (`Ast.Alternates`).
-/

namespace LimitSyntax

namespace Ast

def StringPart.isText : StringPart → Bool
  | .str _ => true
  | .expr _ => false

/-- Texts at even positions, expressions at odd ones. -/
def InTurn (parts : List StringPart) : Prop :=
  ∀ (k : Nat) (part : StringPart), parts[k]? = some part → (part.isText = true ↔ k % 2 = 0)

/-- Texts and expressions in turn, with texts at both ends and an expression between them. -/
def Alternates (parts : List StringPart) : Prop :=
  parts.length % 2 = 1 ∧ 3 ≤ parts.length ∧ InTurn parts

theorem InTurn.concat {parts : List StringPart} (h : InTurn parts) {part : StringPart}
    (hpart : part.isText = true ↔ parts.length % 2 = 0) : InTurn (parts ++ [part]) := by
  intro k other hk
  rcases Nat.lt_or_ge k parts.length with hlt | hge
  · rw [List.getElem?_append_left hlt] at hk
    exact h k other hk
  · have hlast := (List.getElem?_eq_some_iff.1 hk).1
    rw [List.length_append, List.length_singleton] at hlast
    obtain rfl : k = parts.length := by omega
    obtain rfl : part = other := by simpa using hk
    exact hpart

/-- Texts with an expression behind each of them, last ones first. -/
inductive Paired : List StringPart → Prop where
  | nil : Paired []
  | cons (e : Expr) (text : String) {parts : List StringPart} (h : Paired parts) :
      Paired (.expr e :: .str text :: parts)

namespace Paired

variable {parts : List StringPart}

theorem length_mod (h : Paired parts) : parts.length % 2 = 0 := by
  induction h with
  | nil => rfl
  | cons e text _ ih =>
    rw [List.length_cons, List.length_cons]
    omega

theorem inTurn (h : Paired parts) : InTurn parts.reverse := by
  induction h with
  | nil => exact fun _ _ hk => nomatch hk
  | cons e text hparts ih =>
    have hlength := hparts.length_mod
    rw [List.reverse_cons, List.reverse_cons]
    refine (ih.concat ?_).concat ?_
    · simpa [StringPart.isText] using hlength
    · simp [StringPart.isText]
      omega

/-- The text behind the last expression makes a string. -/
theorem alternates (h : Paired parts) (hne : parts ≠ []) (last : String) :
    Alternates (.str last :: parts).reverse := by
  have hlength := h.length_mod
  refine ⟨?_, ?_, ?_⟩
  · rw [List.length_reverse, List.length_cons]
    omega
  · cases h with
    | nil => exact absurd rfl hne
    | cons => simp
  · rw [List.reverse_cons]
    exact h.inTurn.concat (by simpa [StringPart.isText] using hlength)

end Paired

end Ast

namespace Grammar

open Ast

variable {i : Input} {s t : State} {rules : Rules}

/-! ## Tokens -/

/-- Behind the end of an interpolation the string goes on to its end or a further interpolation. -/
def Strung (ts : List Token) : Prop :=
  ∀ (close : Token) (rest : List Token), close :: rest <:+ ts → close.kind = .interpolationEnd →
    ∃ next more, rest = next :: more ∧ (next.kind = .interpolationStart ∨ next.kind = .string)

theorem Strung.suffix {ts us : List Token} (h : us <:+ ts) (hts : Strung ts) : Strung us :=
  fun close rest hsuffix => hts close rest (hsuffix.trans h)

/-- The tokens of a scan that reports nothing. -/
theorem strung_scan {src : Source} {mode : Scan.Mode} {errors : Diagnostic.Collector}
    (h : (Scan.scan src mode errors).2.messages = #[]) :
    Strung (Scan.scan src mode errors).1.tokens := by
  have hchain := Scan.isChain_scan src mode errors
  obtain ⟨ts, e, htokens, he, hkinds⟩ := Scan.tokens_of_clean h
  rw [htokens] at hchain ⊢
  intro close rest hsuffix hclose
  cases rest with
  | nil =>
    have hlast : close = e := by simpa using hsuffix.getLast (by simp)
    rw [hlast, he] at hclose
    cases hclose
  | cons next more =>
    have hpair := (hchain.suffix (hsuffix.map Token.kind)).rel
    have hmem : next ∈ ts ++ [e] := hsuffix.subset (by simp)
    refine ⟨next, more, rfl, ?_⟩
    rcases hpair hclose with hkind | hkind | hkind
    · exact .inl hkind
    · exact .inr hkind
    · rcases List.mem_append.1 hmem with hmem | hmem
      · exact absurd hkind (hkinds next hmem).2
      · rw [List.mem_singleton.1 hmem, he] at hkind
        cases hkind

/-! ## Reading a string -/

theorem exec_consumeClose_eq_ok {kind : Token.Kind} (hkind : kind ≠ .eof)
    (heof : i.eof.kind = .eof) {description : String} {a : Unit}
    (h : exec (consumeClose kind description) i s = (.ok a, t)) :
    ∃ v, v.kind = kind ∧ s.rest = v :: t.rest := by
  rw [consumeClose, exec_bind_ok i (exec_check i s _)] at h
  split at h
  next hnext =>
    rw [exec_bind, exec_advance] at h
    cases hrest : s.rest with
    | nil =>
      rw [hrest] at hnext
      exact absurd ((beq_iff_eq.1 hnext).symm.trans heof) hkind
    | cons v rest =>
      rw [hrest] at h hnext
      have hv : v.kind = kind := beq_iff_eq.1 hnext
      simp only [hv, hkind, if_false] at h
      cases h
      exact ⟨v, hv, rfl⟩
  next =>
    obtain ⟨_, _, _, hgive⟩ := exec_bind_eq_ok h
    cases hgive

/-- One turn of the reading of a string, and whether it goes on. -/
def stringTurn (rules : Rules) (parts : List StringPart) : Parse (List StringPart × Bool) := do
  if ← check .interpolationStart then
    let text := (← advance).text
    let e ← rules.call .expression
    consumeClose .interpolationEnd "Expected '\x7d' after interpolation expression."
    return (.expr e :: .str text :: parts, true)
  else return (parts, false)

theorem stepwise_stringTurn (hr : rules.Lawful) (parts : List StringPart) :
    Stepwise (stringTurn rules parts) :=
  .bind (Alike.check _).stepwise fun _ => .ite
    (.bind .advance fun _ => .bind (hr.alike .expression).stepwise fun _ =>
      .bind (Alike.consumeClose ..).stepwise fun _ => .pure _) (.pure _)

/-- A turn is the last one, or it reads a text and an expression; then the string goes on. -/
theorem exec_stringTurn_cases (hr : rules.Lawful) (heof : i.eof.kind = .eof)
    (hs : Strung s.rest) {parts : List StringPart} {r : List StringPart × Bool}
    (h : exec (stringTurn rules parts) i s = (.ok r, t)) :
    ((s.rest[0]?.getD i.eof).kind ≠ .interpolationStart ∧ r = (parts, false) ∧ t = s) ∨
      ∃ e text, r = (.expr e :: .str text :: parts, true) ∧
        ((t.rest[0]?.getD i.eof).kind = .interpolationStart ∨
          (t.rest[0]?.getD i.eof).kind = .string) := by
  rw [stringTurn, exec_bind_ok i (exec_check i s _)] at h
  split at h
  next hstart =>
    obtain ⟨v, u, hadvance, h⟩ := exec_bind_eq_ok h
    obtain ⟨e, w, hexpr, h⟩ := exec_bind_eq_ok h
    obtain ⟨_, _, hclose, h⟩ := exec_bind_eq_ok h
    cases h
    refine .inr ⟨e, v.text, rfl, ?_⟩
    have hfirst : Steps i s u := Stepwise.advance.run heof hadvance
    have hsecond : Steps i u w := (hr.alike .expression).stepwise.run heof hexpr
    have hsteps : Steps i s w := hfirst.trans hsecond
    obtain ⟨close, hkind, hrest⟩ := exec_consumeClose_eq_ok (by decide) heof hclose
    have hsuffix : close :: t.rest <:+ s.rest := hrest ▸ hsteps.rest_suffix
    obtain ⟨next, more, hmore, hnext⟩ := hs close t.rest hsuffix hkind
    rw [hmore]
    exact hnext
  next hstart =>
    cases h
    exact .inl ⟨by simpa using hstart, rfl, rfl⟩

/-- The turns of the reading of a string end at its last text. -/
theorem exec_stringTurns (hr : rules.Lawful) (heof : i.eof.kind = .eof) (hs : Strung s.rest)
    {n : Nat} {parts read : List StringPart} (hparts : Paired parts)
    (hnext : (s.rest[0]?.getD i.eof).kind = .interpolationStart ∨
      (s.rest[0]?.getD i.eof).kind = .string ∧ parts ≠ [])
    (h : exec (repeatUpTo (stringTurn rules) n parts) i s = (.ok read, t))
    (hspent : t.spent = false) :
    Paired read ∧ read ≠ [] ∧ (t.rest[0]?.getD i.eof).kind = .string := by
  induction n generalizing s parts with
  | zero =>
    cases h
    cases hspent
  | succ n ih =>
    obtain ⟨r, u, hturn, hrest⟩ := exec_bind_eq_ok h
    have hsteps : Steps i s u := (stepwise_stringTurn hr parts).run heof hturn
    rcases exec_stringTurn_cases hr heof hs hturn with ⟨hlast, rfl, rfl⟩ | ⟨e, text, rfl, hmore⟩
    · cases hrest
      obtain hnext | ⟨hnext, hne⟩ := hnext
      · exact absurd hnext hlast
      · exact ⟨hparts, hne, hnext⟩
    · exact ih (hs.suffix hsteps.rest_suffix) (.cons e text hparts)
        (hmore.imp_right fun hstring => ⟨hstring, nofun⟩) hrest

/-- The last text of a string, and what the string is made of. -/
def stringEnd (parts : List StringPart) : Parse ExprKind := do
  let parts ← if ← check .string then pure (.str (← advance).text :: parts) else pure parts
  return .interpolated parts.reverse

theorem interpolatedString_eq (rules : Rules) :
    interpolatedString rules = repeatUpTo (stringTurn rules) rules.bound [] >>= stringEnd := rfl

theorem stepwise_stringEnd (parts : List StringPart) : Stepwise (stringEnd parts) :=
  .bind (Alike.check _).stepwise fun _ => .ite
    (.bind .advance fun _ => .bind (.pure _) fun _ => .pure _) (.bind (.pure _) fun _ => .pure _)

theorem exec_stringEnd {parts : List StringPart} {kind : ExprKind}
    (hnext : (s.rest[0]?.getD i.eof).kind = .string)
    (h : exec (stringEnd parts) i s = (.ok kind, t)) :
    ∃ text, kind = .interpolated (.str text :: parts).reverse := by
  rw [stringEnd, exec_bind_ok i (exec_check i s _), hnext, if_pos (by decide)] at h
  obtain ⟨v, _, -, hlast⟩ := exec_bind_eq_ok h
  cases hlast
  exact ⟨v.text, rfl⟩

/-! ## The law -/

/-- What a node must be like: a string with interpolations alternates. -/
def InterpolationsAlternate : Node → Prop
  | .expr (.interpolated parts) => Alternates parts
  | _ => True

theorem lenient_interpolationsAlternate : Ast.Lenient false InterpolationsAlternate where
  graded {kind} _ hkind := by
    cases kind with
    | interpolated parts => cases hkind
    | _ => trivial
  other
    | .type _, _, _ | .pattern _, _, _ | .stmt _, _, _ => trivial

/-- Strings with interpolations alternate, if the tokens are strung. -/
def alternation : Law where
  holds := InterpolationsAlternate
  tokens := Strung
  tokens_suffix := Strung.suffix
  other := lenient_interpolationsAlternate.other
  header := lenient_interpolationsAlternate.headerConstructor

/-- A string that starts with an interpolation alternates. -/
theorem MakesAt.interpolatedString {rules : Rules} {H : Prop} (hr : rules.Make alternation) :
    MakesAt alternation H .interpolationStart (interpolatedString rules) where
  tame := (Twin.interpolatedString hr.lawful).alike.tame
  meets hH i s t kind heof hs hnext hexec hspent := by
    have hturns : Makes alternation H (repeatUpTo (stringTurn rules) rules.bound []) := by
      refine .repeatUpTo (fun _ => .nil) fun parts => .past (.check _) fun _ => .ite ?_ (.turn id)
      exact .past .advance fun _ => .bind hr.expression fun _ => .past (.consumeClose ..) fun _ =>
        .turn fun h => .cons h.2 (.cons (.bare rfl) h.1)
    rw [interpolatedString_eq] at hexec
    obtain ⟨parts, u, hloop, hend⟩ := exec_bind_eq_ok hexec
    have hsteps : Steps i u t := (stepwise_stringEnd parts).run heof hend
    have hu := hsteps.spent_eq_false hspent
    have hparts := hturns.meets hH heof hs hloop hu
    obtain ⟨hpaired, hne, hlast⟩ := exec_stringTurns hr.lawful heof hs.tokens .nil (.inl hnext) hloop hu
    obtain ⟨text, rfl⟩ := exec_stringEnd hlast hend
    exact .expr (hpaired.alternates hne text) (.reverse (.cons (.bare rfl) hparts)) rfl

theorem lenient_alternation : alternation.Lenient where
  toLenient := lenient_interpolationsAlternate
  strings hr := .interpolatedString hr
  targets _ _ _ _ := trivial
  classes _ _ _ _ _ _ _ _ _ := trivial

/-! ## Programs -/

/-- Strings are brackets. In every scan the tokens before the end are plain ones and strings, with
sequences of the same form in their interpolations; and wherever a string with interpolations occurs
in a program that is accepted, it has texts at its even and expressions at its odd positions, at
least three parts in all and an odd number. -/
theorem interpolations_bracketed (src : Source) :
    (∀ (mode : Scan.Mode) (errors : Diagnostic.Collector), ∃ ts e,
      (Scan.scan src mode errors).1.tokens = ts ++ [e] ∧ e.kind = .eof ∧
        Scan.Sequence (ts.map Token.kind)) ∧
    ∀ program, parseProgram src = .ok program → ∀ parts,
      program.Holds (.expr (.interpolated parts)) → Alternates parts := by
  refine ⟨Scan.sequence_scan src, ?_⟩
  intro program hprogram parts ⟨n, hn, hparts⟩
  obtain ⟨hclean, rfl⟩ := parseProgram_eq_ok_iff.1 hprogram
  have hstrung := strung_scan (clean_of_parse hclean)
  rw [parseScanned, statements_parse] at hn
  exact lenient_alternation.kept.runProgram hstrung n hn _ hparts.reaches

end Grammar

end LimitSyntax
