import LimitSyntax.Proofs.Lexemes
import Mathlib.Data.List.TakeWhile

/-!
# Numerals

The scanner takes for a number what is written as one (`Token.numeral_number`): digits, perhaps a
fraction, perhaps an exponent, and perhaps a unit of time. What is written so is read as a whole in
front of a blank (`Token.Numeral.number_append`).
-/

namespace LimitSyntax.Token

/-- One or more digits. -/
def IsDigits (ds : List Char) : Prop := ds ≠ [] ∧ ∀ d ∈ ds, d.isDigit = true

/-- A number without its unit, as it is written. -/
inductive Magnitude : Kind → List Char → Prop where
  | int {ds : List Char} (hdigits : IsDigits ds) : Magnitude .intLiteral ds
  | float {ds fs : List Char} (hdigits : IsDigits ds) (hfraction : IsDigits fs) :
      Magnitude .floatLiteral (ds ++ '.' :: fs)
  /-- An exponent behind either of the two. -/
  | scientific {kind : Kind} {cs sign es : List Char} {mark : Char} (h : Magnitude kind cs)
      (hkind : kind ≠ .scientificLiteral) (hmark : mark = 'e' ∨ mark = 'E')
      (hsign : sign = [] ∨ sign = ['+'] ∨ sign = ['-']) (hexponent : IsDigits es) :
      Magnitude .scientificLiteral (cs ++ mark :: (sign ++ es))

/-- A number as it is written. -/
def Numeral (kind : Kind) (cs : List Char) : Prop :=
  ∃ number unit, Magnitude kind number ∧ (unit = [] ∨ unit ∈ timeUnits) ∧ cs = number ++ unit

/-! ## What is read is a numeral -/

theorem isDigits_takeWhile {c : Char} (hc : c.isDigit = true) (cs : List Char) :
    IsDigits ((c :: cs).takeWhile (·.isDigit)) :=
  ⟨by simp [hc], fun _ hd => List.mem_takeWhile_imp hd⟩

theorem fraction_cases (cs : List Char) :
    (fraction cs).1 = [] ∨ ∃ fs, IsDigits fs ∧ (fraction cs).1 = '.' :: fs := by
  unfold fraction
  split
  next cs =>
    simp only [List.span_eq_takeWhile_dropWhile]
    split
    next => exact .inl rfl
    next h =>
      refine .inr ⟨_, ⟨?_, fun _ hd => List.mem_takeWhile_imp hd⟩, rfl⟩
      rwa [List.isEmpty_iff] at h
  next => exact .inl rfl

theorem sign_cases (cs : List Char) :
    (sign cs).1 = [] ∨ (sign cs).1 = ['+'] ∨ (sign cs).1 = ['-'] := by
  unfold sign
  split
  · exact .inr (.inl rfl)
  · exact .inr (.inr rfl)
  · exact .inl rfl

theorem exponent_cases (cs : List Char) :
    (exponent cs).1 = [] ∨ ∃ mark sign es, (mark = 'e' ∨ mark = 'E') ∧
      (sign = [] ∨ sign = ['+'] ∨ sign = ['-']) ∧ IsDigits es ∧
      (exponent cs).1 = mark :: (sign ++ es) := by
  unfold exponent
  split
  next c cs =>
    simp only [List.span_eq_takeWhile_dropWhile]
    split
    next hmark =>
      split
      next => exact .inl rfl
      next h =>
        rw [List.isEmpty_iff] at h
        exact .inr ⟨c, _, _, hmark, sign_cases cs, ⟨h, fun _ hd => List.mem_takeWhile_imp hd⟩, rfl⟩
    next => exact .inl rfl
  next => exact .inl rfl

theorem timeUnit_cases (cs : List Char) : (timeUnit cs).1 = [] ∨ (timeUnit cs).1 ∈ timeUnits := by
  unfold timeUnit
  split
  next unit h => exact .inr (List.mem_of_find?_eq_some h)
  next => exact .inl rfl

/-- What starts with a digit is read as a numeral. -/
theorem numeral_number {c : Char} (hc : c.isDigit = true) (cs : List Char) :
    Numeral (number (c :: cs)).1 (number (c :: cs)).2.1 := by
  simp only [number, List.span_eq_takeWhile_dropWhile]
  set digits := (c :: cs).takeWhile (·.isDigit)
  set behind := (c :: cs).dropWhile (·.isDigit)
  have hdigits : IsDigits digits := isDigits_takeWhile hc cs
  refine ⟨_, _, ?_, timeUnit_cases _, rfl⟩
  obtain ⟨kind, hkind, hmagnitude, hne⟩ : ∃ kind,
      kind = (if (fraction behind).1.isEmpty then Kind.intLiteral else .floatLiteral) ∧
        Magnitude kind (digits ++ (fraction behind).1) ∧ kind ≠ .scientificLiteral := by
    rcases fraction_cases behind with hnone | ⟨fs, hfs, hsome⟩
    · rw [hnone, List.append_nil]
      exact ⟨_, rfl, .int hdigits, by simp⟩
    · rw [hsome]
      exact ⟨_, rfl, .float hdigits hfs, by simp⟩
  rcases exponent_cases (fraction behind).2 with hnone | ⟨mark, sign, es, hmark, hsign, hes, hsome⟩
  · rw [hnone, List.append_nil]
    convert hmagnitude using 1
    rw [hkind]
    cases (fraction behind).1.isEmpty <;> rfl
  · rw [hsome]
    exact .scientific hmagnitude hne hmark hsign hes

/-! ## A numeral is read as a whole -/

section
variable {p : Char → Bool} {ds e : List Char}

theorem span_append_of_head (hds : ∀ d ∈ ds, p d = true) (he : ∀ c ∈ e.head?, p c = false) :
    (ds ++ e).span p = (ds, e) := by
  have hstop : e.takeWhile p = [] ∧ e.dropWhile p = e := by
    cases e with
    | nil => exact ⟨rfl, rfl⟩
    | cons c cs =>
      have hc := he c rfl
      exact ⟨List.takeWhile_cons_of_neg (by simp [hc]), List.dropWhile_cons_of_neg (by simp [hc])⟩
  rw [List.span_eq_takeWhile_dropWhile, List.takeWhile_append_of_pos hds,
    List.dropWhile_append_of_pos hds, hstop.1, hstop.2, List.append_nil]

theorem fraction_of_head (he : ∀ c ∈ e.head?, c ≠ '.') : fraction e = ([], e) := by
  cases e with
  | nil => rfl
  | cons c cs => simp [fraction, he c rfl]

theorem fraction_append_of_head {fs : List Char} (hfs : IsDigits fs)
    (he : ∀ c ∈ e.head?, c.isDigit = false) : fraction ('.' :: (fs ++ e)) = ('.' :: fs, e) := by
  simp only [fraction, span_append_of_head hfs.2 he, List.isEmpty_iff, if_neg hfs.1]

theorem exponent_of_head (he : ∀ c ∈ e.head?, c ≠ 'e' ∧ c ≠ 'E') : exponent e = ([], e) := by
  cases e with
  | nil => rfl
  | cons c cs => simp [exponent, he c rfl]

theorem exponent_append_of_head {mark : Char} {sign es : List Char}
    (hmark : mark = 'e' ∨ mark = 'E') (hsign : sign = [] ∨ sign = ['+'] ∨ sign = ['-'])
    (hes : IsDigits es) (he : ∀ c ∈ e.head?, c.isDigit = false) :
    exponent (mark :: (sign ++ es ++ e)) = (mark :: (sign ++ es), e) := by
  have hsplit : Token.sign (sign ++ es ++ e) = (sign, es ++ e) := by
    obtain rfl | rfl | rfl := hsign
    · obtain ⟨d, ds, rfl⟩ := List.exists_cons_of_ne_nil hes.1
      have hd : d.isDigit = true := hes.2 d List.mem_cons_self
      have hplus : d ≠ '+' := by rintro rfl; cases hd
      have hminus : d ≠ '-' := by rintro rfl; cases hd
      simp [Token.sign, hplus, hminus]
    · rfl
    · rfl
  simp only [exponent, if_pos hmark, hsplit, span_append_of_head hes.2 he, List.isEmpty_iff,
    if_neg hes.1]

end

section
variable {unit e : List Char} (hunit : unit = [] ∨ unit ∈ timeUnits) (he : ∀ c ∈ e.head?, c = ' ')
include hunit he

/-- What may stand behind the digits of a number and is no part of it. -/
theorem head?_unit {c : Char} (hc : c ∈ (unit ++ e).head?) :
    c.isDigit = false ∧ c ≠ '.' ∧ c ≠ 'e' ∧ c ≠ 'E' := by
  obtain rfl | hunit := hunit
  · obtain rfl := he c hc
    decide
  · obtain rfl | rfl | rfl | rfl : unit = ['m', 's'] ∨ unit = ['u', 's'] ∨ unit = ['n', 's'] ∨
        unit = ['s'] := by simpa [timeUnits] using hunit
    all_goals
      obtain rfl := Option.some.inj hc
      decide

theorem timeUnit_append_of_head : timeUnit (unit ++ e) = (unit, e) := by
  -- only the head of what follows is looked at
  have hword : (e.head?.any isWordChar) = false := by
    cases e with
    | nil => rfl
    | cons c cs =>
      obtain rfl := he c rfl
      rfl
  cases e with
  | nil =>
    obtain rfl | hunit := hunit
    · rfl
    · revert unit
      decide
  | cons c cs =>
    obtain rfl := he c rfl
    obtain rfl | hunit := hunit
    · rfl
    · simp only [timeUnits, List.mem_cons, List.not_mem_nil, or_false] at hunit
      obtain rfl | rfl | rfl | rfl := hunit <;> rfl

end

/-- A number without an exponent divides into digits and a fraction. -/
theorem Magnitude.split {kind : Kind} {cs e : List Char} (h : Magnitude kind cs)
    (hkind : kind ≠ .scientificLiteral) (he : ∀ c ∈ e.head?, c.isDigit = false ∧ c ≠ '.') :
    ∃ ds fs, cs = ds ++ fs ∧ (cs ++ e).span (·.isDigit) = (ds, fs ++ e) ∧
      fraction (fs ++ e) = (fs, e) ∧ kind = if fs.isEmpty then .intLiteral else .floatLiteral := by
  cases h with
  | int hdigits =>
    exact ⟨cs, [], by simp, span_append_of_head hdigits.2 fun c hc => (he c hc).1,
      fraction_of_head fun c hc => (he c hc).2, rfl⟩
  | @float ds fs hdigits hfraction =>
    refine ⟨ds, '.' :: fs, rfl, ?_, fraction_append_of_head hfraction fun c hc => (he c hc).1, rfl⟩
    rw [List.append_assoc]
    refine span_append_of_head hdigits.2 fun c hc => ?_
    cases hc
    rfl
  | scientific => exact absurd rfl hkind

/-- A numeral in front of a blank is read as a whole. -/
theorem Numeral.number_append {kind : Kind} {cs e : List Char} (h : Numeral kind cs)
    (he : ∀ c ∈ e.head?, c = ' ') : number (cs ++ e) = (kind, cs, e) := by
  obtain ⟨body, unit, hmagnitude, hunit, rfl⟩ := h
  have htail : ∀ c ∈ (unit ++ e).head?, c.isDigit = false ∧ c ≠ '.' ∧ c ≠ 'e' ∧ c ≠ 'E' :=
    fun c hc => head?_unit hunit he hc
  have hunits : timeUnit (unit ++ e) = (unit, e) := timeUnit_append_of_head hunit he
  rw [List.append_assoc]
  by_cases hkind : kind = .scientificLiteral
  · subst hkind
    cases hmagnitude with
    | @scientific kind cs sign es mark hmagnitude hne hmark hsign hes =>
      have hhead : ∀ c ∈ (mark :: (sign ++ es ++ (unit ++ e))).head?,
          c.isDigit = false ∧ c ≠ '.' := by
        rintro _ ⟨⟩
        obtain rfl | rfl := hmark <;> decide
      obtain ⟨ds, fs, rfl, hspan, hfraction, -⟩ := hmagnitude.split hne hhead
      have hexponent := exponent_append_of_head hmark hsign hes fun c hc => (htail c hc).1
      rw [List.append_assoc (ds ++ fs), List.cons_append, List.append_assoc sign]
      rw [List.append_assoc sign] at hspan hfraction hexponent
      simp only [number, hspan, hfraction, hexponent, hunits]
      simp
  · obtain ⟨ds, fs, rfl, hspan, hfraction, hliteral⟩ :=
      hmagnitude.split hkind fun c hc => ⟨(htail c hc).1, (htail c hc).2.1⟩
    have hexponent : exponent (unit ++ e) = ([], unit ++ e) :=
      exponent_of_head fun c hc => (htail c hc).2.2
    simp only [number, hspan, hfraction, hexponent, hunits]
    rw [hliteral]
    cases fs.isEmpty <;> simp

end LimitSyntax.Token
