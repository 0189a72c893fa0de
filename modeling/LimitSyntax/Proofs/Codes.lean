import LimitSyntax.Diagnostic.Code
import Mathlib.Data.List.Infix

/-!
# The code of an error

A code lies in the range of the stage that found the error. A hashed code misses the last place of
the range, and the places where the well-known codes are (`Diagnostic.Code.hashed_place`,
`Diagnostic.Code.known_place`); so it is no well-known one, and only a description that says so has
the code of the report that ends a parse (`Diagnostic.Code.assign_placed`).
-/

namespace LimitSyntax

theorem Text.occurs_iff (pattern cs : List Char) : occurs pattern cs = true ↔ pattern <:+: cs := by
  induction cs with
  | nil => rw [occurs, List.isEmpty_iff, List.infix_nil]
  | cons c cs ih =>
    rw [occurs, Bool.or_eq_true, List.isPrefixOf_iff_prefix, ih, List.infix_cons_iff]

theorem Text.contains_iff (text pattern : String) :
    contains text pattern = true ↔ pattern.toList <:+: text.toList :=
  occurs_iff ..

namespace Diagnostic

namespace Code

variable {stage : Stage} {description : String}

/-- The phrase occurs in the description. -/
def Says (description phrase : String) : Prop := phrase.toList <:+: description.toList

/-! ## Places in a range -/

/-- A hashed code lies in the upper half of the range, in front of the last place. -/
theorem hashed_place (stage : Stage) (description : String) :
    stage.firstCode + 50 ≤ (hashed stage description).number ∧
      (hashed stage description).number < stage.lastCode := by
  have hwidth : 0 < stage.lastCode - (stage.firstCode + 50) := by cases stage <;> decide
  have hoffset := Nat.mod_lt (hash description.toUTF8.toList).toNat hwidth
  simp only [hashed]
  omega

/-- A known code of a range lies in its lower half or at the last place. -/
theorem known_place (stage : Stage) :
    ∀ entry ∈ known, stage.owns entry.2 = true →
      entry.2 < stage.firstCode + 50 ∨ entry.2 = stage.lastCode := by
  cases stage <;> decide

theorem hashed_ne_known {entry : String × Nat} (hmem : entry ∈ known)
    (howns : stage.owns entry.2 = true) : (hashed stage description).number ≠ entry.2 := by
  obtain ⟨hlower, hupper⟩ := hashed_place stage description
  rcases known_place stage entry hmem howns with hplace | hplace
  · omega
  · omega

/-! ## The choice of a code -/

/-- A code is one of a phrase that the description holds, or hashed if there is no such phrase. -/
theorem assign_cases (stage : Stage) (description : String) :
    (∃ entry ∈ known, stage.owns entry.2 = true ∧ Says description entry.1 ∧
      assign stage description = ⟨entry.2⟩) ∨
    ((∀ entry ∈ known, stage.owns entry.2 = true → ¬ Says description entry.1) ∧
      assign stage description = hashed stage description) := by
  unfold assign
  split
  next entry hfind =>
    have hmem := List.mem_filter.1 (List.mem_of_find?_eq_some hfind)
    have hsays := List.find?_some hfind
    rw [Text.contains_iff] at hsays
    exact .inl ⟨entry, hmem.1, hmem.2, hsays, rfl⟩
  next hnone =>
    refine .inr ⟨?_, rfl⟩
    intro entry hmem howns hsays
    have hmissed := List.find?_eq_none.1 hnone entry (List.mem_filter.2 ⟨hmem, howns⟩)
    exact hmissed ((Text.contains_iff ..).2 hsays)

theorem owns_assign (stage : Stage) (description : String) :
    stage.owns (assign stage description).number = true := by
  rcases assign_cases stage description with ⟨entry, -, howns, -, heq⟩ | ⟨-, heq⟩
  · rw [heq]
    exact howns
  · obtain ⟨hlower, hupper⟩ := hashed_place stage description
    rw [heq, Stage.owns, Bool.and_eq_true, decide_eq_true_iff, decide_eq_true_iff]
    omega

/-! ## The report that ends a parse -/

/-- The phrase of the report that ends a parse comes first in its range. -/
theorem assign_of_says_tooMany (hstage : stage.category = .grammatical)
    (h : Says description "Too many syntax errors") :
    assign stage description = tooManyErrors := by
  have hfirst : ∃ entries,
      known.filter (stage.owns ·.2) = ("Too many syntax errors", 199) :: entries := by
    cases stage with
    | parsing | grammar => exact ⟨_, rfl⟩
    | _ => cases hstage
  obtain ⟨entries, hentries⟩ := hfirst
  have hcontains : Text.contains description "Too many syntax errors" = true :=
    (Text.contains_iff ..).2 h
  simp only [assign, hentries, List.find?_cons, hcontains]
  rfl

/-- No other phrase has its code, and no hashed code is equal to it. -/
theorem says_tooMany_of_assign (hstage : stage.category = .grammatical)
    (h : assign stage description = tooManyErrors) :
    Says description "Too many syntax errors" := by
  have honly : ∀ entry ∈ known, entry.2 = tooManyErrors.number →
      entry = ("Too many syntax errors", 199) := by decide
  rcases assign_cases stage description with ⟨entry, hmem, -, hsays, heq⟩ | ⟨-, heq⟩
  · have hnumber : entry.2 = tooManyErrors.number := congrArg Code.number (heq.symm.trans h)
    rwa [honly entry hmem hnumber] at hsays
  · have hlast : tooManyErrors.number = stage.lastCode := by
      cases stage with
      | parsing | grammar => rfl
      | _ => cases hstage
    have hupper := (hashed_place stage description).2
    rw [← heq, h, hlast] at hupper
    exact absurd hupper (Nat.lt_irrefl _)

/-! ## Every code -/

/-- The code of an error lies in the range of its stage. If no well-known phrase of that range
occurs in the description, then the code is none of the well-known ones of the range. For errors of
syntax it is the code of the report that ends a parse just if the description says so. -/
theorem assign_placed (stage : Stage) (description : String) :
    (stage.firstCode ≤ (assign stage description).number ∧
      (assign stage description).number ≤ stage.lastCode) ∧
    ((∀ phrase code, (phrase, code) ∈ known → stage.owns code = true → ¬ Says description phrase) →
      ∀ phrase code, (phrase, code) ∈ known → stage.owns code = true →
        (assign stage description).number ≠ code) ∧
    (stage = .parsing ∨ stage = .grammar →
      ((assign stage description).number = 199 ↔ Says description "Too many syntax errors")) := by
  refine ⟨?_, ?_, ?_⟩
  · simpa [Stage.owns] using owns_assign stage description
  · intro hnone phrase code hmem howns
    rcases assign_cases stage description with ⟨entry, hentry, hstage, hsays, -⟩ | ⟨-, heq⟩
    · exact absurd hsays (hnone entry.1 entry.2 hentry hstage)
    · rw [heq]
      exact hashed_ne_known hmem howns
  · intro hstage
    have hcategory : stage.category = .grammatical := by
      rcases hstage with rfl | rfl <;> rfl
    constructor
    · intro hnumber
      exact says_tooMany_of_assign hcategory (congrArg Code.mk hnumber)
    · intro hsays
      rw [assign_of_says_tooMany hcategory hsays]
      rfl

/-- A description that says nothing well-known has a hashed code. -/
theorem assign_placed_unlisted :
    (∀ phrase code, (phrase, code) ∈ known → Stage.grammar.owns code = true →
      ¬ Says "Something nobody listed." phrase) ∧
    (∀ phrase code, (phrase, code) ∈ known → Stage.grammar.owns code = true →
      (assign .grammar "Something nobody listed.").number ≠ code) ∧
    ¬ Says "Something nobody listed." "Too many syntax errors" ∧
    (assign .grammar "Something nobody listed.").number ≠ 199 := by
  have hnone : ∀ entry ∈ known, Stage.grammar.owns entry.2 = true →
      Text.contains "Something nobody listed." entry.1 = false := by decide +kernel
  have hsilent : ∀ phrase code, (phrase, code) ∈ known → Stage.grammar.owns code = true →
      ¬ Says "Something nobody listed." phrase := by
    intro phrase code hmem howns hsays
    have hcontains := (Text.contains_iff ..).2 hsays
    rw [hnone (phrase, code) hmem howns] at hcontains
    cases hcontains
  obtain ⟨-, hdiffers, hlast⟩ := assign_placed .grammar "Something nobody listed."
  have hquiet : ¬ Says "Something nobody listed." "Too many syntax errors" :=
    hsilent _ 199 (by decide) rfl
  exact ⟨hsilent, hdiffers hsilent, hquiet, fun h => hquiet ((hlast (.inr rfl)).1 h)⟩

end Code

end Diagnostic

end LimitSyntax
