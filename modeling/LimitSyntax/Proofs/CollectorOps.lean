import LimitSyntax.Proofs.Collectors
import Mathlib.Data.List.Basic
import Mathlib.Data.List.Induction

/-!
# Any use of a collector

A collector is used in reports and resets, in any order (`Diagnostic.Collector.Op`). What it holds
in the end can be told from its options and from the reports made since the last reset alone: it
holds those whose key none before them has (`Diagnostic.Collector.firsts`), as they were reported
except for excerpts that are filled in (`Diagnostic.Collector.holds_firsts`).
-/

namespace LimitSyntax.Diagnostic.Collector

/-! ## Operations -/

/-- A message and the source it is reported about, if there is one. -/
structure Report where
  message : Message
  source : Option String

/-- Something that a collector can be told to do. -/
inductive Op where
  | report (r : Report)
  | reset

namespace Op

/-- The collector after the operation. -/
def apply : Op → Collector → Collector
  | .report r, c => (c.record r.message r.source).2
  | .reset, c => c.reset

/-- The reports since the last reset after the operation. -/
def onReports : Op → List Report → List Report
  | .report r, rs => rs ++ [r]
  | .reset, _ => []

end Op

/-- The collector after some operations. -/
def perform (c : Collector) (ops : List Op) : Collector := ops.foldl (fun c op => op.apply c) c

/-- The reports since the last reset. -/
def sinceReset (ops : List Op) : List Report := ops.foldl (fun rs op => op.onReports rs) []

theorem perform_concat (c : Collector) (ops : List Op) (op : Op) :
    c.perform (ops ++ [op]) = op.apply (c.perform ops) :=
  List.foldl_concat (fun c op => Op.apply op c) c op ops

theorem sinceReset_concat (ops : List Op) (op : Op) :
    sinceReset (ops ++ [op]) = op.onReports (sinceReset ops) :=
  List.foldl_concat (fun rs op => Op.onReports op rs) [] op ops

/-! ## First reports -/

/-- The form in which a report is kept: with the lines of its source around the error if it has no
excerpt. -/
def Report.kept (options : Options) (r : Report) : Message :=
  match r with
  | ⟨m, none⟩ => m
  | ⟨m, some source⟩ =>
    if m.excerpt = [] then
      { m with
        excerpt := excerpt source m.line m.column m.token options.before options.after }
    else m

/-- The reports without those that have the key of one before them. -/
def firsts : List Report → List Report
  | [] => []
  | r :: rs => r :: (firsts rs).filter (·.message.key ≠ r.message.key)

/-- Some report has the key. -/
def Keyed (k : Key) (rs : List Report) : Prop := ∃ r ∈ rs, r.message.key = k

theorem Report.kept_eq (c : Collector) (r : Report) :
    r.kept c.options = c.complete r.message r.source := by
  obtain ⟨m, _ | source⟩ := r
  · rfl
  · simp only [Report.kept, complete, List.isEmpty_iff]
    rfl

theorem Report.kept_key (options : Options) (r : Report) :
    (r.kept options).key = r.message.key := by
  rw [r.kept_eq { options }, complete_key]

@[simp] theorem not_keyed_nil (k : Key) : ¬ Keyed k [] := by simp [Keyed]

@[simp] theorem keyed_cons {k : Key} {r : Report} {rs : List Report} :
    Keyed k (r :: rs) ↔ r.message.key = k ∨ Keyed k rs := by
  simp [Keyed]

instance (k : Key) (rs : List Report) : Decidable (Keyed k rs) :=
  inferInstanceAs (Decidable (∃ r ∈ rs, r.message.key = k))

theorem keyed_firsts {k : Key} {rs : List Report} : Keyed k (firsts rs) ↔ Keyed k rs := by
  induction rs with
  | nil => rfl
  | cons r rs ih =>
    rw [firsts, keyed_cons, keyed_cons, ← ih]
    by_cases hr : r.message.key = k
    · simp only [hr, true_or]
    · simp only [Keyed, List.mem_filter, decide_eq_true_eq]
      grind

/-- A report is kept if none before it has its key. -/
theorem firsts_concat (rs : List Report) (r : Report) :
    firsts (rs ++ [r]) = firsts rs ++ if Keyed r.message.key rs then [] else [r] := by
  induction rs with
  | nil => simp [firsts]
  | cons s rs ih =>
    rw [List.cons_append, firsts, ih, List.filter_append, firsts, List.cons_append]
    congr 2
    by_cases hrest : Keyed r.message.key rs
    · rw [if_pos hrest, if_pos (keyed_cons.2 (.inr hrest)), List.filter_nil]
    · by_cases hs : s.message.key = r.message.key
      · rw [if_neg hrest, if_pos (keyed_cons.2 (.inl hs)), List.filter_singleton]
        simp [hs]
      · have hcons : ¬ Keyed r.message.key (s :: rs) := by
          rw [keyed_cons, not_or]
          exact ⟨hs, hrest⟩
        rw [if_neg hrest, if_neg hcons, List.filter_singleton]
        simp [Ne.symm hs]

/-! ## What one operation keeps -/

/-- The collector holds the first ones of the reports, in the form in which they are kept. -/
structure Holds (c : Collector) (options : Options) (rs : List Report) : Prop where
  options_eq : c.options = options
  messages_eq : c.messages.toList = (firsts rs).map (·.kept options)

namespace Holds

variable {c : Collector} {options : Options} {rs : List Report}

theorem seen_iff (h : c.Holds options rs) (m : Message) : c.seen m = true ↔ Keyed m.key rs := by
  rw [seen_eq_any, h.messages_eq, ← keyed_firsts]
  simp only [List.any_map, List.any_eq_true, Function.comp_apply, Report.kept_key, beq_iff_eq,
    Keyed]

theorem report (h : c.Holds options rs) (r : Report) :
    (c.record r.message r.source).2.Holds options (rs ++ [r]) := by
  unfold record
  split
  next hseen =>
    have hkeyed : Keyed r.message.key rs := (h.seen_iff r.message).1 hseen
    exact {
      options_eq := h.options_eq
      messages_eq := by rw [firsts_concat, if_pos hkeyed, List.append_nil, h.messages_eq] }
  next hseen =>
    have hkeyed : ¬ Keyed r.message.key rs := mt (h.seen_iff r.message).2 hseen
    exact {
      options_eq := h.options_eq
      messages_eq := by
        rw [firsts_concat, if_neg hkeyed, List.map_append, ← h.messages_eq, ← h.options_eq]
        simp [add, r.kept_eq c] }

theorem reset (h : c.Holds options rs) : c.reset.Holds options [] where
  options_eq := h.options_eq
  messages_eq := rfl

theorem apply (h : c.Holds options rs) (op : Op) :
    (op.apply c).Holds options (op.onReports rs) := by
  cases op with
  | report r => exact h.report r
  | reset => exact h.reset

end Holds

/-! ## What a use keeps -/

theorem holds_perform (options : Options) (ops : List Op) :
    (perform { options } ops).Holds options (sinceReset ops) := by
  induction ops using List.reverseRecOn with
  | nil => exact ⟨rfl, rfl⟩
  | append_singleton ops op ih =>
    rw [perform_concat, sinceReset_concat]
    exact ih.apply op

/-- However a collector is used, it holds the first of the reports with each key since the last
reset, in their order, and it has errors if it holds any. A further report is said to be new if its
key is. -/
theorem holds_firsts (options : Options) (ops : List Op) :
    let c := perform { options } ops
    c.messages.toList = (firsts (sinceReset ops)).map (·.kept options) ∧
      (∀ r : Report, (c.record r.message r.source).1 = true ↔
        ¬ Keyed r.message.key (sinceReset ops)) ∧
      (c.hasErrors = true ↔ c.messages ≠ #[]) ∧ c.options = options := by
  intro c
  have h : c.Holds options (sinceReset ops) := holds_perform options ops
  refine ⟨h.messages_eq, fun r => ?_, ?_, h.options_eq⟩
  · rw [record_fst, Bool.not_eq_true', ← Bool.not_eq_true, h.seen_iff]
  · rw [c.hasErrors_eq, Bool.not_eq_true', ← Bool.not_eq_true, Array.isEmpty_iff]

end LimitSyntax.Diagnostic.Collector
