import LimitSyntax.Diagnostic.Collector

/-!
# Collected reports

What was reported stays reported, and a report leaves a message that says the same.
-/

namespace LimitSyntax.Diagnostic.Collector

theorem complete_description (c : Collector) (m : Message) (source : Option String) :
    (c.complete m source).description = m.description := by
  unfold complete
  split
  · split <;> rfl
  · rfl

/-- A message is kept with an excerpt, and otherwise as it is. -/
theorem complete_eq (c : Collector) (m : Message) (source : Option String) :
    ∃ rows, c.complete m source = { m with excerpt := rows } := by
  unfold complete
  split
  · split
    · exact ⟨_, rfl⟩
    · exact ⟨m.excerpt, rfl⟩
  · exact ⟨m.excerpt, rfl⟩

/-- An error was reported before if there is a message with its key. -/
theorem seen_eq_any (c : Collector) (m : Message) :
    c.seen m = c.messages.toList.any (·.key == m.key) := by
  rw [Bool.eq_iff_iff, seen, List.contains_iff_mem, c.mem_keys, List.any_eq_true]
  simp only [Array.mem_toList_iff, beq_iff_eq]

theorem record_fst (c : Collector) (m : Message) (source : Option String) :
    (c.record m source).1 = !c.seen m := by
  unfold record
  cases c.seen m <;> rfl

theorem report_eq_ite (c : Collector) (m : Message) (source : Option String) :
    c.report m source = if c.seen m then c else c.add m source :=
  apply_ite Prod.snd ..

/-- What was reported stays reported. -/
theorem messages_subset_report (c : Collector) (m : Message) (source : Option String) :
    ∀ n ∈ c.messages, n ∈ (c.report m source).messages := by
  intro n hn
  rw [report_eq_ite]
  split
  · exact hn
  · exact Array.mem_push_of_mem _ hn

/-- A report adds the message with an excerpt, if anything. -/
theorem of_mem_report {c : Collector} {m n : Message} {source : Option String}
    (h : n ∈ (c.report m source).messages) :
    n ∈ c.messages ∨ ∃ rows, n = { m with excerpt := rows } := by
  rw [report_eq_ite] at h
  split at h
  next => exact .inl h
  next =>
    rcases Array.mem_push.1 h with h | rfl
    · exact .inl h
    · exact .inr (c.complete_eq m source)

theorem messages_subset_foldl (ms : List Message) (c : Collector) (source : Option String) :
    ∀ n ∈ c.messages, n ∈ (ms.foldl (·.report · source) c).messages := by
  induction ms generalizing c with
  | nil => exact fun _ hn => hn
  | cons m ms ih => exact fun n hn => ih _ n (c.messages_subset_report m source n hn)

/-- After a report there is a message that says the same. -/
theorem exists_mem_report (c : Collector) (m : Message) (source : Option String) :
    ∃ n ∈ (c.report m source).messages, n.description = m.description := by
  rw [report_eq_ite]
  split
  next hseen =>
    obtain ⟨n, hn, hkey⟩ := (c.mem_keys m.key).1 (List.contains_iff_mem.1 hseen)
    exact ⟨n, hn, congrArg Key.description hkey⟩
  next => exact ⟨_, Array.mem_push_self, c.complete_description m source⟩

theorem prefix_report (c : Collector) (m : Message) (source : Option String) :
    c.messages.toList <+: (c.report m source).messages.toList := by
  rw [report_eq_ite]
  split
  · exact List.prefix_rfl
  · rw [add, Array.toList_push]
    exact List.prefix_append ..

theorem prefix_foldl (ms : List Message) (c : Collector) (source : Option String) :
    c.messages.toList <+: (ms.foldl (·.report · source) c).messages.toList := by
  induction ms generalizing c with
  | nil => exact List.prefix_rfl
  | cons m ms ih => exact (c.prefix_report m source).trans (ih _)

/-- After a report there is a message. -/
theorem report_ne_empty (c : Collector) (m : Message) (source : Option String) :
    (c.report m source).messages ≠ #[] := by
  rw [report_eq_ite]
  split
  next hseen =>
    intro hnone
    simp [seen_eq_any, hnone] at hseen
  next => simp [add]

end LimitSyntax.Diagnostic.Collector
