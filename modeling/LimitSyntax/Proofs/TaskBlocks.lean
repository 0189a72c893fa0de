import LimitSyntax.Proofs.MakesExprs

/-!
# Tasks and workers

Only in a concurrency block statements are read as tasks and workers. So wherever one of them stands
in a program, it stands in the body of a `parallel` or a `concurrent` statement, whatever the tokens
are and whatever is reported about them (`Grammar.tasks_in_blocks`).
-/

namespace LimitSyntax

namespace Ast

/-- `m` stands in `n`, and `around` are the nodes around it there, outermost first. -/
inductive Node.Within : Node → List Node → Node → Prop where
  | self {n : Node} : Within n [] n
  | child {n c m : Node} {around : List Node} (hchild : c ∈ n.children) (h : Within c around m) :
      Within n (n :: around) m

/-- What is held stands somewhere. -/
theorem Node.holds_iff_within {n m : Node} : n.Holds m ↔ ∃ around, n.Within around m := by
  constructor
  · intro h
    induction h using Relation.ReflTransGen.head_induction_on with
    | refl => exact ⟨[], .self⟩
    | @head n c hchild _ ih =>
      obtain ⟨around, hwithin⟩ := ih
      exact ⟨n :: around, .child hchild hwithin⟩
  · rintro ⟨around, h⟩
    induction h with
    | self => exact .refl
    | child hchild _ ih => exact .head hchild ih

/-- Around a node there is a concurrency block with the node in its body. -/
def Node.Enclosed (around : List Node) (m : Node) : Prop :=
  ∃ settings body, (.stmt (.parallel settings body) ∈ around ∨
    .stmt (.concurrent settings body) ∈ around) ∧ ∃ n ∈ nodes body, n.Holds m

/-- A concurrency block encloses what stands below it. -/
theorem Node.enclosed_of_child {n c m : Node} {around : List Node}
    (hblock : n.isConcurrency = true) (hchild : c ∈ n.children) (h : c.Holds m) :
    Node.Enclosed (n :: around) m := by
  unfold Node.isConcurrency at hblock
  split at hblock
  next settings body => exact ⟨settings, body, .inl List.mem_cons_self, c, hchild, h⟩
  next settings body => exact ⟨settings, body, .inr List.mem_cons_self, c, hchild, h⟩
  next => cases hblock

/-- What no concurrency block encloses is reached from outside. -/
theorem Node.Within.reaches_or_enclosed {n m : Node} {around : List Node}
    (h : n.Within around m) : n.Reaches true m ∨ Node.Enclosed around m := by
  induction h with
  | self => exact .inl .refl
  | @child n c m around hchild hwithin ih =>
    cases hblock : n.isConcurrency with
    | true => exact .inr (enclosed_of_child hblock hchild (holds_iff_within.2 ⟨around, hwithin⟩))
    | false =>
      rcases ih with hreaches | ⟨settings, body, hmem, hholds⟩
      · exact .inl (.head ⟨fun _ => hblock, hchild⟩ hreaches)
      · exact .inr ⟨settings, body, hmem.imp (.tail _) (.tail _), hholds⟩

end Ast

namespace Grammar

open Ast

/-- What a node must be like outside of concurrency blocks: it is no task. -/
def NoTask (n : Node) : Prop := n.isTask = false

theorem lenient_noTask : Ast.Lenient true NoTask where
  graded _ _ := rfl
  other n _ htask := by
    cases h : n.isTask with
    | false => exact h
    | true => cases htask h

/-- Outside of concurrency blocks there are no tasks, whatever the tokens. -/
def idleness : Law where
  holds := NoTask
  outside := true
  tokens _ := True
  tokens_suffix _ _ := trivial
  other := lenient_noTask.other
  header := lenient_noTask.headerConstructor

theorem lenient_idleness : idleness.Lenient where
  toLenient := lenient_noTask
  strings hr := .always (.interpolatedString hr fun _ => rfl)
  targets _ _ _ _ := rfl
  classes _ _ _ _ _ _ _ _ _ := rfl

/-- Whatever the tokens are, and whatever was reported about them and recovered from: wherever a task
or a worker stands in the program they are parsed to, one of the nodes around it is a `parallel` or a
`concurrent` statement, and it stands in the body of that. -/
theorem tasks_in_blocks (stream : Scan.Stream) (config : Config) (errors : Diagnostic.Collector)
    {n task : Node} {around : List Node}
    (hn : n ∈ nodes (parse stream config errors).1.program.statements)
    (hwithin : n.Within around task) (htask : task.isTask = true) :
    ∃ settings body, (.stmt (.parallel settings body) ∈ around ∨
      .stmt (.concurrent settings body) ∈ around) ∧ ∃ n ∈ nodes body, n.Holds task := by
  rcases hwithin.reaches_or_enclosed with hreaches | henclosed
  · have hidle : NoTask task :=
      lenient_idleness.kept.runProgram (L := idleness) trivial n hn task hreaches
    exact absurd (htask.symm.trans hidle) (by decide)
  · exact henclosed

/-- A function without a name is skipped in a block, with a task behind it, and once more behind the
block, where what looks like a task is a call. -/
theorem tasks_in_blocks_recovered : ∃ n task around,
    n ∈ nodes (parse (Scan.scan ⟨"parallel { fn; task (x) {} } fn; task (x);", "a"⟩ .lossy {}).1 {}
      {}).1.program.statements ∧
    n.Within around task ∧ task.isTask = true ∧
    ∃ settings body, (.stmt (.parallel settings body) ∈ around ∨
      .stmt (.concurrent settings body) ∈ around) ∧ ∃ n ∈ nodes body, n.Holds task := by
  have hany : (nodes (parse (Scan.scan ⟨"parallel { fn; task (x) {} } fn; task (x);", "a"⟩ .lossy
      {}).1 {} {}).1.program.statements).any (fun n => n.children.any Node.isTask) = true := by
    decide +kernel
  obtain ⟨n, hn, hchildren⟩ := List.any_eq_true.1 hany
  obtain ⟨task, hchild, htask⟩ := List.any_eq_true.1 hchildren
  have hwithin : n.Within [n] task := .child hchild .self
  exact ⟨n, task, [n], hn, hwithin, htask, tasks_in_blocks _ _ _ hn hwithin htask⟩

end Grammar

end LimitSyntax
