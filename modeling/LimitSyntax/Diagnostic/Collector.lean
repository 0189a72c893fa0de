import LimitSyntax.Diagnostic.Message

/-!
# The error collector

Errors are collected in the order in which they are first reported. A second report of the same
error is dropped.
-/

namespace LimitSyntax.Diagnostic

/-- How errors are shown. -/
structure Options where
  colors : Bool := true
  /-- Whether a message ends with the name of its file. -/
  filePath : Bool := true
  /-- The most characters of a source line that are shown; zero for no limit. -/
  lineWidth : Nat := 120
  /-- Lines shown above the line at fault. -/
  before : Nat := 2
  /-- Lines shown below the line at fault. -/
  after : Nat := 1
  deriving DecidableEq, Inhabited

/-- Where there are no messages there are no keys. -/
theorem no_keys (k : Key) : k ∈ ([] : List Key) ↔ ∃ m ∈ (#[] : Array Message), m.key = k := by
  simp

/-- The errors of one compilation. -/
structure Collector where
  options : Options := {}
  messages : Array Message := #[]
  /-- The keys of the messages, last one first. -/
  keys : List Key := []
  /-- Whether anything was reported. -/
  hasErrors : Bool := false
  mem_keys : ∀ k, k ∈ keys ↔ ∃ m ∈ messages, m.key = k := by
    exact LimitSyntax.Diagnostic.no_keys
  hasErrors_eq : hasErrors = !messages.isEmpty := by rfl

namespace Collector

/-- Number of errors. -/
def size (c : Collector) : Nat := c.messages.size

/-- Whether nothing was reported. -/
def isEmpty (c : Collector) : Bool := c.messages.isEmpty

/-- Whether the error of `m` was reported before. -/
def seen (c : Collector) (m : Message) : Bool := c.keys.contains m.key

/-- The form in which `m` is kept: with an excerpt of `source` unless it has one. -/
def complete (c : Collector) (m : Message) (source : Option String) : Message :=
  match source with
  | some text => if m.excerpt.isEmpty then m.withSource text c.options.before c.options.after else m
  | none => m

theorem complete_key (c : Collector) (m : Message) (source : Option String) :
    (c.complete m source).key = m.key := by
  unfold complete
  split
  · split <;> rfl
  · rfl

/-- Adds `m`. -/
def add (c : Collector) (m : Message) (source : Option String) : Collector :=
  { c with
    messages := c.messages.push (c.complete m source)
    keys := m.key :: c.keys
    hasErrors := true
    mem_keys := fun k => by
      simp only [List.mem_cons, c.mem_keys, Array.mem_push, or_and_right, exists_or,
        exists_eq_left, complete_key]
      rw [or_comm, eq_comm]
    hasErrors_eq := by simp }

/-- Adds `m` unless it was reported before, and tells whether it was added. -/
def record (c : Collector) (m : Message) (source : Option String) : Bool × Collector :=
  if c.seen m then (false, c) else (true, c.add m source)

/-- Adds `m` unless it was reported before. -/
def report (c : Collector) (m : Message) (source : Option String) : Collector :=
  (c.record m source).2

/-- Forgets all errors. -/
def reset (c : Collector) : Collector := { options := c.options }

/-- The errors reported after the first `n`. -/
def since (c : Collector) (n : Nat) : List Message := (c.messages.extract n).toList

end Collector

end LimitSyntax.Diagnostic
