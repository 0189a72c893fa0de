import LimitSyntax.Proofs.MakesExprs
import Mathlib.Data.List.Forall2
import Mathlib.Data.List.Infix

/-!
# The tables of classes

A class enters each member in its tables when it takes the member in. So however a class is read,
its tables say what its members say (`Ast.ClassDecl.Mirrored`), and where it is written with
parameters in its header its last method is a constructor that fits them
(`Ast.ClassDecl.HeaderInit`). This holds of every class in every program, whatever the tokens are
and whatever is reported about them (`Grammar.classes_mirrored`).
-/

namespace LimitSyntax

/-! ## Tables -/

namespace Table

variable {α : Type}

theorem lookup_cons (e : String × α) (es : List (String × α)) (name : String) :
    (e :: es).lookup name = if name = e.1 then some e.2 else es.lookup name := by
  obtain ⟨key, value⟩ := e
  rw [List.lookup_cons]
  by_cases h : name = key
  · simp [h]
  · rw [beq_false_of_ne h, if_neg h]

theorem lookup_insertEntry (name other : String) (value : α) (es : List (String × α)) :
    (insertEntry name value es).lookup other = ((name, value) :: es).lookup other := by
  induction es with
  | nil => rfl
  | cons e es ih =>
    rw [insertEntry]
    split
    · rfl
    split
    next heq =>
      simp only [lookup_cons, heq]
      split <;> rfl
    next hne =>
      simp only [lookup_cons, ih]
      grind

/-- The table finds a value that is put under a name, and what is under other names. -/
theorem get?_insert (t : Table α) (name other : String) (value : α) :
    (t.insert name value).get? other = if other = name then some value else t.get? other :=
  (lookup_insertEntry name other value t.entries).trans (lookup_cons ..)

theorem mem_names_insertEntry {name other : String} {value : α} {es : List (String × α)} :
    other ∈ (insertEntry name value es).map (·.1) ↔ other ∈ es.map (·.1) ∨ other = name := by
  induction es with
  | nil => simp [insertEntry]
  | cons e es ih =>
    rw [insertEntry]
    split
    · simp [or_comm]
    split
    next heq => simp [heq, or_comm]
    next hne => simp only [List.map_cons, List.mem_cons, ih, or_assoc]

theorem mem_names_insert {t : Table α} {name other : String} {value : α} :
    other ∈ (t.insert name value).names ↔ other ∈ t.names ∨ other = name :=
  mem_names_insertEntry

theorem mem_names_addIf {t : Table Unit} {condition : Bool} {name other : String} :
    other ∈ (t.addIf condition name).names ↔
      other ∈ t.names ∨ condition = true ∧ name = other := by
  cases condition with
  | false => simp [addIf]
  | true =>
    rw [addIf, if_pos rfl, mem_names_insert]
    simp [eq_comm]

/-- The names in the table are those of the members, and each has the value of the last member of
that name. -/
structure Shows (t : Table α) (members : List (String × α)) : Prop where
  mem_names : ∀ name, name ∈ t.names ↔ name ∈ members.map Prod.fst
  get?_eq : ∀ name, t.get? name = members.reverse.lookup name

theorem Shows.insert {t : Table α} {members : List (String × α)} (h : t.Shows members)
    (name : String) (value : α) : (t.insert name value).Shows (members ++ [(name, value)]) where
  mem_names other := by
    rw [mem_names_insert, h.mem_names]
    simp
  get?_eq other := by
    rw [get?_insert, h.get?_eq, List.reverse_concat, lookup_cons]

end Table

namespace Ast

/-! ## Members -/

namespace ClassDecl

/-- The tables of a class say what its members say. -/
structure Mirrored (c : ClassDecl) : Prop where
  fields : c.tables.fieldVisibility.Shows (c.fields.map fun f => (f.name, f.visibility))
  methods : c.tables.methodVisibility.Shows (c.methods.map fun m => (m.name, m.visibility))
  readOnly : ∀ name, name ∈ c.tables.readOnlyFields.names ↔
    ∃ f ∈ c.fields, f.isConst = true ∧ f.name = name
  abstractMethods : ∀ name, name ∈ c.tables.abstractMethods.names ↔
    ∃ m ∈ c.methods, m.isAbstract = true ∧ m.name = name
  finalMethods : ∀ name, name ∈ c.tables.finalMethods.names ↔
    ∃ m ∈ c.methods, m.isFinal = true ∧ m.name = name
  staticMembers : ∀ name, name ∈ c.tables.staticMembers.names ↔
    (∃ f ∈ c.fields, f.isStatic = true ∧ f.name = name) ∨
      ∃ m ∈ c.methods, m.isStatic = true ∧ m.name = name

/-- One more member has the property, or one of those before. -/
theorem exists_mem_concat {α : Type} {xs : List α} {y : α} {P : α → Prop} :
    (∃ x ∈ xs ++ [y], P x) ↔ (∃ x ∈ xs, P x) ∨ P y := by
  simp only [List.mem_append, List.mem_singleton, or_and_right, exists_or, exists_eq_left]

namespace Mirrored

variable {c : ClassDecl}

/-- A class without members. -/
theorem of_bare (hfields : c.fields = []) (hmethods : c.methods = []) (htables : c.tables = {}) :
    c.Mirrored := by
  have hshows : ({} : Table Visibility).Shows [] := ⟨fun _ => Iff.rfl, fun _ => rfl⟩
  have hnames (name : String) : name ∉ ({} : Table Unit).names := List.not_mem_nil
  constructor <;> simp [hfields, hmethods, htables, hshows, hnames]

theorem addField (h : c.Mirrored) (f : VarDecl) : (c.addField f).Mirrored where
  fields := by
    rw [ClassDecl.addField, List.map_append]
    exact h.fields.insert f.name f.visibility
  methods := h.methods
  readOnly name := by
    rw [ClassDecl.addField, exists_mem_concat, ← h.readOnly]
    exact Table.mem_names_addIf
  abstractMethods := h.abstractMethods
  finalMethods := h.finalMethods
  staticMembers name := by
    rw [ClassDecl.addField, exists_mem_concat, or_right_comm, ← h.staticMembers]
    exact Table.mem_names_addIf

theorem addMethod (h : c.Mirrored) (m : FunctionDecl) : (c.addMethod m).Mirrored where
  fields := h.fields
  methods := by
    rw [ClassDecl.addMethod, List.map_append]
    exact h.methods.insert m.name m.visibility
  readOnly := h.readOnly
  abstractMethods name := by
    rw [ClassDecl.addMethod, exists_mem_concat, ← h.abstractMethods]
    exact Table.mem_names_addIf
  finalMethods name := by
    rw [ClassDecl.addMethod, exists_mem_concat, ← h.finalMethods]
    exact Table.mem_names_addIf
  staticMembers name := by
    rw [ClassDecl.addMethod, exists_mem_concat, ← or_assoc, ← h.staticMembers]
    exact Table.mem_names_addIf

end Mirrored

/-! ## Constructors of headers -/

/-- The statement calls the constructor of the superclass. -/
def CallsSuper (args : List Expr) (s : Stmt) : Prop :=
  ∃ call callee object, s.kind = .expression call ∧ call.kind = .call callee args [] ∧
    callee.kind = .member object "init" ∧ object.kind = .super

/-- The statement assigns the parameter to the field of its name. -/
def AssignsField (p : Param) (s : Stmt) : Prop :=
  ∃ assignment object value, s.kind = .expression assignment ∧
    assignment.kind = .assign (.member object p.name) .assign value ∧ object.kind = .self ∧
      value.kind = .variable p.name

/-- The last method of the class is a constructor with the parameters of the header. It hands the
arguments for the superclass on, if there are any, and assigns each parameter in order. -/
structure HeaderInit (c : ClassDecl) (m : FunctionDecl) : Prop where
  last : c.methods.getLast? = some m
  name_eq : m.name = "init"
  params_eq : m.params = c.ctorParams.filter (!·.isOptional)
  optionalParams_eq : m.optionalParams = c.ctorParams.filter (·.isOptional)
  all_eq : m.params ++ m.optionalParams = c.ctorParams
  body : ∃ block calls assignments, m.body = some block ∧
    block.statements = calls ++ assignments ∧
    (if c.superclass.isSome = true ∧ c.superArgs ≠ [] then
        ∃ call, calls = [call] ∧ CallsSuper c.superArgs call
      else calls = []) ∧
    List.Forall₂ AssignsField c.ctorParams assignments

theorem headerInit {c : ClassDecl} {ps : List Param}
    (hparams : c.ctorParams = ps.filter (!·.isOptional) ++ ps.filter (·.isOptional))
    (span : Span) (line : Nat) :
    (c.addMethod (c.headerConstructor span line)).HeaderInit (c.headerConstructor span line) where
  last := List.getLast?_concat
  name_eq := rfl
  params_eq := rfl
  optionalParams_eq := rfl
  all_eq := by
    show c.ctorParams.filter _ ++ c.ctorParams.filter _ = c.ctorParams
    rw [hparams]
    simp [List.filter_filter]
  body := by
    refine ⟨_, _, _, rfl, rfl, ?_, ?_⟩
    · by_cases hcall : c.superclass.isSome = true ∧ c.superArgs ≠ []
      · have hmade : (c.superclass.isSome && !c.superArgs.isEmpty) = true := by simpa using hcall
        rw [if_pos hmade]
        show if c.superclass.isSome = true ∧ c.superArgs ≠ [] then _ else _
        rw [if_pos hcall]
        exact ⟨_, rfl, _, _, _, rfl, rfl, rfl, rfl⟩
      · have hmade : ¬ (c.superclass.isSome && !c.superArgs.isEmpty) = true := by simpa using hcall
        rw [if_neg hmade]
        show if c.superclass.isSome = true ∧ c.superArgs ≠ [] then _ else _
        rw [if_neg hcall]
    · rw [List.forall₂_map_right_iff]
      exact List.forall₂_same.2 fun p _ => ⟨_, _, _, rfl, rfl, rfl, rfl⟩

end ClassDecl

end Ast

namespace Grammar

open Ast

/-! ## Reading a class -/

/-- The parameters are sorted into those that a call must give and those it may leave out. -/
def SortedParams (params : List Param × List Param) : Prop :=
  ∃ written : List Param,
    params = (written.filter (!·.isOptional), written.filter (·.isOptional))

theorem Yields.parameters (rules : Rules) : Yields SortedParams (parameters rules) := by
  have hend : ∀ written : List Param, Yields SortedParams (do
      let _ ← consume .rightParen "Expected ')' after parameters."
      return (written.filter (!·.isOptional), written.filter (·.isOptional))) :=
    fun written => .bind fun _ => .pure ⟨written, rfl⟩
  exact .inNode (.bind fun _ => .bind fun _ => .ite (.bind hend) (.bind hend))

/-- One more member leaves the tables right and the parameters as they are. -/
theorem Yields.classMember (rules : Rules) {c : ClassDecl} (h : c.Mirrored) :
    Yields (fun d => d.Mirrored ∧ d.ctorParams = c.ctorParams) (classMember rules c) :=
  .bind fun _ => .bind fun _ => .bind fun _ => .ite
    (.bind fun f => .pure ⟨h.addField f, rfl⟩) <|
    .bind fun _ => .ite (.bind fun m => .pure ⟨h.addMethod m, rfl⟩) <|
      .bind fun _ => .bind fun _ => .bind fun _ => .ite
        (.bind fun _ => .bind fun _ => .bind fun _ => .pure ⟨h.addMethod _, rfl⟩)
        (.bind fun _ => .giveUp)

/-- Behind a keyword and a name a list of parameters begins. -/
def HasHeader (ts : List Token) : Prop := ts[2]?.map (·.kind) = some .leftParen

instance (ts : List Token) : Decidable (HasHeader ts) :=
  inferInstanceAs (Decidable (ts[2]?.map (·.kind) = some .leftParen))

section
variable {rules : Rules} {mods : Modifiers} {i : Input} {s t u : State} {c : ClassDecl}

theorem rest_of_advance {token first : Token} {rest : List Token}
    (hexec : exec advance i s = (.ok token, u)) (hrest : s.rest = first :: rest)
    (hfirst : first.kind ≠ .eof) : u.rest = rest := by
  rw [exec_advance, hrest] at hexec
  simp only [hfirst, if_false] at hexec
  cases hexec
  rfl

/-- A name that is read is the next token. -/
theorem rest_of_consumeName {description name : String} {first : Token} {rest : List Token}
    (hexec : exec (consumeName description) i s = (.ok name, u)) (hrest : s.rest = first :: rest) :
    first.kind = .identifier ∧ u.rest = rest := by
  obtain ⟨token, v, hconsume, hdone⟩ := exec_bind_eq_ok hexec
  cases hdone
  obtain ⟨hkind, hadvance⟩ := exec_consume_eq_ok hconsume
  rw [hrest] at hkind
  have hname : first.kind = .identifier := hkind
  exact ⟨hname, rest_of_advance hadvance hrest (by rw [hname]; decide)⟩

theorem leftParen_of_hasHeader {description name : String} {keyword : Token}
    (hadvance : exec advance i s = (.ok keyword, t))
    (hname : exec (consumeName description) i t = (.ok name, u)) (h : HasHeader s.rest) :
    (u.rest[0]?.getD i.eof).kind = .leftParen := by
  obtain ⟨first, second, paren, rest, hrest⟩ :
      ∃ first second paren rest, s.rest = first :: second :: paren :: rest := by
    rcases hrest : s.rest with _ | ⟨first, _ | ⟨second, _ | ⟨paren, rest⟩⟩⟩
    case cons.cons.cons => exact ⟨first, second, paren, rest, rfl⟩
    all_goals rw [hrest] at h; cases h
  rw [hrest] at h
  have hparen : paren.kind = .leftParen := Option.some.inj h
  by_cases hend : first.kind = .eof
  · -- the end is no name
    rw [exec_advance, hrest] at hadvance
    simp only [hend, if_true] at hadvance
    cases hadvance
    exact nomatch hend.symm.trans (rest_of_consumeName hname hrest).1
  · have ht : t.rest = second :: paren :: rest := rest_of_advance hadvance hrest hend
    rw [(rest_of_consumeName hname ht).2]
    exact hparen

theorem exec_classDeclaration (hexec : exec (classDeclaration rules mods) i s = (.ok c, t)) :
    c.Mirrored ∧ (HasHeader s.rest → ∃ m, c.HeaderInit m) := by
  obtain ⟨⟨start, line⟩, s₁, hpos, hexec⟩ := exec_bind_eq_ok hexec
  obtain ⟨keyword, s₂, hadvance, hexec⟩ := exec_bind_eq_ok hexec
  obtain ⟨name, s₃, hname, hexec⟩ := exec_bind_eq_ok hexec
  obtain ⟨_, s₄, hdescribe, hexec⟩ := exec_bind_eq_ok hexec
  obtain ⟨inHeader, s₅, hcheck, hexec⟩ := exec_bind_eq_ok hexec
  have hheader : HasHeader s.rest → inHeader = true := by
    intro h
    cases hpos
    cases hdescribe
    cases hcheck
    have hparen := leftParen_of_hasHeader hadvance hname h
    exact beq_iff_eq.2 hparen
  -- what is yielded behind the look at the parenthesis does not depend on the tokens
  refine (?_ : Yields (fun c => c.Mirrored ∧ (HasHeader s.rest → ∃ m, c.HeaderInit m)) _)
    i s₅ c t hexec
  refine .branch (.parameters rules) (.pure ⟨[], rfl⟩) fun (required, optional) hsorted => ?_
  refine .bind fun (base, superArgs) => .bind fun brace => ?_
  refine .chain (R := fun d => d.Mirrored ∧ d.ctorParams = required ++ optional) (.inBody ?_)
    fun d hd => ?_
  · refine .chain (.repeatUpTo ⟨.of_bare rfl rfl rfl, rfl⟩ fun c hc => ?_) fun d hd =>
      .bind fun _ => .pure hd
    refine .bind fun _ => .ite (.pure hc) ?_
    exact (Yields.classMember rules hc.1).chain fun d hd => .pure ⟨hd.1, hd.2.trans hc.2⟩
  obtain ⟨written, hwritten⟩ := hsorted
  obtain ⟨rfl, rfl⟩ := Prod.mk.inj hwritten
  split
  next hyes =>
    exact .bind fun span => .pure
      ⟨hd.1.addMethod _, fun _ => ⟨_, ClassDecl.headerInit hd.2 span line⟩⟩
  next hno => exact .pure ⟨hd.1, fun h => absurd (hheader h) hno⟩

end

/-! ## Classes of a program -/

/-- A class declaration is read as `c` where the tokens go on with `ts`. -/
def ReadsClass (ts : List Token) (c : ClassDecl) : Prop :=
  ∃ bound fuel mods i s t, s.rest = ts ∧
    exec (classDeclaration ⟨bound, Rule.call fuel⟩ mods) i s = (.ok c, t)

/-- What a node must be like: a class is read from its keyword on, somewhere in the row. -/
def IsReadIn (row : List Token) : Node → Prop
  | .stmt (.classDecl c) => ∃ keyword rest, keyword.kind = .kwClass ∧ keyword :: rest <:+ row ∧
    ReadsClass (keyword :: rest) c
  | _ => True

theorem lenient_isReadIn (row : List Token) : Ast.Lenient false (IsReadIn row) where
  graded _ _ := trivial
  other
    | .type _, _, _ | .pattern _, _, _ => trivial
    | .stmt kind, hasked, _ => by
      cases kind with
      | classDecl c => cases hasked
      | _ => trivial

/-- Classes are read from the tokens in the row. -/
def provenance (row : List Token) : Law where
  holds := IsReadIn row
  tokens ts := ts <:+ row
  tokens_suffix := List.IsSuffix.trans
  other := (lenient_isReadIn row).other
  header := (lenient_isReadIn row).headerConstructor

theorem lenient_provenance (row : List Token) : (provenance row).Lenient where
  toLenient := lenient_isReadIn row
  strings hr := .always (.interpolatedString hr fun _ => trivial)
  targets _ _ _ _ := trivial
  classes mods i s t c heof hs hnext hexec := by
    cases hrest : s.rest with
    | nil =>
      rw [hrest] at hnext
      exact nomatch heof.symm.trans hnext
    | cons keyword rest =>
      rw [hrest] at hnext
      exact ⟨keyword, rest, hnext, hrest ▸ hs.tokens, _, _, mods, i, s, t, hrest, hexec⟩

/-- Whatever the tokens are, and whatever is reported about them: the tables of a class in the
program say what its members say. The class is read somewhere in the tokens, from its keyword on;
and where it is read with a list of parameters behind its name, its last method is a constructor
that fits them. -/
theorem classes_mirrored (stream : Scan.Stream) (config : Config) (errors : Diagnostic.Collector)
    (c : ClassDecl) (h : (parse stream config errors).1.program.Holds (.stmt (.classDecl c))) :
    c.Mirrored ∧
    (∃ keyword rest, keyword.kind = .kwClass ∧ keyword :: rest <:+ stream.tokens ∧
      ReadsClass (keyword :: rest) c) ∧
    ∀ ts, ReadsClass ts c → HasHeader ts → ∃ m, c.HeaderInit m := by
  obtain ⟨n, hn, hholds⟩ := h
  have hread : IsReadIn stream.tokens (.stmt (.classDecl c)) :=
    (lenient_provenance stream.tokens).kept.runProgram (L := provenance stream.tokens)
      (List.suffix_refl _) n hn _ hholds.reaches
  refine ⟨?_, hread, ?_⟩
  · obtain ⟨_, _, -, -, _, _, _, _, _, _, -, hexec⟩ := hread
    exact (exec_classDeclaration hexec).1
  · rintro ts ⟨_, _, _, _, s, _, rfl, hexec⟩ hheader
    exact (exec_classDeclaration hexec).2 hheader

/-- A class with a parameter that may be left out in front of one that may not, arguments for its
superclass, and two methods of one name. -/
theorem classes_mirrored_header : ∃ stream c m,
    (parse stream {} {}).1.program.Holds (.stmt (.classDecl c)) ∧
    c.methods.map (·.name) = ["f", "f", "init"] ∧ c.Mirrored ∧ c.HeaderInit m := by
  let stream := (Scan.scan ⟨"class P(a = 1, b): Q(2) { const n: int = 3; pub fn f() {} fn f() {} }",
    "p"⟩ .lossy {}).1
  have hany : (parse stream {} {}).1.program.statements.any (·.kind.class?.any
      (·.methods.map (·.name) == ["f", "f", "init"])) = true := by decide +kernel
  have hheaders : ∀ ts ∈ stream.tokens.tails,
      ts.head?.map (·.kind) = some .kwClass → HasHeader ts := by decide +kernel
  obtain ⟨stmt, hmem, hstmt⟩ := List.any_eq_true.1 hany
  obtain ⟨c, hclass, hnames⟩ := (Option.any_eq_true _ _).1 hstmt
  have hholds : (parse stream {} {}).1.program.Holds (.stmt (.classDecl c)) := by
    refine ⟨.stmt stmt.kind, List.mem_flatMap.2 ⟨stmt, hmem, List.mem_singleton_self _⟩, ?_⟩
    rw [StmtKind.class?_eq_some.1 hclass]
    exact .refl
  obtain ⟨hmirrored, ⟨keyword, rest, hkeyword, hsuffix, hreads⟩, hinit⟩ :=
    classes_mirrored stream {} {} c hholds
  have hheader : HasHeader (keyword :: rest) :=
    hheaders _ ((List.mem_tails _ _).2 hsuffix) (congrArg some hkeyword)
  obtain ⟨m, hm⟩ := hinit _ hreads hheader
  exact ⟨stream, c, m, hholds, beq_iff_eq.1 hnames, hmirrored, hm⟩

end Grammar

end LimitSyntax
