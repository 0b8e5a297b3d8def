import GridKernel.Proofs.Target.Closed
import GridKernel.Proofs.Target.Tokens

/-!
# Names of a kernel and words of its program

The words that the printer writes of its own are reserved, and no field, parameter or local has such
a word as its name. Four kinds of words are not reserved: the qualifiers that begin with two
underscores, the names of the functions of helpers, the names of lengths, and the name of the kernel
function. Locals and parameters may have all of them as their names, fields the last.
-/

namespace GridKernel

open List Option

/-- The names that a method gives. -/
def Method.names (m : Method) : List String := m.params.map Param.name ++ Stmt.allLocals m.body

/-- The names that a kernel gives. -/
def Descriptor.names (d : Descriptor) : List String :=
  d.fields.map Field.name ++ d.methods.flatMap Method.names

namespace Target

def qualifiers : List String := ["__kernel", "__global", "__local", "__constant"]

/-- The words of the kernel's program that are not reserved. -/
def Unreserved (d : Descriptor) (word : String) : Prop :=
  word ∈ qualifiers ∨ word = d.entry ∨
    (∃ m ∈ d.helpers, word = helperName (stemOf d.name) m.name) ∨
    ∃ f ∈ d.fields, word = lengthName f.name

instance (d : Descriptor) (word : String) : Decidable (Unreserved d word) :=
  inferInstanceAs (Decidable (_ ∨ _ ∨ _ ∨ _))

/-- An identifier that no kernel may give. -/
def isReserved (word : String) : Bool := Name.isIdentifier word && !Name.isValid word

def isPunctuation (text : String) : Bool := text ≠ "" && text.toList.all (!Name.isTail ·)

/-- What may stand in the program of a kernel. -/
def Token.Known (d : Descriptor) : Token → Prop
  | own word => isReserved word = true ∨ Unreserved d word
  | user name => name ∈ d.names
  | numeral text => identifiers text.toList = []
  | mark text => isPunctuation text = true

/-- All tokens of a line are known, and between words stands a mark. -/
def Known (d : Descriptor) (ts : List Token) : Prop := Token.Spaced ts ∧ ∀ t ∈ ts, t.Known d

section

variable {d : Descriptor} {t : Token} {name word text : String} {ts us : List Token}

@[simp] theorem known_nil : Known d [] := ⟨Token.spaced_nil, forall_mem_nil _⟩

@[simp] theorem known_single : Known d [t] ↔ t.Known d := by
  simp [Known]

@[simp] theorem known_mark_cons :
    Known d (.mark text :: ts) ↔ isPunctuation text = true ∧ Known d ts := by
  simp [Known, Token.Known, and_left_comm]

@[simp] theorem known_cons_mark :
    Known d (t :: .mark text :: ts) ↔ t.Known d ∧ isPunctuation text = true ∧ Known d ts := by
  simp [Known, Token.Known, and_left_comm]

@[simp] theorem known_append_mark :
    Known d (ts ++ .mark text :: us) ↔ Known d ts ∧ isPunctuation text = true ∧ Known d us := by
  simp only [Known, Token.spaced_append_mark, forall_mem_append, forall_mem_cons, Token.Known]
  tauto

@[simp] theorem known_mark : (Token.mark text).Known d ↔ isPunctuation text = true :=
  Iff.rfl

@[simp] theorem known_user : (Token.user name).Known d ↔ name ∈ d.names := Iff.rfl

@[simp] theorem known_numeral : (Token.numeral text).Known d ↔ identifiers text.toList = [] :=
  Iff.rfl

@[simp] theorem known_own : (Token.own word).Known d ↔ isReserved word = true ∨ Unreserved d word :=
  Iff.rfl

@[simp] theorem known_indented : Known d (Token.indented depth ts) ↔ Known d ts := by
  have blank : isPunctuation "   " = true := by decide
  induction depth with
  | zero => rfl
  | succ n ih => exact known_mark_cons.trans ((and_iff_right blank).trans ih)

theorem known_joined (h : ∀ ts ∈ ls, Known d ts) : Known d (Token.joined ls) := by
  induction ls with
  | nil => exact known_nil
  | cons ts rest ih =>
    obtain ⟨first, others⟩ := forall_mem_cons.mp h
    cases rest with
    | nil => exact first
    | cons us more =>
      rw [Token.joined, known_append_mark]
      · exact ⟨first, by decide, ih others⟩
      · simp

/-! ## Words -/

theorem isReserved_tempName (n) : isReserved (tempName n) = true := by
  have letters : (tempName n).toList = '_' :: ("tmp".toList ++ (toString n).toList) := by
    simp [tempName]
  have digits : ((toString n).toList.all Name.isTail) = true :=
    all_eq_true.mpr fun c member => isTail_of_isDigit (isDigit_of_mem_toString member)
  have spelled : Name.isIdentifier (tempName n) = true := by
    rw [Name.isIdentifier, letters]
    simp only [all_append, digits]
    decide
  simp [isReserved, spelled, not_isValid_tempName n]

@[simp] theorem known_type (t) : Known d (typeTokens t) := by
  cases t <;> simp +decide [typeTokens]

@[simp] theorem known_unsigned (t) : Known d (unsignedTokens t) := by
  cases t <;> simp +decide [unsignedTokens]

theorem known_floating (shape) (tail : ∀ c ∈ suffix.toList, Name.isTail c = true) :
    Known d (floatingTokens shape suffix) := by
  cases shape with
  | nan => simp +decide [floatingTokens]
  | infinite negative => cases negative <;> simp +decide [floatingTokens]
  | finite negative m q narrow =>
    have plain := identifiers_floating negative m q narrow tail
    simpa [floatingTokens] using plain

theorem known_value (v) : Known d (valueTokens v) := by
  cases v with
  | float v | double v => exact known_floating _ (all_eq_true.mp (by decide))
  | byte v | short v =>
    have digits := identifiers_int v.toInt (forall_mem_nil _)
    simpa +decide [valueTokens] using digits
  | char v =>
    have digits := identifiers_nat v.toNat (forall_mem_nil _)
    simpa +decide [valueTokens] using digits
  | boolean v => cases v <;> exact known_single.mpr (by decide : identifiers _ = [])
  | int v =>
    refine known_single.mpr ?_
    show identifiers
      (if v = Int32.minValue then "(-2147483647-1)" else toString v.toInt).toList = []
    split
    · decide
    · rw [← append_nil (toString v.toInt).toList]
      exact identifiers_int _ (forall_mem_nil _)
  | long v =>
    refine known_single.mpr ?_
    show identifiers (if v = Int64.minValue then "(-9223372036854775807L-1L)"
      else toString v.toInt ++ "L").toList = []
    split
    · decide
    · rw [String.toList_append]
      exact identifiers_int _ (all_eq_true.mp (by decide))

/-! ## Expressions -/

theorem unreserved_length (declared : f ∈ d.fields) : Unreserved d (lengthName f.name) :=
  .inr (.inr (.inr ⟨f, declared, rfl⟩))

/-- The words of an expression that depend on the kernel are known. -/
def Expr.Named (d : Descriptor) : Expr → Prop
  | .var name | .member name | .element name _ | .addressOf name _ => name ∈ d.names
  | .lengthOf array => ∃ f ∈ d.fields, array = f.name
  | .call callee _ => (Token.own (callee.name (stemOf d.name))).Known d
  | _ => True

attribute [local simp] Expr.tokens Stmt.tokens

theorem known_closing : ∀ l ∈ closing, Known d l.2 := by
  simp +decide [closing]

theorem isPunctuation_binary (op : BinaryOp) :
    isPunctuation (" " ++ op.symbol ++ " ") = true ∧
      isPunctuation (" " ++ op.symbol ++ "= ") = true := by
  cases op <;> decide

theorem isPunctuation_unary (op : UnaryOp) : isPunctuation op.symbol = true := by
  cases op <;> decide

theorem isPunctuation_step (op : StepOp) : isPunctuation op.symbol = true := by
  cases op <;> decide

theorem Expr.tokens_known {e : Expr} (named : ∀ x ∈ e.nodes, x.Named d) :
    Known d (e.tokens (stemOf d.name)) := by
  induction e using Expr.parts_induct with
  | step e ih =>
    have inner : ∀ x ∈ e.parts, Known d (x.tokens (stemOf d.name)) := fun x part =>
      ih x part fun y inside => named y (Expr.nodes_listed.part part inside)
    have own := named e (Expr.nodes_listed.self e)
    clear ih named
    cases e with
    | literal v => exact known_value v
    | temp n => simp [isReserved_tempName n]
    | lengthOf array =>
      obtain ⟨f, declared, rfl⟩ := own
      simp +decide [unreserved_length declared]
    | call callee args =>
      have state : ∀ ts ∈ (if callee.takesState then [[Token.own "this"]] else []), Known d ts := by
        cases callee.takesState <;> simp +decide
      have given : Known d (Token.joined (_ ++ args.map (Expr.tokens (stemOf d.name)))) :=
        known_joined (forall_mem_append.mpr ⟨state, forall_mem_map.mpr inner⟩)
      simp only [Expr.Named, known_own] at own
      simp +decide [Expr.allTokens_eq, own, given]
    | comma first value =>
      have given := known_joined (forall_mem_map.mpr inner)
      rw [Expr.parts, map_append] at given
      simpa +decide [Expr.allTokens_eq] using given
    | step op before target =>
      cases before <;> simpa [Expr.parts, isPunctuation_step] using inner
    | unary op | binary op | compound op =>
      simpa [Expr.parts, isPunctuation_unary, isPunctuation_binary] using inner
    | _ =>
      simp only [Expr.Named] at own
      simp_all +decide [Expr.parts]

theorem isReserved_math : ∀ name ∈ mathNames, isReserved name = true := by decide

theorem isReserved_atomic (op : AtomicOp) (width) : isReserved (op.clFunction width) = true := by
  cases width <;> cases op <;> decide

theorem isReserved_query (query : func.isQuery = true) : isReserved (queryName func) = true := by
  cases func <;> revert query <;> decide

theorem mem_members (h : m ∈ members d) :
    (∃ f ∈ d.fields, m = fieldMember f ∨ m = .length f.name) ∨ m = .passId := by
  rcases mem_append.mp h with inside | last
  · obtain ⟨f, declared, own⟩ := mem_flatMap.mp inside
    refine .inl ⟨f, declared, ?_⟩
    cases passes : d.passesLength f with
    | false => exact .inl (by simpa [passes] using own)
    | true => simpa [passes] using own
  · exact .inr (mem_singleton.mp last)

theorem field_mem_names (declared : f ∈ d.fields) : f.name ∈ d.names :=
  mem_append_left _ (mem_map_of_mem declared)

variable {p : Program} {env : ScopeFrame}

section

variable (emits : program d = .ok p)
include emits

theorem field_of_member? (found : p.member? name = some m) :
    (∃ f ∈ d.fields, m = fieldMember f ∧ name = f.name) ∨
      (∃ f ∈ d.fields, m = .length f.name ∧ name = lengthName f.name) ∨ m = .passId := by
  obtain ⟨-, members, -⟩ := program_eq_ok emits
  have inside : m ∈ Target.members d := members ▸ mem_of_find?_eq_some found
  have same : m.name = name := by simpa using find?_some found
  rcases mem_members inside with ⟨f, declared, rfl | rfl⟩ | rfl
  · exact .inl ⟨f, declared, rfl, same ▸ name_fieldMember f⟩
  · exact .inr (.inl ⟨f, declared, rfl, same.symm⟩)
  · exact .inr (.inr rfl)

/-- The function that a well-typed call names. -/
theorem callee_known (typed : (Expr.call callee args).HasKind p temps env) :
    (Token.own (callee.name (stemOf d.name))).Known d := by
  cases callee with
  | helper method =>
    obtain ⟨h, member, rfl, -⟩ := helper_called typed
    obtain ⟨m, inside, made⟩ := method_of_helper emits member
    refine .inr (.inr (.inr (.inl ⟨m, inside, ?_⟩)))
    rw [Callee.name, (helper_eq_ok made).1]
  | passId => exact .inl (by decide : isReserved "get_pass_id" = true)
  | atomic op width => exact .inl (isReserved_atomic op width)
  | convert width =>
    cases width with
    | int => exact .inl (by decide : isReserved "convert_int_sat_rtz" = true)
    | long => exact .inl (by decide : isReserved "convert_long_sat_rtz" = true)
  | query func =>
    obtain ⟨k, kind⟩ := typed
    obtain ⟨ks, -, kind⟩ := bind_eq_some_iff.mp kind
    rw [Callee.kind?, ite_none_right_eq_some, Bool.and_eq_true] at kind
    exact .inl (isReserved_query kind.1.1)
  | math name =>
    obtain ⟨k, kind⟩ := typed
    obtain ⟨ks, -, kind⟩ := bind_eq_some_iff.mp kind
    cases ks with
    | nil => cases kind
    | cons first rest =>
      cases first with
      | scalar t =>
        rw [Callee.kind?, ite_none_right_eq_some, Bool.and_eq_true, Bool.and_eq_true] at kind
        exact .inl (isReserved_math name (contains_iff_mem.mp kind.1.1.1))
      | _ => cases kind

section

variable (given : ∀ q ∈ env, q.1 ∈ d.names)
include given

/-- With the locals in sight that the kernel gives, the words of a well-typed expression are
known. -/
theorem Expr.named_of_hasKind {e : Expr} (typed : e.HasKind p temps env) : e.Named d := by
  cases e with
  | call callee args => exact callee_known emits typed
  | var name =>
    obtain ⟨k, kind⟩ := typed
    obtain ⟨t, found, -⟩ := map_eq_some_iff.mp kind
    obtain ⟨before, after, rfl, -⟩ := lookup_eq_some_iff.mp found
    exact given (name, t) (mem_append_right _ mem_cons_self)
  | member name =>
    obtain ⟨k, kind⟩ := typed
    obtain ⟨m, found, kind⟩ := bind_eq_some_iff.mp kind
    rcases field_of_member? emits found with ⟨f, declared, -, rfl⟩ | ⟨f, -, rfl, -⟩ | rfl
    · exact field_mem_names declared
    · cases kind
    · cases kind
  | lengthOf array =>
    obtain ⟨k, kind⟩ := typed
    obtain ⟨m, found, kind⟩ := bind_eq_some_iff.mp kind
    rcases field_of_member? emits found with ⟨f, -, rfl, -⟩ | ⟨f, declared, -, same⟩ | rfl
    · have none : (fieldMember f).lengthKind? = none := by
        unfold fieldMember
        split <;> rfl
      rw [none] at kind
      cases kind
    · exact ⟨f, declared, lengthName_inj same⟩
    · cases kind
  | element array index | addressOf array index =>
    obtain ⟨k, kind⟩ := typed
    rw [Expr.kind?, ite_none_right_eq_some] at kind
    obtain ⟨m, found, kind⟩ := bind_eq_some_iff.mp kind.2
    rcases field_of_member? emits found with ⟨f, declared, -, rfl⟩ | ⟨f, -, rfl, -⟩ | rfl
    · exact field_mem_names declared
    · cases kind
    · cases kind
  | _ => trivial

theorem Expr.known_of_hasKind {e : Expr} (typed : e.HasKind p temps env) :
    Known d (e.tokens (stemOf d.name)) := by
  obtain ⟨k, kind⟩ := typed
  refine Expr.tokens_known fun x inside => ?_
  exact Expr.named_of_hasKind emits given (Expr.nodes_haveKind kind x inside)

/-! ## Statements -/

theorem known_declare (own : name ∈ d.names)
    (typed : AllTyped p temps (declareSites false env type name init)) :
    Known d (declareTokens (stemOf d.name) type name init) := by
  cases init with
  | none => simp +decide [declareTokens, own]
  | some e =>
    have value := Expr.known_of_hasKind emits given (typed (env, e) mem_cons_self)
    simp +decide [declareTokens, own, value]

theorem known_option {o : Option Expr} (typed : ∀ e ∈ o.toList, e.HasKind p temps env) :
    Known d (o.elim [] (Expr.tokens (stemOf d.name))) := by
  cases o with
  | none => exact known_nil
  | some e => exact Expr.known_of_hasKind emits given (typed e mem_cons_self)

theorem known_list (typed : ∀ e ∈ es, e.HasKind p temps env) :
    Known d (Token.joined (Expr.allTokens (stemOf d.name) es)) := by
  rw [Expr.allTokens_eq]
  exact known_joined (forall_mem_map.mpr fun e member =>
    Expr.known_of_hasKind emits given (typed e member))

/-- What stands first in the head of a loop, and the locals in sight after it. -/
theorem known_init {init : Option ForInit}
    (typed : AllTyped p temps (init.toList.flatMap (ForInit.sites false env)))
    (declared : ∀ name ∈ init.toList.flatMap ForInit.declared, name ∈ d.names) :
    Known d (init.elim [] (ForInit.tokens (stemOf d.name))) ∧
      ∀ q ∈ Stmt.bindAll env (init.toList.map ForInit.stmt), q.1 ∈ d.names := by
  cases init with
  | none => exact ⟨known_nil, given⟩
  | some i =>
    cases i with
    | declare type name init =>
      have own : name ∈ d.names := declared name mem_cons_self
      have sites : AllTyped p temps (declareSites false env type name init) := by
        simpa [ForInit.sites] using typed
      exact ⟨known_declare emits given own sites, forall_mem_cons.mpr ⟨own, given⟩⟩
    | expr e =>
      exact ⟨Expr.known_of_hasKind emits given (typed (env, e) mem_cons_self), given⟩

end

set_option linter.unusedSectionVars false in
mutual

theorem Stmt.tokens_known :
    ∀ {s : Stmt} {env : ScopeFrame}, (∀ q ∈ env, q.1 ∈ d.names) →
      AllTyped p temps (s.sites false env) → (∀ name ∈ s.declared, name ∈ d.names) →
        ∀ l ∈ s.tokens (stemOf d.name), Known d l.2
  | .declare type name init, env, given, typed, declared => by
    have inner := known_declare emits given (declared name mem_cons_self) typed
    simp +decide [inner]
  | .branch cond thenBody elseBody, env, given, typed, declared => by
    obtain ⟨test, both⟩ := forall_mem_cons.mp typed
    obtain ⟨yes, no⟩ := forall_mem_append.mp both
    obtain ⟨names, names'⟩ := forall_mem_append.mp declared
    have head := Expr.known_of_hasKind emits given test
    have first := Stmt.allTokens_known given yes names
    have second := Stmt.allTokens_known given no names'
    refine forall_nested (by simp +decide [head]) first ?_
    split
    · exact known_closing
    · exact forall_nested (by simp +decide) second known_closing
  | .whileLoop cond body, env, given, typed, declared => by
    obtain ⟨test, rounds⟩ := forall_mem_cons.mp typed
    have head := Expr.known_of_hasKind emits given test
    have inner := Stmt.allTokens_known given rounds declared
    exact forall_nested (by simp +decide [head]) inner known_closing
  | .doWhile body cond, env, given, typed, declared => by
    obtain ⟨rounds, test⟩ := forall_mem_append.mp typed
    have head := Expr.known_of_hasKind emits given (test (env, cond) mem_cons_self)
    have inner := Stmt.allTokens_known given rounds declared
    exact forall_nested (by simp +decide) inner (by simp +decide [head])
  | .forLoop init cond update body, env, given, typed, declared => by
    obtain ⟨start, typed⟩ := forall_mem_append.mp typed
    obtain ⟨heads, rounds⟩ := forall_mem_append.mp typed
    obtain ⟨names, names'⟩ := forall_mem_append.mp declared
    obtain ⟨first, after⟩ := known_init emits given start names
    obtain ⟨test, steps⟩ := forall_mem_append.mp (forall_mem_map.mp heads)
    have condition := known_option emits after test
    have updates := known_list emits after steps
    have inner := Stmt.allTokens_known after rounds names'
    exact forall_nested (by simp +decide [first, condition, updates]) inner known_closing
  | .breakLoop, _, _, _, _ | .continueLoop, _, _, _, _ | .ret none, _, _, _, _ => by
    simp +decide
  | .expr e, env, given, typed, _ | .ret (some e), env, given, typed, _ => by
    have inner := Expr.known_of_hasKind emits given (typed (env, e) mem_cons_self)
    simp +decide [inner]
  | .block body, env, given, typed, declared => by
    have inner := Stmt.allTokens_known given typed declared
    exact forall_nested (by simp +decide) inner known_closing

theorem Stmt.allTokens_known :
    ∀ {stmts : List Stmt} {env : ScopeFrame}, (∀ q ∈ env, q.1 ∈ d.names) →
      AllTyped p temps (Stmt.allSites false env stmts) →
        (∀ name ∈ Stmt.allDeclared stmts, name ∈ d.names) →
          ∀ l ∈ Stmt.allTokens (stemOf d.name) stmts, Known d l.2
  | [], _, _, _, _ => forall_mem_nil _
  | s :: rest, env, given, typed, declared => by
    obtain ⟨here, later⟩ := forall_mem_append.mp typed
    obtain ⟨own, others⟩ := forall_mem_append.mp declared
    have after : ∀ q ∈ s.bind env, q.1 ∈ d.names := by
      cases s with
      | declare type name init =>
        exact forall_mem_cons.mpr ⟨own name mem_cons_self, given⟩
      | _ => exact given
    exact forall_mem_append.mpr ⟨Stmt.tokens_known given here own,
      Stmt.allTokens_known after later others⟩

end

end

/-! ## Programs -/

theorem method_mem_names (member : m ∈ d.methods) (given : name ∈ m.names) : name ∈ d.names :=
  mem_append_right _ (mem_flatMap.mpr ⟨m, member, given⟩)

theorem body_known (emits : program d = .ok p) (checked : Typing.check d = .ok ())
    (face : Interface p d) (member : m ∈ d.methods) (made : methodBody d m = .ok b) (depth) :
    ∀ ts ∈ b.tokens (stemOf d.name) depth, Known d ts := by
  obtain ⟨after, formed, -⟩ := body_formed checked face member made
  have given : ∀ q ∈ (m.params.map fun q => (q.name, q.type)).reverse, q.1 ∈ d.names := by
    intro q inside
    obtain ⟨param, own, rfl⟩ := mem_map.mp (mem_reverse.mp inside)
    exact method_mem_names member (mem_append_left _ (mem_map_of_mem own))
  have declared : ∀ name ∈ Stmt.allDeclared b.stmts, name ∈ d.names := by
    intro name inside
    rw [formed.declared] at inside
    exact method_mem_names member (mem_append_right _ inside)
  refine forall_mem_append.mpr ⟨?_, forall_mem_map.mpr fun l inside => ?_⟩
  · intro ts inside
    obtain ⟨⟨t, n⟩, -, rfl⟩ := mem_map.mp inside
    simp +decide [isReserved_tempName n]
  · exact known_indented.mpr
      (Stmt.allTokens_known emits given formed.placed.typed declared l inside)

theorem unreserved_qualifier (h : word ∈ qualifiers) : Unreserved d word := .inl h

theorem unreserved_space (space : MemorySpace) : Unreserved d space.clQualifier := by
  cases space <;> exact unreserved_qualifier (by decide)

theorem unreserved_scope (scope : SlotScope) : Unreserved d scope.clQualifier := by
  cases scope <;> exact unreserved_qualifier (by decide)

theorem isReserved_width (width : SlotWidth) : isReserved width.name = true := by
  cases width <;> decide

attribute [local simp] Member.declTokens Member.token in
theorem member_known (h : m ∈ members d) : Known d m.declTokens ∧ m.token.Known d := by
  rcases mem_members h with ⟨f, declared, rfl | rfl⟩ | rfl
  · have own := field_mem_names declared
    unfold fieldMember
    split
    · simp +decide [own]
    · simp +decide [own, unreserved_space]
    · simp +decide [own, isReserved_width, unreserved_scope]
  · simp +decide [unreserved_length declared]
  · simp +decide

theorem params_known (h : ∀ m ∈ ms, Known d m.declTokens) : ∀ ts ∈ paramTokens ms, Known d ts := by
  induction ms with
  | nil => exact forall_mem_nil _
  | cons m rest ih =>
    obtain ⟨first, others⟩ := forall_mem_cons.mp h
    cases rest with
    | nil => simp +decide [paramTokens, first]
    | cons m' more =>
      rw [paramTokens]
      · exact forall_mem_cons.mpr ⟨by simp +decide [first], ih others⟩
      · simp

theorem signature_known (member : m ∈ d.helpers) (made : helper d m = .ok h) :
    Known d (h.signatureTokens (stemOf d.name)) := by
  obtain ⟨named, -, params, -⟩ := helper_eq_ok made
  have result : Known d (resultTokens h.ret) := by
    cases h.ret with
    | none => simp +decide [resultTokens]
    | some t => exact known_type t
  have own : Unreserved d (helperName (stemOf d.name) h.method) :=
    .inr (.inr (.inl ⟨m, member, named ▸ rfl⟩))
  have given : ∀ q ∈ h.params, q.name ∈ d.names := by
    intro q inside
    rw [params] at inside
    exact method_mem_names (mem_cons_of_mem _ member)
      (mem_append_left _ (mem_map_of_mem inside))
  have list : Known d (Token.joined ([.own "This", .mark " *", .own "this"]
      :: h.params.map fun q => typeTokens q.type ++ [.mark " ", .user q.name])) := by
    apply known_joined
    refine forall_mem_cons.mpr ⟨by simp +decide, ?_⟩
    intro ts inside
    obtain ⟨q, member, rfl⟩ := mem_map.mp inside
    simp +decide [given q member]
  simp +decide [Helper.signatureTokens, result, own, list]

theorem Program.tokens_known (emits : program d = .ok p) (checked : Typing.check d = .ok ())
    (face : Interface p d) : ∀ ts ∈ p.tokens, Known d ts := by
  obtain ⟨stem, same, entry, -, main⟩ := program_eq_ok emits
  have each : ∀ m ∈ p.members, Known d m.declTokens ∧ m.token.Known d := by
    intro m inside
    exact member_known (same ▸ inside)
  have signed : ∀ h ∈ p.helpers, Known d (h.signatureTokens (stemOf d.name)) := by
    intro h inside
    obtain ⟨m, member, made⟩ := method_of_helper emits inside
    exact signature_known member made
  apply Program.forall_tokens
  · have own : Unreserved d p.entry := .inr (.inl entry)
    have kernel : Unreserved d "__kernel" := unreserved_qualifier (by decide)
    simp +decide [frameTokens, openingTokens, entryTokens, accessorTokens, stateTokens, endTokens,
      own, kernel]
  · intro m inside
    simp +decide [Member.fieldTokens, (each m inside).1]
  · intro m inside
    simp +decide [Member.copyTokens, (each m inside).2]
  · exact params_known fun m inside => (each m inside).1
  · intro h inside
    rw [stem]
    simp +decide [signed h inside]
  · intro h inside
    obtain ⟨m, member, made⟩ := method_of_helper emits inside
    obtain ⟨-, -, -, body⟩ := helper_eq_ok made
    have inner := body_known emits checked face (mem_cons_of_mem _ member) body 1
    rw [stem]
    refine forall_mem_cons.mpr ⟨by simp +decide [signed h inside], ?_⟩
    exact forall_mem_append.mpr ⟨inner, by simp +decide⟩
  · rw [stem]
    exact body_known emits checked face mem_cons_self main 2

/-! ## Names and words -/

theorem names_valid {s : Schema} (built : s.build = .ok d) (checked : Typing.check d = .ok ())
    (emits : program d = .ok p) (face : Interface p d) :
    ∀ name ∈ d.names, Name.isValid name = true := by
  intro name member
  rcases mem_append.mp member with field | inside
  · obtain ⟨f, declared, rfl⟩ := mem_map.mp field
    exact Name.isValid_of_isValidField ((Schema.build_names built).2 f declared)
  · obtain ⟨m, method, given⟩ := mem_flatMap.mp inside
    rcases mem_append.mp given with param | declared
    · obtain ⟨q, own, rfl⟩ := mem_map.mp param
      exact params_valid checked method q own
    · obtain ⟨b, made⟩ : ∃ b, methodBody d m = .ok b := by
        obtain ⟨-, -, -, -, main⟩ := program_eq_ok emits
        rcases mem_cons.mp method with rfl | helper
        · exact ⟨p.body, main⟩
        · obtain ⟨h, -, made⟩ := helper_of_method emits helper
          exact ⟨h.body, (helper_eq_ok made).2.2.2⟩
      obtain ⟨after, formed, -⟩ := body_formed checked face method made
      exact formed.valid name declared

theorem isIdentifier_of_isValid (h : Name.isValid name = true) : Name.isIdentifier name = true := by
  simp only [Name.isValid, Bool.and_eq_true] at h
  exact h.1.1

theorem isIdentifier_lengthName (h : Name.isIdentifier array = true) :
    Name.isIdentifier (lengthName array) = true := by
  have joined : (lengthName array).toList = array.toList ++ "__length".toList :=
    String.toList_append
  rw [Name.isIdentifier] at h ⊢
  rw [joined]
  cases letters : array.toList with
  | nil => simp [letters] at h
  | cons c rest =>
    rw [letters] at h
    obtain ⟨head, tail⟩ := Bool.and_eq_true_iff.mp h
    have last : "__length".toList.all Name.isTail = true := by decide
    simp only [cons_append, all_append, head, tail, last, Bool.and_self]

/-- Where functions have identifiers as their names, known tokens are what their constructors
say. -/
theorem Token.Known.proper (emits : program d = .ok p)
    (valid : ∀ name ∈ d.names, Name.isValid name = true)
    (functions : ∀ f ∈ p.definitions, Name.isIdentifier f.1 = true) (h : t.Known d) : t.Proper := by
  obtain ⟨stem, -, entry, -, -⟩ := program_eq_ok emits
  cases t with
  | own word =>
    rcases h with reserved | qualifier | rfl | ⟨m, member, rfl⟩ | ⟨f, declared, rfl⟩
    · exact (Bool.and_eq_true_iff.mp reserved).1
    · have each : ∀ w ∈ qualifiers, Name.isIdentifier w = true := by decide
      exact each word qualifier
    · have last : (p.entry, "__kernel void " ++ p.entry ++ "(") ∈ p.definitions :=
        mem_append_right _ mem_cons_self
      exact entry ▸ functions _ last
    · obtain ⟨h, inside, made⟩ := helper_of_method emits member
      have own : (helperName p.stem h.method, h.signature p.stem) ∈ p.definitions :=
        mem_append_left _ (mem_cons_of_mem _ (mem_map.mpr ⟨h, inside, rfl⟩))
      have name := functions _ own
      rwa [stem, (helper_eq_ok made).1] at name
    · exact isIdentifier_lengthName (isIdentifier_of_isValid (valid _ (field_mem_names declared)))
  | user name => exact isIdentifier_of_isValid (valid name h)
  | numeral text => exact h
  | mark text =>
    obtain ⟨filled, marks⟩ := Bool.and_eq_true_iff.mp h
    refine ⟨of_decide_eq_true filled, fun c inside => ?_⟩
    simpa using all_eq_true.mp marks c inside

/-- Fields have no two underscores next to each other. -/
theorem eq_entry_of_unreserved (valid : Name.isValidField word = true) (h : Unreserved d word) :
    word = d.entry := by
  have apart := Name.hasDoubleUnderscore_of_isValidField valid
  have joined : ∀ w ∈ qualifiers, Name.hasDoubleUnderscore w.toList = true := by decide
  rcases h with qualifier | same | ⟨m, -, rfl⟩ | ⟨f, -, rfl⟩
  · simp [joined word qualifier] at apart
  · exact same
  · simp [hasDoubleUnderscore_helperName] at apart
  · simp [hasDoubleUnderscore_lengthName] at apart

theorem directive_form (p : Program) :
    ∀ line ∈ p.directives, line = "" ∨ Text.startsWith "#pragma " line = true := by
  unfold Program.directives
  split
  · exact forall_mem_nil _
  · refine forall_mem_append.mpr ⟨?_, forall_mem_singleton.mpr (.inl rfl)⟩
    intro line inside
    obtain ⟨e, -, rfl⟩ := mem_map.mp inside
    cases e <;> exact .inr (by decide)

end

/-- A checked kernel is compiled, and the tokens spell the lines of its program other than the
directives. The words of the tokens are the identifiers of the lines if functions have identifiers as
their names. Those that are not the printer's own are names that the kernel gives. If a name that the
kernel gives is one of the printer's own words, then that word is a qualifier, the name of the kernel
function, the name of a helper's function or the name of a length, and if a field has the name, it is
the name of the kernel function. -/
theorem kernel_names_apart {s : Schema} {d : Descriptor} (built : s.build = .ok d)
    (checked : Typing.check d = .ok ()) :
    ∃ p, program d = .ok p ∧ d.compile = .ok ⟨d.entry, p.text⟩ ∧
      p.lines = p.directives ++ p.tokens.map Token.spell ∧
      (∀ line ∈ p.directives, line = "" ∨ Text.startsWith "#pragma " line = true) ∧
      ∀ line ∈ p.tokens,
        ((∀ f ∈ p.definitions, Name.isIdentifier f.1 = true) →
          identifiers (Token.spell line).toList = line.filterMap Token.word?) ∧
        (∀ name, .user name ∈ line → name ∈ d.names) ∧
        ∀ word ∈ d.names, .own word ∈ line →
          Unreserved d word ∧ (word ∈ d.fields.map Field.name → word = d.entry) := by
  obtain ⟨p, emits⟩ := program_of_checked checked
  have face := interface_of_program built emits
  have valid := names_valid built checked emits face
  refine ⟨p, emits, compile_of_program checked emits, Program.lines_eq p,
    directive_form p, fun line member => ?_⟩
  have known := Program.tokens_known emits checked face line member
  refine ⟨fun functions => ?_, fun name inside => known.2 _ inside, fun word given inside => ?_⟩
  · exact Token.identifiers_spell known.1 fun t inside =>
      (known.2 t inside).proper emits valid functions
  · have free : Unreserved d word := by
      rcases known.2 _ inside with reserved | free
      · simp [isReserved, valid word given] at reserved
      · exact free
    refine ⟨free, fun field => ?_⟩
    obtain ⟨f, declared, rfl⟩ := mem_map.mp field
    exact eq_entry_of_unreserved ((Schema.build_names built).2 f declared) free

/-! ### Names next to reserved ones -/

/-- `float f(int _n) { return sqrt((float) _n); }`. -/
def rootHelper : Method where
  name := "f"
  params := [⟨"_n", .int⟩]
  ret := some .float
  body := [.ret (some (.builtin .sqrt [.cast .float (.var "_n") false]))]

/-- `int tmp0 = atoms.length; while (tmp0-- > getGlobalId(0)) atoms[tmp0] += f(tmp0);`. -/
def rootMain : Method where
  name := "run"
  body := [.declare "tmp0" .int (some (.length "atoms")),
    .whileLoop
      (.binary .gt (.step (.var "tmp0") .dec false) (.builtin .globalId [.int 0]))
      [.expr (.assign (.element "atoms" (.var "tmp0")) (some .add) (.call "f" [.var "tmp0"]))]]

def rootSchema : Schema where
  name := "Root"
  fields := [{ name := "atoms", type := .scalar .float, shape := .array },
    { name := "This_", type := .scalar .double }]
  methods := [rootMain, rootHelper]

def rootKernel : Descriptor where
  name := "Root"
  fields := [⟨"atoms", .scalar .float, .array, .global, .readWrite⟩,
    ⟨"This_", .scalar .double, .scalar, .global, .readOnly⟩]
  main := rootMain
  helpers := [rootHelper]

theorem root_names_apart :
    rootSchema.build = .ok rootKernel ∧ Typing.check rootKernel = .ok () ∧
      rootKernel.names = ["atoms", "This_", "tmp0", "_n"] ∧
      ∃ p, program rootKernel = .ok p ∧ ∀ line ∈ p.tokens,
        identifiers (Token.spell line).toList = line.filterMap Token.word? ∧
          ∀ word ∈ rootKernel.names, .own word ∉ line := by
  have built : rootSchema.build = .ok rootKernel := rfl
  have checked : Typing.check rootKernel = .ok () := by decide
  obtain ⟨p, emits, -, -, -, each⟩ := kernel_names_apart built checked
  have functions : ∀ f ∈ p.definitions, Name.isIdentifier f.1 = true := by
    cases emits
    decide
  have apart : ∀ word ∈ rootKernel.names, ¬ Unreserved rootKernel word := by decide
  refine ⟨built, checked, by decide, p, emits, fun line member => ?_⟩
  obtain ⟨words, -, clashes⟩ := each line member
  exact ⟨words functions, fun word given inside => apart word given (clashes word given inside).1⟩

/-! ### Names that are words of the program -/

/-- `int __kernel = 0; int __global = a.length; int a__length = 0; int K__f = 0; f();`. -/
def wordsMain : Method where
  name := "run"
  body := [.declare "__kernel" .int (some (.int 0)), .declare "__global" .int (some (.length "a")),
    .declare "a__length" .int (some (.int 0)), .declare "K__f" .int (some (.int 0)),
    .expr (.call "f" [])]

def wordsSchema : Schema where
  name := "K"
  fields := [{ name := "a", type := .scalar .int, shape := .array }]
  methods := [wordsMain, { name := "f", body := [] }]

def wordsKernel : Descriptor where
  name := "K"
  fields := [⟨"a", .scalar .int, .array, .global, .readOnly⟩]
  main := wordsMain
  helpers := [{ name := "f", body := [] }]

/-- A kernel with a field that has the name of the kernel function. -/
def entrySchema : Schema where
  name := "K"
  fields := [{ name := "run", type := .scalar .int }]
  methods := [{ name := "run", body := [] }]

def entryKernel : Descriptor where
  name := "K"
  fields := [⟨"run", .scalar .int, .scalar, .global, .readOnly⟩]
  main := { name := "run", body := [] }
  helpers := []

theorem names_capture_words :
    (wordsSchema.build = .ok wordsKernel ∧ Typing.check wordsKernel = .ok () ∧
      ∃ p, program wordsKernel = .ok p ∧ wordsKernel.compile = .ok ⟨"run", p.text⟩ ∧
        ∀ word ∈ ["__kernel", "__global", "a__length", "K__f"],
          word ∈ wordsKernel.names ∧ ∃ line ∈ p.tokens, .own word ∈ line) ∧
    entrySchema.build = .ok entryKernel ∧ Typing.check entryKernel = .ok () ∧
      ∃ p, program entryKernel = .ok p ∧ "run" ∈ entryKernel.names ∧
        ∃ line ∈ p.tokens, .own "run" ∈ line := by
  constructor
  · refine ⟨rfl, by decide, _, rfl, rfl, ?_⟩
    decide
  · refine ⟨rfl, by decide, _, rfl, by decide, ?_⟩
    decide

end Target

end GridKernel
