import GridKernel.Proofs.Target.Clashes
import GridKernel.Proofs.Typing.Owners

/-!
# Extensions are announced

A program announces an extension if something in the kernel's text calls for it: a literal, a cast, a
declaration or a signature with `double`, slots of 64 bits, an array of narrow elements that is
written. That is enough. Double precision does not come from anywhere else, neither in the types that
the checker finds nor in those that temporaries get; functions for slots of 64 bits are called on such
slots only; and only arrays that are written are stored into.
-/

namespace GridKernel.Target

open List Outcome Typing
open Typing (typeOf placeType methodTasks)

/-! ## Where double precision comes from -/

/-- No field, no result of a method and no local in sight is a `double`. -/
structure DoubleFree (d : Descriptor) (s : Scope) : Prop where
  fields : ∀ f ∈ d.fields, f.scalarType? ≠ some .double
  results : ∀ m ∈ d.methods, m.ret ≠ some .double
  names : ∀ entry ∈ s.names, entry.2 ≠ .double

theorem binaryType_eq (h : Typing.binaryType op l r = .ok t) : t = .boolean ∨ t = l := by
  unfold Typing.binaryType at h
  split at h
  · split at h <;> simp_all
  · split at h
    · cases h
    · split at h <;> split at h <;> simp_all

theorem builtinType_eq (h : Typing.builtinType func types = .ok t) : t = .int ∨ t ∈ types := by
  unfold Typing.builtinType at h
  split at h
  case h_6 =>
    split at h
    all_goals simp_all [ite_eq_ok]
  all_goals simp_all [ite_eq_ok]

theorem valueTypes_mem (given : Typing.valueTypes d s args = .ok types) (inside : t ∈ types) :
    ∃ e ∈ args, typeOf d s e = .ok (some t) := by
  induction args generalizing types with
  | nil =>
    cases given
    cases inside
  | cons e rest ih =>
    obtain ⟨u, us, rfl, first, others⟩ := valueTypes_cons given
    rcases mem_cons.mp inside with rfl | inside
    · exact ⟨e, mem_cons_self, first⟩
    · obtain ⟨e', member, typed⟩ := ih others inside
      exact ⟨e', mem_cons_of_mem e member, typed⟩

namespace DoubleFree

variable {d : Descriptor} (free : DoubleFree d s)
include free

variable {name : String}

theorem localType_ne : Typing.localType s name ≠ .ok .double := by
  intro typed
  rw [localType_eq_ok, Scope.lookup?_eq] at typed
  obtain ⟨before, after, parts, -⟩ := lookup_eq_some_iff.mp typed
  exact free.names (name, .double) (by simp [parts]) rfl

theorem field_ne (found : d.field? name = some f) (element : f.element = .scalar .double) : False :=
  free.fields f (mem_of_find?_eq_some found) (by rw [Field.scalarType?, element])

theorem arrayType_ne : Typing.arrayType d name ≠ .ok .double := by
  intro typed
  obtain ⟨f, found, -, element⟩ := arrayType_eq_ok.mp typed
  exact free.field_ne found element

theorem scalarType_ne : Typing.scalarType d name ≠ .ok .double := by
  intro typed
  obtain ⟨f, found, -, element⟩ := scalarType_eq_ok.mp typed
  exact free.field_ne found element

theorem placeType_ne : placeType d s p ≠ .ok .double := by
  intro typed
  cases p with
  | var name => exact free.localType_ne typed
  | field name => exact free.scalarType_ne typed
  | element array index => exact free.arrayType_ne (placeType_element typed).2

/-- A `double` is made on the spot or comes from an operand. -/
theorem double_cases (e) (typed : typeOf d s e = .ok (some .double)) :
    makesDouble e = true ∨ ∃ part ∈ e.parts, typeOf d s part = .ok (some .double) := by
  cases e with
  | literal v =>
    simp only [typeOf, Except.ok.injEq, Option.some.injEq] at typed
    simp [makesDouble, typed]
  | var name =>
    simp only [typeOf, bind_eq_ok, pure_eq_ok] at typed
    obtain ⟨t, found, ⟨⟩⟩ := typed
    exact absurd found free.localType_ne
  | field name =>
    simp only [typeOf, bind_eq_ok, pure_eq_ok] at typed
    obtain ⟨t, found, ⟨⟩⟩ := typed
    exact absurd found free.scalarType_ne
  | element array index =>
    obtain ⟨t, ⟨⟩, -, elements⟩ := typeOf_element typed
    exact absurd elements free.arrayType_ne
  | length name => cases (typeOf_length typed).1
  | binary op lhs rhs =>
    obtain ⟨l, r, t, ⟨⟩, left, -, operator⟩ := typeOf_binary typed
    rcases binaryType_eq operator with other | same
    · cases other
    · exact .inr ⟨lhs, mem_cons_self, same ▸ left⟩
  | unary op operand =>
    obtain ⟨u, t, ⟨⟩, inner, operator⟩ := typeOf_unary typed
    obtain ⟨-, same⟩ := ite_eq_ok.mp operator
    cases same
    exact .inr ⟨operand, mem_cons_self, inner⟩
  | conditional cond thenValue elseValue =>
    obtain ⟨t, ⟨⟩, -, first, -⟩ := typeOf_conditional typed
    exact .inr ⟨thenValue, by simp [GridKernel.Expr.parts], first⟩
  | cast type value implicit =>
    obtain ⟨⟨⟩, -⟩ := typeOf_cast typed
    exact .inl rfl
  | assign target op value =>
    obtain ⟨t, v, ⟨⟩, place, -⟩ := typeOf_assign typed
    exact absurd place free.placeType_ne
  | step target op before =>
    obtain ⟨t, ⟨⟩, place, -⟩ := typeOf_step typed
    exact absurd place free.placeType_ne
  | call name args =>
    obtain ⟨m, found, -, -, -, same⟩ := typeOf_call typed
    exact absurd same.symm (free.results m (mem_of_find?_eq_some found))
  | atomic op slot args =>
    obtain ⟨f, w, same, -⟩ := typeOf_atomic typed
    cases w <;> cases same
  | builtin func args =>
    obtain ⟨types, t, ⟨⟩, -, given, called⟩ := typeOf_builtin typed
    rcases builtinType_eq called with other | inside
    · cases other
    · exact .inr (valueTypes_mem given inside)

theorem typeOf_ne (plain : ∀ n ∈ e.nodes, makesDouble n = false) :
    typeOf d s e ≠ .ok (some .double) := by
  intro typed
  obtain ⟨n, inside, made⟩ := GridKernel.Expr.nodes_listed.exists_mem free.double_cases typed
  rw [plain n inside] at made
  cases made

end DoubleFree

/-! ## Slots -/

variable {callee : Callee}

section

variable {p : Program} {temps : Temps}

theorem Callee.kind?_ne_slot : callee.kind? p args ≠ some (.slot w) := by
  intro kind
  unfold Callee.kind? at kind
  cases callee with
  | helper method =>
    obtain ⟨h, -, kind⟩ := Option.bind_eq_some_iff.mp kind
    cases result : h.ret <;> simp [result, Kind.ofResult] at kind
  | _ => grind

/-- The address of a slot is that of a member or comes from an operand. -/
theorem Expr.slot_cases (e : Expr) (kind : e.kind? p temps env = some (.slot w)) :
    (∃ m ∈ p.members, m.addressKind? = some (.slot w)) ∨
      ∃ part ∈ e.parts, part.kind? p temps env = some (.slot w) := by
  cases e with
  | member name =>
    obtain ⟨m, found, kind⟩ := Option.bind_eq_some_iff.mp kind
    refine .inl ⟨m, mem_of_find?_eq_some found, ?_⟩
    cases m <;> simp_all [Member.kind?, Member.addressKind?]
  | addressOf array index =>
    rw [Expr.kind?, Option.ite_none_right_eq_some] at kind
    obtain ⟨m, found, kind⟩ := Option.bind_eq_some_iff.mp kind.2
    exact .inl ⟨m, mem_of_find?_eq_some found, kind⟩
  | paren inner => exact .inr ⟨inner, mem_cons_self, kind⟩
  | conditional cond thenValue elseValue =>
    rw [Expr.kind?, Option.ite_none_right_eq_some] at kind
    obtain ⟨a, first, kind⟩ := Option.bind_eq_some_iff.mp kind.2
    obtain ⟨b, -, kind⟩ := Option.bind_eq_some_iff.mp kind
    grind [Expr.parts]
  | comma first value =>
    obtain ⟨ks, -, kind⟩ := Option.bind_eq_some_iff.mp kind
    exact .inr ⟨value, mem_append_right _ mem_cons_self, kind⟩
  | compound op target value =>
    obtain ⟨t, place, kind⟩ := Option.bind_eq_some_iff.mp kind
    obtain ⟨v, -, kind⟩ := Option.bind_eq_some_iff.mp kind
    grind [Expr.parts]
  | call callee args =>
    obtain ⟨ks, -, kind⟩ := Option.bind_eq_some_iff.mp kind
    exact absurd kind Callee.kind?_ne_slot
  | _ =>
    simp only [Expr.kind?, Option.bind_eq_some_iff, Option.map_eq_some_iff, Member.lengthKind?.eq_def,
      Option.ite_none_right_eq_some, Member.elementKind?.eq_def, binaryKind?.eq_def,
      unaryKind?.eq_def, castKind?.eq_def, assignKind?.eq_def, stepKind?.eq_def] at kind
    grind [Option.map_eq_some_iff]

end

/-! ## What is announced -/

variable {d : Descriptor} {p : Program}

theorem pragma_announced (emits : program d = .ok p) (needs : e ∈ extensions d) :
    e.pragma ∈ p.lines := by
  obtain ⟨helpers, -, made⟩ := bind_eq_ok.mp emits
  obtain ⟨body, -, made⟩ := bind_eq_ok.mp made
  obtain rfl := pure_eq_ok.mp made
  have some : (extensions d).isEmpty = false := by simpa using ne_nil_of_mem needs
  simp only [Program.lines, some, mem_append]
  simp [mem_map_of_mem needs]

/-- Double precision is nowhere in the kernel: not in the fields, the signatures and the locals, not
in the types that the checker gives to expressions, and not in the temporaries of the program. -/
structure NoDouble (d : Descriptor) (p : Program) : Prop where
  fields : ∀ f ∈ d.fields, f.scalarType? ≠ some .double
  signatures : ∀ m ∈ d.methods, m.ret ≠ some .double ∧ ∀ q ∈ m.params, q.type ≠ .double
  locals : ∀ m ∈ d.methods, ∀ name init,
    GridKernel.Stmt.declare name .double init ∉ GridKernel.Stmt.flattenAll m.body
  typed : ∀ m ∈ d.methods, ∀ n ∈ Stmt.allNodes m.body,
    ∃ t ∈ methodTasks m, ∃ e ∈ t.duty.exprs, n ∈ e.nodes
  exprs : ∀ m ∈ d.methods, ∀ t ∈ methodTasks m, ∀ e ∈ t.duty.exprs, ∀ n ∈ e.nodes,
    ∃ result, typeOf d t.scope n = .ok result ∧ result ≠ some .double
  temps : ∀ f ∈ p.functions, .double ∉ f.body.temps

section

variable (none : usesDouble d = false)
include none

theorem fields_plain : ∀ f ∈ d.fields, f.scalarType? ≠ some .double := by
  simpa [usesDouble] using (Bool.or_eq_false_iff.mp none).1

variable {m : Method} (member : m ∈ d.methods)
include member

theorem method_plain : m.ret ≠ some .double ∧ (∀ q ∈ m.params, q.type ≠ .double) ∧
    ∀ st ∈ Stmt.flattenAll m.body, declaresDouble st = false ∧
      ∀ e ∈ st.ownExprs, ∀ n ∈ e.nodes, makesDouble n = false := by
  have own := any_eq_false.mp (Bool.or_eq_false_iff.mp none).2 m member
  simpa [methodUsesDouble, and_assoc] using own

theorem declares_plain (name init) :
    GridKernel.Stmt.declare name .double init ∉ GridKernel.Stmt.flattenAll m.body := by
  intro inside
  have other := ((method_plain none member).2.2 _ inside).1
  simp [declaresDouble] at other

/-- The scope of a task has only what the method's text brings into it. -/
theorem task_free (listed : t ∈ methodTasks m) : DoubleFree d t.scope where
  fields := fields_plain none
  results m member := (method_plain none member).1
  names := by
    rintro ⟨name, type⟩ seen rfl
    rcases ((methodTasks_cover m).owned t listed).1 _ seen with given | ⟨init, declared⟩
    · have given : (name, ScalarType.double) ∈ (Scope.ofMethod m).names := given
      simp only [Scope.names_ofMethod, mem_reverse, mem_map] at given
      obtain ⟨q, inside, same⟩ := given
      exact (method_plain none member).2.1 q inside (congrArg Prod.snd same)
    · exact declares_plain none member name init declared

theorem task_plain (listed : t ∈ methodTasks m) (about : e ∈ t.duty.exprs) :
    ∀ n ∈ e.nodes, typeOf d t.scope n ≠ .ok (some .double) := by
  obtain ⟨stmt, numbered, owes⟩ := methodTasks_owned m listed
  have plain := ((method_plain none member).2.2 stmt (fst_mem_of_mem_zipIdx numbered)).2 e
    (owes.own about)
  exact fun n inside => (task_free none member listed).typeOf_ne fun n' deeper =>
    plain n' (GridKernel.Expr.nodes_listed.nested inside deeper)

theorem question_plain (asked : q ∈ methodAsks m) : q.type d ≠ .ok .double := by
  obtain ⟨t, listed, -, scope, e, about, among⟩ := body_served false 0 (.ofMethod m) m.body q asked
  obtain ⟨position, s, subject⟩ := q
  cases scope
  have free := task_free none member listed
  intro type
  cases subject with
  | value x =>
    exact task_plain none member listed about x among (valueType_eq_ok.mp type)
  | place target => exact free.placeType_ne type
  | array name => exact free.arrayType_ne type
  | slots op name =>
    cases found : Typing.slotWidth d op name with
    | error fault => simp [Question.type, Subject.type, found, Except.map] at type
    | ok r =>
      obtain ⟨f, w⟩ := r
      cases w <;> simp [Question.type, Subject.type, found, Except.map, SlotWidth.scalar] at type

end

theorem noDouble {s : Schema} (built : s.build = .ok d) (checked : Typing.check d = .ok ())
    (emits : program d = .ok p) (none : usesDouble d = false) : NoDouble d p where
  fields := fields_plain none
  signatures m member := ⟨(method_plain none member).1, (method_plain none member).2.1⟩
  locals m member := declares_plain none member
  typed m _ _ := methodTasks_serve m
  exprs m member t listed e about n inside := by
    have typed := Typing.Duty.exprs_haveType (task_done checked member listed) e about
    obtain ⟨result, typed⟩ := nodes_haveType e typed n inside
    refine ⟨result, typed, ?_⟩
    rintro rfl
    exact task_plain none member listed about n inside typed
  temps f member inside := by
    obtain ⟨m, declared, -, made⟩ := method_of_function built emits member
    have answers : ∀ q ∈ methodAsks m, ∀ t, q.type d = .ok t → t ≠ .double := by
      rintro q asked t type rfl
      exact question_plain none declared asked type
    rcases methodBody_temps made answers _ inside with other | other
    · cases other
    · exact other rfl

/-- A function for slots of 64 bits is told from all others by its first letters, and from helpers by
having no two underscores. -/
theorem callee_of_name {args : List Kind} {k : Kind} (kind : callee.kind? p args = some k)
    {stem : String} {op : AtomicOp} (same : callee.name stem = op.clFunction .long) :
    ∃ op', callee = .atomic op' .long := by
  have begins : (callee.name stem).toList.take 5 = "atom_".toList := by
    rw [same]
    cases op <;> decide
  cases callee with
  | helper method =>
    have twice := hasDoubleUnderscore_helperName stem method
    rw [show helperName stem method = op.clFunction .long from same] at twice
    cases op <;> exact absurd twice (by decide)
  | atomic op' width =>
    cases width with
    | long => exact ⟨op', rfl⟩
    | int => simp [Callee.name, AtomicOp.clFunction] at begins
  | passId => simp [Callee.name] at begins
  | convert width => cases width <;> simp [Callee.name] at begins
  | query func =>
    have query : func.isQuery = true := by simp_all [Callee.kind?]
    clear same
    cases func <;> simp_all [Callee.name, queryName, Builtin.isQuery]
  | math name =>
    have apart : ∀ name ∈ mathNames, name.toList.take 5 ≠ "atom_".toList := by decide
    have known : name ∈ mathNames := by
      unfold Callee.kind? at kind
      dsimp only at kind
      split at kind <;> simp_all
    exact absurd begins (apart name known)

/-- Such a function is called on slots of 64 bits, and only a member has these. -/
theorem long_slots {temps : Temps} {env : ScopeFrame} {args : List Expr}
    (typed : (Expr.call callee args).HasKind p temps env) {stem : String} {op : AtomicOp}
    (same : callee.name stem = op.clFunction .long) :
    ∃ m ∈ p.members, m.addressKind? = some (.slot .long) := by
  obtain ⟨k, kind⟩ := typed
  obtain ⟨ks, given, kind⟩ := Option.bind_eq_some_iff.mp kind
  obtain ⟨op', rfl⟩ := callee_of_name kind same
  cases args with
  | nil =>
    cases given
    cases kind
  | cons first rest =>
    obtain ⟨k₁, pointer, others⟩ := Option.bind_eq_some_iff.mp given
    obtain ⟨ks, -, rfl⟩ := Option.map_eq_some_iff.mp others
    have slot : k₁ = .slot .long := by cases k₁ <;> simp_all [Callee.kind?]
    obtain ⟨-, -, found⟩ := Expr.nodes_listed.exists_mem Expr.slot_cases (slot ▸ pointer)
    exact found

theorem usesLongSlots_of_member (emits : program d = .ok p) (member : m ∈ p.members)
    (slots : m.addressKind? = some (.slot .long)) : usesLongSlots d = true := by
  obtain ⟨-, members, -⟩ := program_eq_ok emits
  rcases mem_members (members ▸ member) with ⟨f, declared, rfl | rfl⟩ | rfl
  · refine any_eq_true.mpr ⟨f, declared, ?_⟩
    unfold fieldMember at slots
    split at slots <;> simp_all [Member.addressKind?, Field.slotWidth?]
  · cases slots
  · cases slots

/-- An array that an expression of a method stores into is written. -/
theorem stored_array {s : Schema} (built : s.build = .ok d) {m : Method} (member : m ∈ d.methods)
    {n : GridKernel.Expr} (inside : n ∈ Stmt.allNodes m.body) {array : String}
    {index : GridKernel.Expr} (stores : target? n = some (.element array index)) {f : Field}
    (declared : d.field? array = some f) : f.isWritten = true := by
  have listed := mem_of_find?_eq_some declared
  have same : f.name = array := by simpa using find?_some declared
  obtain ⟨i, bound, found⟩ := mem_iff_getElem.mp listed
  refine (Schema.build_isWritten built (List.getElem?_eq_some_iff.mpr ⟨bound, found⟩)).mpr ?_
  refine mem_flatMap.mpr ⟨m, member, mem_filterMap.mpr ⟨n, inside, ?_⟩⟩
  cases n <;> cases stores <;> exact congrArg some same.symm

/-- A program announces every extension that it needs. Without the one for double precision the
kernel has no `double`: no field, parameter, result or local is one, the checker gives the type to no
expression, and no temporary has it. Without both of those for 64-bit atomics no function calls one
of theirs. And without the one for byte stores all elements that methods assign or step are at least
a word wide. -/
theorem extensions_announced {s : Schema} {d : Descriptor} (built : s.build = .ok d)
    (checked : Typing.check d = .ok ()) :
    ∃ p, program d = .ok p ∧ d.compile = .ok ⟨d.entry, p.text⟩ ∧
      (Extension.double.pragma ∉ p.lines → NoDouble d p) ∧
      (¬(Extension.longAtomicsBase.pragma ∈ p.lines ∧
          Extension.longAtomicsExtended.pragma ∈ p.lines) →
        ∀ f ∈ p.functions, ∀ site ∈ f.sites false, ∀ callee args, site.2 = .call callee args →
          ∀ op : AtomicOp, callee.name p.stem ≠ op.clFunction .long) ∧
      (Extension.byteStores.pragma ∉ p.lines →
        ∀ m ∈ d.methods, ∀ n ∈ Stmt.allNodes m.body, ∀ array index,
          target? n = some (.element array index) →
          ∃ t, Typing.arrayType d array = .ok t ∧ t ∉ [.boolean, .byte, .short, .char]) := by
  obtain ⟨p, emits⟩ := program_of_checked checked
  refine ⟨p, emits, compile_of_program checked emits, ?_, ?_, ?_⟩
  · intro silent
    refine noDouble built checked emits (Bool.eq_false_iff.mpr fun uses => silent ?_)
    exact pragma_announced emits (by simp [extensions, uses])
  · rintro silent f member ⟨env, e⟩ listed callee args rfl op same
    obtain ⟨m, declared, params, made⟩ := method_of_function built emits member
    obtain ⟨after, formed, -⟩ := body_formed checked (interface_of_program built emits) declared
      made
    rw [← params] at formed
    have typed := Function.sites_haveKind formed.placed.typed _ listed
    obtain ⟨slots, inside, kind⟩ := long_slots typed same
    have uses := usesLongSlots_of_member emits inside kind
    exact silent ⟨pragma_announced emits (by simp [extensions, uses]),
      pragma_announced emits (by simp [extensions, uses])⟩
  · intro silent m member n inside array index stores
    obtain ⟨t, listed, e, about, within⟩ := methodTasks_serve m inside
    have typed := Typing.Duty.exprs_haveType (task_done checked member listed) e about
    obtain ⟨type, place⟩ := target_hasType (nodes_haveType e typed n within) stores
    obtain ⟨-, elements⟩ := placeType_element place
    refine ⟨type, elements, fun narrow => silent (pragma_announced emits ?_)⟩
    obtain ⟨f, declared, many, element⟩ := arrayType_eq_ok.mp elements
    have written := stored_array built member inside stores declared
    have uses : storesSubwords d = true := by
      refine any_eq_true.mpr ⟨f, mem_of_find?_eq_some declared, ?_⟩
      have subword : type.isSubword = true := by
        revert narrow
        cases type <;> decide
      simp [many, written, Field.scalarType?, element, subword]
    simp [extensions, uses]

/-- A kernel with floating-point numbers and atomics that announces nothing. -/
theorem picking_announces_nothing :
    ∃ p, program pickKernel = .ok p ∧ (∀ e : Extension, e.pragma ∉ p.lines) ∧
      NoDouble pickKernel p ∧
      (∀ f ∈ p.functions, ∀ site ∈ f.sites false, ∀ callee args, site.2 = .call callee args →
        ∀ op : AtomicOp, callee.name p.stem ≠ op.clFunction .long) ∧
      ∀ m ∈ pickKernel.methods, ∀ n ∈ Stmt.allNodes m.body, ∀ array index,
        target? n = some (.element array index) →
        ∃ t, Typing.arrayType pickKernel array = .ok t ∧ t ∉ [.boolean, .byte, .short, .char] := by
  obtain ⟨p, emits, -, double, long, bytes⟩ :=
    extensions_announced (show pickSchema.build = .ok pickKernel from rfl) (by decide)
  have silent : ∀ e : Extension, e.pragma ∉ p.lines := by
    cases emits
    intro e
    cases e <;> decide
  exact ⟨p, emits, silent, double (silent _), long fun both => silent _ both.1,
    bytes (silent _)⟩

end GridKernel.Target
