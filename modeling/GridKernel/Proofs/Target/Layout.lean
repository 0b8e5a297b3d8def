import GridKernel.Proofs.Kernel.Build
import GridKernel.Target.Program
import Mathlib.Data.List.Nodup

/-!
# The layout of the kernel's state

The fields of a kernel appear in the target program three times: as members of the state, as
parameters of the kernel function and as the assignments at its start. All three are read back from
the lines of the program here, and they list the same members in the order of `kernelParams`.
-/

namespace GridKernel

open List

/-! ## The order of the parameters -/

namespace KernelParam

/-- The field that a parameter is. -/
def field? : KernelParam → Option Nat
  | field i => some i
  | length _ | passId => none

end KernelParam

namespace Descriptor

variable {d : Descriptor}

/-- A method that can be reached reads the length of the array of this name. -/
def ReadsLength (d : Descriptor) (name : String) : Prop :=
  ∃ m ∈ d.methods, .length name ∈ Stmt.allNodes m.body

theorem mem_lengthUses {name : String} : name ∈ d.lengthUses ↔ d.ReadsLength name := by
  have read : ∀ {e : Expr}, e.lengthOf? = some name ↔ e = .length name := by
    intro e
    cases e <;> simp [Expr.lengthOf?]
  simp only [lengthUses, ReadsLength, mem_flatMap, mem_filterMap, read]
  simp

theorem passesLength_iff : d.passesLength f = true ↔ f.isArray = true ∧ d.ReadsLength f.name := by
  rw [passesLength, Bool.and_eq_true, contains_iff_mem, mem_lengthUses]

theorem length_mem_kernelParams :
    .length i ∈ d.kernelParams ↔
      ∃ f, d.fields[i]? = some f ∧ f.isArray = true ∧ d.ReadsLength f.name := by
  simp only [kernelParams, mem_append, mem_flatMap, mem_singleton, reduceCtorEq,
    or_false]
  constructor
  · rintro ⟨⟨f, j⟩, declared, member⟩
    rcases mem_cons.mp member with same | member
    · cases same
    · split at member
      · rename_i passes
        cases mem_singleton.mp member
        exact ⟨f, mk_mem_zipIdx_iff_getElem?.mp declared, passesLength_iff.mp passes⟩
      · cases member
  · rintro ⟨f, declared, passes⟩
    refine ⟨(f, i), mk_mem_zipIdx_iff_getElem?.mpr declared, ?_⟩
    rw [if_pos (passesLength_iff.mpr passes)]
    exact mem_cons_of_mem _ mem_cons_self

/-- A length comes right after its array. -/
theorem length_follows (member : .length i ∈ d.kernelParams) :
    [.field i, .length i] <:+: d.kernelParams := by
  obtain ⟨f, declared, passes⟩ := length_mem_kernelParams.mp member
  obtain ⟨before, after, split⟩ :=
    append_of_mem (mk_mem_zipIdx_iff_getElem?.mpr declared)
  unfold kernelParams
  rw [split, flatMap_append, flatMap_cons]
  simp only [if_pos (passesLength_iff.mpr passes), append_assoc]
  exact infix_append' _ _ _

/-- The fields come in the order of their declarations. -/
theorem fields_of_kernelParams :
    d.kernelParams.filterMap KernelParam.field? = List.range d.fields.length := by
  have own : ∀ p : Field × Nat,
      (KernelParam.field p.2 :: if d.passesLength p.1 then [.length p.2] else []).filterMap
        KernelParam.field? = [p.2] := by
    intro p
    cases d.passesLength p.1 <;> rfl
  unfold kernelParams
  rw [filterMap_append, filterMap_flatMap]
  simp only [own]
  rw [← map_eq_flatMap, range_eq_range']
  simp [KernelParam.field?, zipIdx_map_snd]

/-- Fields in the order of their declarations, the length of an array right after it and exactly if
a method reads it, and the number of the pass at the end. -/
structure InOrder (d : Descriptor) (params : List KernelParam) : Prop where
  fields : params.filterMap KernelParam.field? = List.range d.fields.length
  lengths : ∀ i, .length i ∈ params ↔
    ∃ f, d.fields[i]? = some f ∧ f.isArray = true ∧ d.ReadsLength f.name
  follows : ∀ i, .length i ∈ params → [.field i, .length i] <:+: params
  last : params.getLast? = some .passId
  distinct : params.Nodup

end Descriptor

namespace Target

variable {d : Descriptor}

/-- The member of the state that a parameter is for. -/
def paramMember? (d : Descriptor) : KernelParam → Option Member
  | .field i => d.fields[i]?.map fieldMember
  | .length i => d.fields[i]?.map fun f => .length f.name
  | .passId => some .passId

/-- Members and parameters are in the same order. -/
theorem members_eq (d) : (members d).map some = d.kernelParams.map (paramMember? d) := by
  unfold members Descriptor.kernelParams
  have indexed : d.fields = d.fields.zipIdx.map Prod.fst := by rw [zipIdx_map_fst]
  nth_rewrite 1 [indexed]
  rw [map_append, map_append, flatMap_map, map_flatMap, map_flatMap]
  congr 1
  refine flatMap_congr fun p member => ?_
  obtain ⟨f, i⟩ := p
  have declared := mk_mem_zipIdx_iff_getElem?.mp member
  cases passes : d.passesLength f <;> simp [passes, paramMember?, declared]

theorem member_at {k : Nat} {param : KernelParam} (found : d.kernelParams[k]? = some param) :
    ∃ member, paramMember? d param = some member ∧ (members d)[k]? = some member := by
  have same := congrArg (·[k]?) (members_eq d)
  simp only [getElem?_map, found, Option.map_some] at same
  cases listed : (members d)[k]? with
  | none =>
    rw [listed] at same
    cases same
  | some member =>
    rw [listed] at same
    exact ⟨member, (Option.some.inj same).symm, rfl⟩

theorem program_parts (h : program d = .ok p) : p.members = members d ∧ p.entry = d.entry := by
  obtain ⟨helpers, -, h⟩ := Outcome.bind_eq_ok.mp h
  obtain ⟨body, -, h⟩ := Outcome.bind_eq_ok.mp h
  obtain rfl := Outcome.pure_eq_ok.mp h
  exact ⟨rfl, rfl⟩

theorem length_members (d) : (members d).length = d.kernelParams.length := by
  simpa using congrArg List.length (members_eq d)

/-! ## Names -/

theorem hasDoubleUnderscore_append (a b) :
    Name.hasDoubleUnderscore (a ++ '_' :: '_' :: b) = true := by
  induction a with
  | nil => rfl
  | cons c rest ih =>
    rw [cons_append]
    unfold Name.hasDoubleUnderscore
    split
    · rfl
    · rename_i same
      cases same
      exact ih
    · contradiction

theorem lengthName_inj (same : lengthName a = lengthName b) : a = b := by
  have letters := congrArg String.toList same
  simp only [lengthName, String.toList_append] at letters
  exact String.toList_inj.mp (append_cancel_right letters)

/-- The name of a length is no name of a field. -/
theorem lengthName_ne (valid : Name.isValidField b = true) : lengthName a ≠ b := by
  rintro rfl
  have joined : Name.hasDoubleUnderscore (lengthName a).toList = true := by
    rw [lengthName, String.toList_append]
    exact hasDoubleUnderscore_append a.toList _
  rw [Name.isValidField, joined] at valid
  simp at valid

theorem passid_ne_lengthName (a) : "passid" ≠ lengthName a := by
  intro same
  have joined : Name.hasDoubleUnderscore "passid".toList = true := by
    rw [same, lengthName, String.toList_append]
    exact hasDoubleUnderscore_append a.toList _
  exact absurd joined (by decide)

theorem ne_passid (valid : Name.isValidField a = true) : a ≠ "passid" := by
  rintro rfl
  exact absurd valid (by decide)

@[simp] theorem name_fieldMember (f) : (fieldMember f).name = f.name := by
  unfold fieldMember
  split <;> rfl

@[simp] theorem name_length (array) : (Member.length array).name = lengthName array := rfl

/-- The members that a field brings in have its name and the name of its length. -/
theorem name_of_field {name : String}
    (member : name ∈ (fieldMember f :: if d.passesLength f then [.length f.name] else []).map
      Member.name) :
    name = f.name ∨ name = lengthName f.name := by
  cases passes : d.passesLength f with
  | false => exact .inl (by simpa [passes] using member)
  | true => simpa [passes] using member

/-- No two members have the same name. -/
theorem names_nodup {s : Schema} (built : s.build = .ok d) :
    ((members d).map Member.name).Nodup := by
  obtain ⟨distinct, valid⟩ := Schema.build_names built
  unfold members
  rw [map_append, map_flatMap, nodup_append']
  refine ⟨nodup_flatMap.mpr ⟨fun f member => ?_, ?_⟩, nodup_singleton _, ?_⟩
  · have apart : f.name ≠ lengthName f.name := (lengthName_ne (valid f member)).symm
    cases d.passesLength f <;> simp [apart]
  · refine (pairwise_map.mp distinct).imp_of_mem fun {f g} first second apart => ?_
    intro name mine theirs
    rcases name_of_field mine with rfl | rfl
    · rcases name_of_field theirs with same | same
      · exact apart same
      · exact lengthName_ne (valid f first) same.symm
    · rcases name_of_field theirs with same | same
      · exact lengthName_ne (valid g second) same
      · exact apart (lengthName_inj same)
  · intro name mine last
    obtain ⟨f, member, mine⟩ := mem_flatMap.mp mine
    cases mem_singleton.mp last
    rcases name_of_field mine with same | same
    · exact ne_passid (valid f member) same.symm
    · exact passid_ne_lengthName _ same

theorem kernelParams_nodup {s : Schema} (built : s.build = .ok d) : d.kernelParams.Nodup := by
  have own : ((members d).map some).Nodup :=
    List.Nodup.map (fun _ _ same => Option.some.inj same) (.of_map _ (names_nodup built))
  rw [members_eq] at own
  exact .of_map _ own

theorem kernelParams_inOrder {s : Schema} (built : s.build = .ok d) : d.InOrder d.kernelParams where
  fields := d.fields_of_kernelParams
  lengths _ := Descriptor.length_mem_kernelParams
  follows _ := Descriptor.length_follows
  last := getLast?_concat
  distinct := kernelParams_nodup built

/-! ## The lines of a program -/

/-- The declaration of the kernel's state. -/
def stateLines (lines : List String) : List String :=
  ((lines.dropWhile (· != "typedef struct This_s\x7b")).drop 1).takeWhile (· != "\x7dThis;")

/-- The lines after the one that the kernel function begins with. -/
def kernelLines (entry : String) (lines : List String) : List String :=
  (lines.dropWhile (· != "__kernel void " ++ entry ++ "(")).drop 1

/-- The parameters of the kernel function. -/
def signatureLines (entry : String) (lines : List String) : List String :=
  (kernelLines entry lines).takeWhile (· != ")\x7b")

/-- The assignments at the start of the kernel function, after the declaration of the state. -/
def prologueLines (entry : String) (lines : List String) : List String :=
  (((kernelLines entry lines).dropWhile (· != ")\x7b")).drop 3).takeWhile (· != "   \x7b")

section Lines

variable {after : List String} {line : String}

theorem dropWhile_ne (apart : ∀ l ∈ before, l ≠ line) :
    (before ++ line :: after).dropWhile (· != line) = line :: after := by
  rw [dropWhile_append_of_pos fun l member => bne_iff_ne.mpr (apart l member)]
  simp

theorem takeWhile_ne (apart : ∀ l ∈ before, l ≠ line) :
    (before ++ line :: after).takeWhile (· != line) = before := by
  rw [takeWhile_append_of_pos fun l member => bne_iff_ne.mpr (apart l member)]
  simp

/-- Lines that begin differently are different. -/
theorem ne_of_head {a b : String} (h : a.toList.head? ≠ b.toList.head?) : a ≠ b :=
  fun same => h (same ▸ rfl)

end Lines

/-- A line that is indented. -/
def Indented (line : String) : Prop := line.toList.head? = some ' '

theorem indented_indent (depth line) : Indented (indent (depth + 1) line) := by
  rw [Indented, indent, String.toList_append, String.toList_ofList, Nat.mul_add]
  rfl

theorem body_indented (stem depth) (b : Body) :
    ∀ line ∈ b.lines stem (depth + 1), Indented line := by
  intro line member
  rcases mem_append.mp member with member | member
  · obtain ⟨⟨t, n⟩, -, rfl⟩ := mem_map.mp member
    exact indented_indent depth _
  · obtain ⟨l, -, rfl⟩ := mem_map.mp member
    rw [Nat.add_right_comm]
    exact indented_indent _ _

theorem head_signature (stem) (h : Helper) (rest) :
    (h.signature stem ++ rest).toList.head? ≠ some '_' := by
  unfold Helper.signature
  cases h.ret with
  | none => simp
  | some t => cases t <;> simp [ScalarType.clName]

theorem Indented.head_ne (h : Indented line) : line.toList.head? ≠ some '_' := by
  rw [h]
  decide

/-- The lines before the kernel function. -/
def Program.linesBefore (p : Program) : List String :=
  (if p.extensions.isEmpty then [] else p.extensions.map Extension.pragma ++ [""])
    ++ "typedef struct This_s\x7b" :: (p.members.map fun m => "   " ++ m.decl ++ ";")
    ++ ["\x7dThis;", "int get_pass_id(This *this)\x7b", "   return this->passid;", "\x7d", ""]
    ++ (p.helpers.map fun h => h.signature p.stem ++ ";")
    ++ (if p.helpers.isEmpty then [] else [""])
    ++ p.helpers.flatMap (Helper.lines p.stem)

theorem indented_decl (m : Member) (rest) : Indented ("   " ++ m.decl ++ rest) := by
  simp [Indented]

theorem head_helperLines (stem) (h : Helper) :
    ∀ line ∈ h.lines stem, line.toList.head? ≠ some '_' := by
  intro line member
  rcases mem_cons.mp member with rfl | member
  · exact head_signature stem h _
  rcases mem_append.mp member with member | member
  · exact (body_indented stem 0 h.body line member).head_ne
  · have last : ∀ line ∈ ["\x7d", ""], line.toList.head? ≠ some '_' := by decide
    exact last line member

theorem mem_pragmas {extensions : List Extension}
    (member : line ∈ if extensions.isEmpty then [] else extensions.map Extension.pragma ++ [""]) :
    (∃ e : Extension, line = e.pragma) ∨ line = "" := by
  split at member
  · cases member
  rcases mem_append.mp member with member | member
  · obtain ⟨e, -, rfl⟩ := mem_map.mp member
    exact .inl ⟨e, rfl⟩
  · exact .inr (mem_singleton.mp member)

/-- None of them looks like the head of the kernel function. -/
theorem head_linesBefore (p : Program) :
    ∀ line ∈ p.linesBefore, line.toList.head? ≠ some '_' := by
  intro line member
  simp only [Program.linesBefore, mem_append, or_assoc] at member
  rcases member with extension | state | fixed | prototype | blank | helper
  · rcases mem_pragmas extension with ⟨e, rfl⟩ | rfl
    · cases e <;> decide
    · decide
  · rcases mem_cons.mp state with rfl | state
    · decide
    · obtain ⟨m, -, rfl⟩ := mem_map.mp state
      exact (indented_decl m _).head_ne
  · revert line
    decide
  · obtain ⟨h, -, rfl⟩ := mem_map.mp prototype
    exact head_signature p.stem h _
  · split at blank
    · cases blank
    · rw [mem_singleton.mp blank]
      decide
  · obtain ⟨h, -, helper⟩ := mem_flatMap.mp helper
    exact head_helperLines p.stem h line helper

theorem paramLines_indented : ∀ members : List Member, ∀ line ∈ paramLines members, Indented line
  | [], _, member => nomatch member
  | [m], line, member => by
    rw [mem_singleton.mp member]
    simp [Indented]
  | m :: m' :: rest, line, member => by
    rcases mem_cons.mp member with rfl | member
    · exact indented_decl m ","
    · exact paramLines_indented (m' :: rest) line member

theorem stateLines_eq (p : Program) :
    stateLines p.lines = p.members.map fun m => "   " ++ m.decl ++ ";" := by
  have start : ∀ line ∈ if p.extensions.isEmpty then [] else
      p.extensions.map Extension.pragma ++ [""], line ≠ "typedef struct This_s\x7b" := by
    intro line member
    rcases mem_pragmas member with ⟨e, rfl⟩ | rfl
    · cases e <;> decide
    · decide
  have inside : ∀ line ∈ (p.members.map fun m => "   " ++ m.decl ++ ";"), line ≠ "\x7dThis;" := by
    intro line member
    obtain ⟨m, -, rfl⟩ := mem_map.mp member
    refine ne_of_head ?_
    rw [indented_decl m ";"]
    decide
  unfold stateLines Program.lines
  simp only [append_assoc, cons_append]
  rw [dropWhile_ne start, drop_one, tail_cons, takeWhile_ne inside]

theorem kernelLines_eq (p : Program) :
    kernelLines p.entry p.lines =
      paramLines p.members ++ ")\x7b" :: "   This thisStruct;" :: "   This* this=&thisStruct;"
        :: ((p.members.map fun m => "   this->" ++ m.name ++ " = " ++ m.name ++ ";")
          ++ "   \x7b" :: (p.body.lines p.stem 2 ++ ["      return;", "   \x7d", "\x7d"])) := by
  have start : ∀ line ∈ p.linesBefore, line ≠ "__kernel void " ++ p.entry ++ "(" := by
    intro line member
    refine ne_of_head ?_
    simpa using head_linesBefore p line member
  have split : p.lines = p.linesBefore ++ ("__kernel void " ++ p.entry ++ "(") ::
      (paramLines p.members ++ ")\x7b" :: "   This thisStruct;" :: "   This* this=&thisStruct;"
        :: ((p.members.map fun m => "   this->" ++ m.name ++ " = " ++ m.name ++ ";")
          ++ "   \x7b" :: (p.body.lines p.stem 2 ++ ["      return;", "   \x7d", "\x7d"]))) := by
    simp only [Program.lines, Program.linesBefore, append_assoc, cons_append,
      nil_append]
  rw [kernelLines, split, dropWhile_ne start, drop_one, tail_cons]

theorem signatureLines_eq (p : Program) :
    signatureLines p.entry p.lines = paramLines p.members := by
  rw [signatureLines, kernelLines_eq, takeWhile_ne]
  intro line member
  refine ne_of_head ?_
  rw [paramLines_indented p.members line member]
  decide

theorem prologueLines_eq (p : Program) :
    prologueLines p.entry p.lines =
      p.members.map fun m => "   this->" ++ m.name ++ " = " ++ m.name ++ ";" := by
  have params : ∀ line ∈ paramLines p.members, line ≠ ")\x7b" := by
    intro line member
    refine ne_of_head ?_
    rw [paramLines_indented p.members line member]
    decide
  rw [prologueLines, kernelLines_eq, dropWhile_ne params]
  refine takeWhile_ne fun line member same => ?_
  obtain ⟨m, -, rfl⟩ := mem_map.mp member
  have fourth := congrArg (fun s : String => s.toList[3]?) same
  simp at fourth

/-- Each parameter is declared on a line of its own, with a comma unless it is the last one. -/
theorem getElem?_paramLines : ∀ {members : List Member} {k : Nat} {m : Member},
    members[k]? = some m →
      (paramLines members)[k]? =
        some ("   " ++ m.decl ++ if k + 1 = members.length then "" else ",")
  | [], _, _, found => nomatch found
  | [m], 0, _, found | m :: m' :: rest, 0, _, found => by
    cases found
    simp [paramLines]
  | m :: m' :: rest, k + 1, _, found => by
    have first : paramLines (m :: m' :: rest) =
        ("   " ++ m.decl ++ ",") :: paramLines (m' :: rest) := rfl
    rw [getElem?_cons_succ] at found
    rw [first, getElem?_cons_succ, getElem?_paramLines found]
    simp

theorem length_paramLines : ∀ members : List Member, (paramLines members).length = members.length
  | [] | [_] => rfl
  | _ :: m' :: rest => congrArg (· + 1) (length_paramLines (m' :: rest))

end Target

end GridKernel
