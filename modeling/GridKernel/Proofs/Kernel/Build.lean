import GridKernel.Kernel.Descriptor
import GridKernel.Proofs.Outcome
import Mathlib.Data.List.Nodup

/-!
# Descriptors that were built

What `Schema.build` promises of a descriptor: its entry point takes and returns nothing, its fields
have valid names of their own, and a field carries the direction `readWrite` exactly if one of the
methods stores into it.
-/

namespace GridKernel

open List Outcome

namespace CallGraph

/-- A walk keeps what it has reached, in order. -/
theorem reach_extends (next : String → List String) (n stack reached) :
    reached <+: reach next n stack reached := by
  induction n generalizing stack reached with
  | zero => cases stack <;> exact prefix_rfl
  | succ n ih =>
    cases stack with
    | nil => exact prefix_rfl
    | cons name stack =>
      unfold reach
      split
      · exact ih stack reached
      · exact (prefix_append reached [name]).trans (ih _ _)

/-- The order of a kernel's methods starts with the entry point. -/
theorem linearize_head {methods : List Method} {entry : String} {main : Method}
    (h : linearize methods entry = .ok (main :: helpers)) : find? methods entry = some main := by
  unfold linearize at h
  split at h
  · cases h
  · rename_i declared
    split at h
    · cases h
    · dsimp only at h
      split at h
      · cases h
      · have ordered := Except.ok.inj h
        obtain ⟨rest, walked⟩ := reach_extends (callees methods)
          (methods.foldr (fun m n => m.callSites.length + 1 + n) 0) (callees methods entry ++ [])
          [entry]
        have start : reach (callees methods) (steps methods) [entry] [] = entry :: rest := by
          unfold steps
          rw [Nat.add_comm, reach]
          exact walked.symm
        rw [start] at ordered
        cases found : find? methods entry with
        | none => simp [found] at declared
        | some m =>
          rw [filterMap_cons_some found] at ordered
          rw [(List.cons.inj ordered).1]

end CallGraph

namespace Schema

variable {s : Schema} {d : Descriptor}

theorem build_eq_ok (h : s.build = .ok d) :
    checkFieldNames [] s.fields = .ok () ∧ checkMethodNames [] s.methods = .ok () ∧
      s.checkEntry = .ok () ∧ CallGraph.linearize s.methods s.entry = .ok d.methods ∧
      s.fields.mapM (field (Method.writtenFields d.methods)) = .ok d.fields := by
  obtain ⟨⟨⟩, fieldNames, h⟩ := bind_eq_ok.mp h
  obtain ⟨⟨⟩, methodNames, h⟩ := bind_eq_ok.mp h
  obtain ⟨⟨⟩, entry, h⟩ := bind_eq_ok.mp h
  refine ⟨fieldNames, methodNames, entry, ?_⟩
  split at h
  · cases h
  · cases h
  · rename_i main helpers ordered
    obtain ⟨fields, directed, h⟩ := bind_eq_ok.mp h
    obtain rfl := pure_eq_ok.mp h
    exact ⟨ordered, directed⟩

theorem checkMethodNames_nodup {methods : List Method}
    (h : checkMethodNames seen methods = .ok ()) :
    (methods.map Method.name).Nodup ∧ ∀ m ∈ methods, m.name ∉ seen := by
  induction methods generalizing seen with
  | nil => exact ⟨nodup_nil, nofun⟩
  | cons m rest ih =>
    obtain ⟨fresh, h⟩ := ite_error_eq_ok.mp h
    obtain ⟨distinct, apart⟩ := ih h
    refine ⟨nodup_cons.mpr ⟨?_, distinct⟩, ?_⟩
    · intro repeated
      obtain ⟨m', member, same⟩ := mem_map.mp repeated
      exact apart m' member (same ▸ mem_cons_self)
    · rintro m' (_ | ⟨_, member⟩)
      · simpa using fresh
      · exact fun earlier => apart m' member (mem_cons_of_mem _ earlier)

/-- The entry point takes no parameters and returns no value. -/
theorem build_main (h : s.build = .ok d) : d.main.params = [] ∧ d.main.ret = none := by
  obtain ⟨-, methodNames, entry, ordered, -⟩ := build_eq_ok h
  have found := CallGraph.linearize_head ordered
  unfold checkEntry at entry
  split at entry
  · cases entry
  · rename_i m declared
    obtain ⟨accepted, -⟩ := ite_eq_ok.mp entry
    -- Names are distinct, so looking from either end gives the same method.
    have named := find?_some declared
    have named' := find?_some found
    have same : m = d.main :=
      inj_on_of_nodup_map (checkMethodNames_nodup methodNames).1
        (mem_of_find?_eq_some declared)
        (mem_reverse.mp (mem_of_find?_eq_some found))
        ((eq_of_beq named).trans (eq_of_beq named').symm)
    subst same
    simpa using accepted

theorem field_eq_ok (h : field written decl = .ok f) :
    f.name = decl.name ∧ f.isWritten = written.contains decl.name := by
  obtain ⟨element, -, h⟩ := bind_eq_ok.mp h
  dsimp only at h
  obtain ⟨-, h⟩ := ite_error_eq_ok.mp h
  obtain ⟨-, h⟩ := ite_error_eq_ok.mp h
  obtain ⟨-, h⟩ := ite_error_eq_ok.mp h
  obtain rfl := Except.ok.inj h
  refine ⟨rfl, ?_⟩
  unfold Field.isWritten
  cases written.contains decl.name <;> rfl

/-- Each field comes from the declaration in its place. -/
theorem build_field (h : s.build = .ok d) {i : Nat} {f : Field}
    (declared : d.fields[i]? = some f) :
    ∃ decl, s.fields[i]? = some decl ∧ field (Method.writtenFields d.methods) decl = .ok f := by
  obtain ⟨-, -, -, -, directed⟩ := build_eq_ok h
  obtain ⟨length, each⟩ := mapM_eq_ok directed
  have inBounds : i < s.fields.length := length ▸ (List.getElem?_eq_some_iff.mp declared).1
  obtain ⟨f', found, made⟩ := each (getElem?_eq_getElem inBounds)
  obtain rfl : f = f' := Option.some.inj (declared.symm.trans found)
  exact ⟨s.fields[i], getElem?_eq_getElem inBounds, made⟩

/-- The direction of a field says whether a method stores into it. -/
theorem build_isWritten (h : s.build = .ok d) {i : Nat} {f : Field}
    (declared : d.fields[i]? = some f) :
    f.isWritten = true ↔ f.name ∈ Method.writtenFields d.methods := by
  obtain ⟨decl, -, made⟩ := build_field h declared
  obtain ⟨name, written⟩ := field_eq_ok made
  rw [written, name, contains_iff_mem]

theorem checkFieldNames_nodup {fields : List FieldDecl} (h : checkFieldNames seen fields = .ok ()) :
    (fields.map FieldDecl.name).Nodup ∧
      ∀ decl ∈ fields, decl.name ∉ seen ∧ Name.isValidField decl.name = true := by
  induction fields generalizing seen with
  | nil => exact ⟨nodup_nil, nofun⟩
  | cons decl rest ih =>
    obtain ⟨fresh, h⟩ := ite_error_eq_ok.mp h
    obtain ⟨valid, h⟩ := ite_error_eq_ok.mp h
    obtain ⟨distinct, apart⟩ := ih h
    refine ⟨nodup_cons.mpr ⟨?_, distinct⟩, ?_⟩
    · intro repeated
      obtain ⟨decl', member, same⟩ := mem_map.mp repeated
      exact (apart decl' member).1 (same ▸ mem_cons_self)
    · rintro decl' (_ | ⟨_, member⟩)
      · exact ⟨by simpa using fresh, by simpa using valid⟩
      · exact ⟨fun earlier => (apart decl' member).1 (mem_cons_of_mem _ earlier),
          (apart decl' member).2⟩

/-- Fields have names of their own, and such as a field may have. -/
theorem build_names (h : s.build = .ok d) :
    (d.fields.map Field.name).Nodup ∧ ∀ f ∈ d.fields, Name.isValidField f.name = true := by
  obtain ⟨fieldNames, -, -, -, directed⟩ := build_eq_ok h
  obtain ⟨distinct, valid⟩ := checkFieldNames_nodup fieldNames
  have same : d.fields.map Field.name = s.fields.map FieldDecl.name := by
    refine ext_getElem? fun i => ?_
    rw [getElem?_map, getElem?_map]
    cases declared : d.fields[i]? with
    | some f =>
      obtain ⟨decl, found, made⟩ := build_field h declared
      rw [found, Option.map_some, Option.map_some, (field_eq_ok made).1]
    | none =>
      have beyond := getElem?_eq_none_iff.mp declared
      rw [(mapM_eq_ok directed).1] at beyond
      rw [getElem?_eq_none beyond]
      rfl
  refine ⟨same ▸ distinct, fun f member => ?_⟩
  have listed : f.name ∈ s.fields.map FieldDecl.name := same ▸ mem_map_of_mem member
  obtain ⟨decl, found, name⟩ := mem_map.mp listed
  exact name ▸ (valid decl found).2

end Schema

end GridKernel
