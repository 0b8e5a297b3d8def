import GridKernel.Proofs.Target.Layout

/-!
# Names in target programs

Names that a kernel may give are no beginnings of reserved names and no reserved words. So they differ
from temporaries; names of functions and of lengths have two underscores next to each other, which
names of fields and of temporaries have not.
-/

namespace GridKernel

namespace Name

theorem startsWith_append (beginning rest) :
    Text.startsWith beginning (beginning ++ rest) = true := by
  simp [Text.startsWith, Text.afterBeginning?]

theorem not_isValid_of_beginning (known : beginning ∈ reservedBeginnings) (rest) :
    isValid (beginning ++ rest) = false := by
  have starts : (reservedBeginnings.any fun b => Text.startsWith b (beginning ++ rest)) = true :=
    List.any_eq_true.mpr ⟨beginning, known, startsWith_append beginning rest⟩
  simp [isValid, starts]

theorem isValid_of_isValidField (valid : isValidField name = true) : isValid name = true :=
  (Bool.and_eq_true_iff.mp valid).1

theorem hasDoubleUnderscore_of_isValidField (valid : isValidField name = true) :
    hasDoubleUnderscore name.toList = false := by
  simpa using (Bool.and_eq_true_iff.mp valid).2

/-- Text with no underscore at all. -/
theorem hasDoubleUnderscore_of_absent : ∀ {cs : List Char}, '_' ∉ cs →
    hasDoubleUnderscore cs = false
  | [], _ => rfl
  | c :: rest, absent => by
    have apart : c ≠ '_' := fun same => absent (same ▸ List.mem_cons_self)
    have others := hasDoubleUnderscore_of_absent fun inside => absent (List.mem_cons_of_mem c inside)
    unfold hasDoubleUnderscore
    split
    · rename_i same
      exact absurd (List.cons.inj same).1 apart
    · rename_i same
      exact (List.cons.inj same).2 ▸ others
    · rfl

end Name

namespace Target

theorem tempName_injective (same : tempName n = tempName m) : n = m := by
  have letters := congrArg String.toList same
  simp only [tempName, String.toList_append] at letters
  have digits := congrArg (fun ds => Nat.ofDigitChars 10 ds 0) (List.append_cancel_left letters)
  simpa [Nat.toString_eq_repr, Nat.toList_repr] using digits

theorem not_isValid_tempName (n) : Name.isValid (tempName n) = false :=
  Name.not_isValid_of_beginning (by decide) _

theorem hasDoubleUnderscore_tempName (n) :
    Name.hasDoubleUnderscore (tempName n).toList = false := by
  have absent : '_' ∉ (toString n).toList := by
    intro member
    rw [Nat.toString_eq_repr, Nat.toList_repr] at member
    exact absurd (Nat.isDigit_of_mem_toDigits (by decide) (by decide) member) (by decide)
  have rest := Name.hasDoubleUnderscore_of_absent absent
  rw [tempName, String.toList_append]
  simpa [Name.hasDoubleUnderscore] using rest

theorem hasDoubleUnderscore_helperName (stem method) :
    Name.hasDoubleUnderscore (helperName stem method).toList = true := by
  rw [helperName, String.toList_append, String.toList_append, List.append_assoc]
  exact hasDoubleUnderscore_append stem.toList method.toList

theorem hasDoubleUnderscore_lengthName (array) :
    Name.hasDoubleUnderscore (lengthName array).toList = true := by
  rw [lengthName, String.toList_append]
  exact hasDoubleUnderscore_append array.toList _

theorem helperName_injective (same : helperName stem a = helperName stem b) : a = b := by
  have letters := congrArg String.toList same
  simp only [helperName, String.toList_append] at letters
  exact String.toList_inj.mp (List.append_cancel_left letters)

theorem tempName_ne_lengthName (n array) : tempName n ≠ lengthName array := by
  intro same
  have joined := hasDoubleUnderscore_lengthName array
  rw [← same, hasDoubleUnderscore_tempName] at joined
  cases joined

end Target

end GridKernel
