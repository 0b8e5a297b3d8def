import GridKernel.Lang.Name
import GridKernel.Lang.Value
import Mathlib

/-!
# Identifiers in a text

`identifiers` cuts a text where no letter, digit or underscore stands, and keeps the pieces that do
not start with a digit. Numerals of OpenCL C have no identifiers in them.
-/

namespace GridKernel.Target

open List

/-- The longest runs of letters, digits and underscores that do not start with a digit. -/
def identifiers (cs : List Char) : List String :=
  ((cs.splitOnP (!Name.isTail ·)).filter (·.head?.any Name.isHead)).map String.ofList

theorem identifiers_nil : identifiers [] = [] := rfl

theorem identifiers_append_cons (cs rest) (mark : Name.isTail c = false) :
    identifiers (cs ++ c :: rest) = identifiers cs ++ identifiers rest := by
  have separates : (fun x => !Name.isTail x) c = true := by simp [mark]
  rw [identifiers, splitOnP_append_cons cs rest separates, filter_append, map_append]
  rfl

theorem identifiers_cons (rest) (mark : Name.isTail c = false) :
    identifiers (c :: rest) = identifiers rest :=
  identifiers_append_cons [] rest mark

theorem identifiers_marks_append (h : ∀ c ∈ marks, Name.isTail c = false) (rest) :
    identifiers (marks ++ rest) = identifiers rest := by
  induction marks with
  | nil => rfl
  | cons c others ih =>
    rw [cons_append, identifiers_cons _ (h c mem_cons_self)]
    exact ih fun c inside => h c (mem_cons_of_mem _ inside)

theorem identifiers_append (h : ∀ c ∈ rest.head?, Name.isTail c = false) (cs) :
    identifiers (cs ++ rest) = identifiers cs ++ identifiers rest := by
  cases rest with
  | nil => simp [identifiers_nil]
  | cons c others =>
    have mark := h c rfl
    rw [identifiers_append_cons cs others mark, identifiers_cons others mark]

theorem identifiers_run (h : ∀ c ∈ cs, Name.isTail c = true) :
    identifiers cs = if cs.head?.any Name.isHead then [String.ofList cs] else [] := by
  have whole : cs.splitOnP (!Name.isTail ·) = [cs] :=
    splitOnP_eq_singleton fun c inside => by simp [h c inside]
  rw [identifiers, whole]
  cases starts : cs.head?.any Name.isHead with
  | false | true => simp [starts]

theorem isTail_of_isHead (head : Name.isHead c = true) : Name.isTail c = true := by
  simp only [Name.isHead, Name.isTail, Char.isAlphanum, Bool.or_eq_true] at head ⊢
  exact head.imp_left .inl

/-- An identifier is the one identifier in itself. -/
theorem identifiers_of_isIdentifier (h : Name.isIdentifier name = true) :
    identifiers name.toList = [name] := by
  rw [Name.isIdentifier] at h
  split at h
  · cases h
  · rename_i c rest spelled
    obtain ⟨head, tail⟩ := Bool.and_eq_true_iff.mp h
    have run : ∀ x ∈ name.toList, Name.isTail x = true := by
      rw [spelled]
      exact forall_mem_cons.mpr ⟨isTail_of_isHead head, all_eq_true.mp tail⟩
    have starts : name.toList.head?.any Name.isHead = true := by simpa [spelled] using head
    rw [identifiers_run run, if_pos starts, String.ofList_toList]

/-! ## Numerals -/

theorem isHead_of_isDigit (digit : c.isDigit = true) : Name.isHead c = false := by
  by_contra head
  simp only [Name.isHead, Char.isAlpha, Char.isUpper, Char.isLower, Char.isDigit, Bool.or_eq_true,
    Bool.and_eq_true, decide_eq_true_eq, UInt32.le_iff_toNat_le, ge_iff_le, Bool.not_eq_false]
    at digit head
  have last : '9'.val.toNat = 57 := rfl
  have upper : 'A'.val.toNat = 65 := rfl
  have lower : 'a'.val.toNat = 97 := rfl
  rcases head with (capital | small) | rfl
  · omega
  · omega
  · exact absurd digit.2 (by decide)

theorem isTail_of_isDigit (digit : c.isDigit = true) : Name.isTail c = true := by
  simp [Name.isTail, Char.isAlphanum, digit]

/-- A run that starts with a digit. -/
theorem identifiers_digits (digits : ∀ c ∈ ds, c.isDigit = true)
    (tail : ∀ c ∈ rest, Name.isTail c = true) (filled : ds = [] → rest = []) :
    identifiers (ds ++ rest) = [] := by
  cases ds with
  | nil =>
    rw [filled rfl]
    rfl
  | cons d others =>
    have run : ∀ c ∈ d :: others ++ rest, Name.isTail c = true :=
      forall_mem_append.mpr ⟨fun c inside => isTail_of_isDigit (digits c inside), tail⟩
    rw [identifiers_run run]
    simp [isHead_of_isDigit (digits d mem_cons_self)]

theorem isDigit_of_mem_toString {n : Nat} (member : c ∈ (toString n).toList) :
    c.isDigit = true := by
  rw [Nat.toString_eq_repr, Nat.toList_repr] at member
  exact Nat.isDigit_of_mem_toDigits (by decide) (by decide) member

theorem identifiers_nat (n : Nat) (tail : ∀ c ∈ suffix, Name.isTail c = true) :
    identifiers ((toString n).toList ++ suffix) = [] := by
  refine identifiers_digits (fun c member => isDigit_of_mem_toString member) tail fun none => ?_
  rw [Nat.toString_eq_repr, Nat.toList_repr] at none
  exact absurd none Nat.toDigits_ne_nil

theorem identifiers_int (i : Int) (tail : ∀ c ∈ suffix, Name.isTail c = true) :
    identifiers ((toString i).toList ++ suffix) = [] := by
  cases i with
  | ofNat n => exact identifiers_nat n tail
  | negSucc n =>
    have minus : (toString (Int.negSucc n)).toList = '-' :: (toString (n + 1)).toList := by
      have spelled : toString (Int.negSucc n) = "-" ++ toString (n + 1) := rfl
      rw [spelled, String.toList_append]
      rfl
    rw [minus, cons_append, identifiers_cons _ (by decide)]
    exact identifiers_nat (n + 1) tail

theorem positional_digits (d : Number.Decimal) :
    (∀ c ∈ d.positional.1, c.isDigit = true) ∧ ∀ c ∈ d.positional.2, c.isDigit = true := by
  have digits : ∀ c ∈ Number.digitsOf d.digits, c.isDigit = true := fun c member =>
    Nat.isDigit_of_mem_toDigits (by decide) (by decide) member
  have zeros : ∀ n, ∀ c ∈ List.replicate n '0', c.isDigit = true := by
    intro n c member
    rw [eq_of_mem_replicate member]
    rfl
  unfold Number.Decimal.positional
  split
  · exact ⟨forall_mem_append.mpr ⟨digits, zeros _⟩, forall_mem_nil _⟩
  · dsimp only
    split
    · exact ⟨fun c member => digits c (mem_of_mem_take member),
        fun c member => digits c (mem_of_mem_drop member)⟩
    · exact ⟨forall_mem_singleton.mpr rfl, forall_mem_append.mpr ⟨zeros _, digits⟩⟩

theorem identifiers_point (before : ∀ c ∈ whole, c.isDigit = true)
    (after : ∀ c ∈ fraction, c.isDigit = true) (filled : fraction ≠ [])
    (tail : ∀ c ∈ suffix, Name.isTail c = true) :
    identifiers (whole ++ '.' :: (fraction ++ suffix)) = [] := by
  have first : identifiers whole = [] := by
    have alone := identifiers_digits before (forall_mem_nil _) fun _ => rfl
    rwa [append_nil] at alone
  have second := identifiers_digits after tail fun none => absurd none filled
  rw [identifiers_append_cons _ _ (by decide), first, second]
  rfl

/-- There is always a digit before the suffix, since a point and a zero are added where there is no
point. -/
theorem identifiers_floating (negative m q narrow) {suffix : String}
    (tail : ∀ c ∈ suffix.toList, Name.isTail c = true) :
    identifiers (Value.clFloating (.finite negative m q narrow) suffix).toList = [] := by
  obtain ⟨before, after⟩ := positional_digits (Number.shortest .up m q narrow)
  have spelled : Value.clFloating (.finite negative m q narrow) suffix =
      Number.plainDigits negative m q narrow
        ++ (if (Number.plainDigits negative m q narrow).toList.contains '.' then "" else ".0")
        ++ suffix := rfl
  rw [spelled, Number.plainDigits]
  generalize (Number.shortest .up m q narrow).positional = parts at before after ⊢
  obtain ⟨whole, fraction⟩ := parts
  have sign : ∀ c ∈ (if negative then ['-'] else []), Name.isTail c = false := by
    cases negative with
    | false => exact forall_mem_nil _
    | true => exact forall_mem_singleton.mpr (by decide)
  cases fraction with
  | nil =>
    have absent : '.' ∉ (if negative then ['-'] else []) ++ whole := by
      intro member
      rcases mem_append.mp member with front | inside
      · cases negative <;> simp at front
      · exact absurd (before '.' inside) (by decide)
    have zero : ∀ c ∈ ['0'], c.isDigit = true := forall_mem_singleton.mpr (by decide)
    have digits := identifiers_point before zero (cons_ne_nil _ _) tail
    have letters := identifiers_marks_append sign (whole ++ '.' :: (['0'] ++ suffix.toList))
    rw [digits] at letters
    simpa [absent] using letters
  | cons c rest =>
    have digits := identifiers_point before after (cons_ne_nil _ _) tail
    have letters := identifiers_marks_append sign (whole ++ '.' :: (c :: rest ++ suffix.toList))
    rw [digits] at letters
    simpa using letters

end GridKernel.Target
