/-!
# Checks that succeed

A chain of checks succeeds exactly if each of them does, with the results that the next ones use. It
fails with the fault of the first one that fails.
-/

namespace GridKernel.Outcome

variable {ε ε' α β : Type}

variable {x : Except ε α} {f : α → Except ε β}

theorem bind_eq_ok : (x >>= f) = .ok b ↔ ∃ a, x = .ok a ∧ f a = .ok b := by
  cases x with
  | error e => exact ⟨nofun, fun ⟨_, failed, _⟩ => nomatch failed⟩
  | ok a =>
    refine ⟨fun h => ⟨a, rfl, h⟩, ?_⟩
    rintro ⟨a', succeeded, h⟩
    cases succeeded
    exact h

theorem bind_eq_error : (x >>= f) = .error e ↔ x = .error e ∨ ∃ a, x = .ok a ∧ f a = .error e := by
  cases x with
  | error e' =>
    refine ⟨fun h => .inl (congrArg Except.error (Except.error.inj h)), ?_⟩
    rintro (failed | ⟨_, succeeded, -⟩)
    · exact congrArg Except.error (Except.error.inj failed)
    · cases succeeded
  | ok a =>
    refine ⟨fun h => .inr ⟨a, rfl, h⟩, ?_⟩
    rintro (failed | ⟨_, succeeded, h⟩)
    · cases failed
    · cases succeeded
      exact h

theorem pure_eq_ok : (pure a : Except ε α) = .ok b ↔ a = b :=
  ⟨Except.ok.inj, congrArg Except.ok⟩

theorem mapError_eq_ok : x.mapError g = .ok a ↔ x = .ok a := by
  cases x with
  | error e => exact ⟨nofun, nofun⟩
  | ok a' => exact ⟨fun h => congrArg Except.ok (Except.ok.inj h), fun h => h ▸ rfl⟩

theorem mapError_eq_error {g : ε → ε'} {e : ε'} :
    x.mapError g = .error e ↔ ∃ e', x = .error e' ∧ g e' = e := by
  cases x with
  | error e' =>
    refine ⟨fun h => ⟨e', rfl, Except.error.inj h⟩, ?_⟩
    rintro ⟨_, same, rfl⟩
    cases same
    rfl
  | ok a =>
    constructor
    · intro h
      cases h
    · rintro ⟨_, other, -⟩
      cases other

/-- A condition that is checked before something else. -/
theorem ite_eq_ok [Decidable p] : (if p then x else .error e) = .ok a ↔ p ∧ x = .ok a := by
  by_cases h : p <;> simp [h]

theorem ite_error_eq_ok [Decidable p] : (if p then .error e else x) = .ok a ↔ ¬p ∧ x = .ok a := by
  by_cases h : p <;> simp [h]

variable {l : List α}

theorem forM_eq_ok {f : α → Except ε Unit} (h : l.forM f = .ok ()) (member : a ∈ l) :
    f a = .ok () := by
  induction member with
  | head rest =>
    obtain ⟨⟨⟩, first, -⟩ := bind_eq_ok.mp h
    exact first
  | tail b _ ih =>
    obtain ⟨-, -, others⟩ := bind_eq_ok.mp h
    exact ih others

/-- A check of each element fails at one of them. -/
theorem forM_eq_error {f : α → Except ε Unit} (h : l.forM f = .error e) :
    ∃ a ∈ l, f a = .error e := by
  induction l with
  | nil => cases h
  | cons a rest ih =>
    rcases bind_eq_error.mp h with first | ⟨-, -, others⟩
    · exact ⟨a, List.mem_cons_self, first⟩
    · obtain ⟨b, member, failed⟩ := ih others
      exact ⟨b, List.mem_cons_of_mem a member, failed⟩

/-- The results of a check of each element, in order. -/
theorem mapM_eq_ok (h : l.mapM f = .ok r) :
    r.length = l.length ∧ ∀ {i : Nat} {a : α}, l[i]? = some a → ∃ b, r[i]? = some b ∧ f a = .ok b := by
  induction l generalizing r with
  | nil =>
    obtain rfl := pure_eq_ok.mp h
    exact ⟨rfl, nofun⟩
  | cons a rest ih =>
    rw [List.mapM_cons] at h
    obtain ⟨b, first, h⟩ := bind_eq_ok.mp h
    obtain ⟨bs, others, h⟩ := bind_eq_ok.mp h
    obtain rfl := pure_eq_ok.mp h
    obtain ⟨length, each⟩ := ih others
    refine ⟨by simp [length], ?_⟩
    intro i a' found
    cases i with
    | zero =>
      cases found
      exact ⟨b, rfl, first⟩
    | succ i => exact each found

theorem mapM_of_each (each : ∀ a ∈ l, ∃ b, f a = .ok b) : ∃ r, l.mapM f = .ok r := by
  induction l with
  | nil => exact ⟨[], rfl⟩
  | cons a rest ih =>
    obtain ⟨b, first⟩ := each a List.mem_cons_self
    obtain ⟨bs, others⟩ := ih fun a' member => each a' (List.mem_cons_of_mem a member)
    refine ⟨b :: bs, ?_⟩
    rw [List.mapM_cons, first, others]
    rfl

end GridKernel.Outcome
