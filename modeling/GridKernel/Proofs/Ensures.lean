/-!
# What a computation ensures

`Ensures x s done stopped` says how a computation can end from the state `s`: with a result and a
state that satisfy `done`, or early with a reason and a state that satisfy `stopped`. The rules
below follow the way computations are put together, so that a statement about a long one is proved
one operation at a time.
-/

namespace GridKernel

variable {ε σ α β : Type} {s : σ} {done : α → σ → Prop} {stopped : ε → σ → Prop}

def Ensures (x : EStateM ε σ α) (s : σ) (done : α → σ → Prop) (stopped : ε → σ → Prop) : Prop :=
  match x s with
  | .ok a after => done a after
  | .error reason after => stopped reason after

variable {x : EStateM ε σ α} {after : σ}

namespace Ensures

theorem of_ok (h : Ensures x s done stopped) (ended : x s = .ok a after) : done a after := by
  simpa only [Ensures, ended] using h

theorem of_error (h : Ensures x s done stopped) (ended : x s = .error reason after) :
    stopped reason after := by
  simpa only [Ensures, ended] using h

theorem ended (ended : x s = .ok a after) (h : done a after) : Ensures x s done stopped := by
  simpa only [Ensures, ended] using h

/-- Both predicates can be weakened. -/
theorem imp (h : Ensures x s done stopped) (result : ∀ a after, done a after → done' a after)
    (early : ∀ reason after, stopped reason after → stopped' reason after) :
    Ensures x s done' stopped' := by
  unfold Ensures at h ⊢
  cases ended : x s with
  | ok a after =>
    rw [ended] at h
    exact result a after h
  | error reason after =>
    rw [ended] at h
    exact early reason after h

theorem mono (h : Ensures x s done stopped) (result : ∀ a after, done a after → done' a after) :
    Ensures x s done' stopped :=
  h.imp result fun _ _ early => early

theorem anything (x : EStateM ε σ α) (s : σ) :
    Ensures x s (fun _ _ => True) fun _ _ => True := by
  unfold Ensures
  cases x s <;> trivial

/-- Two statements about one computation. -/
theorem both (h : Ensures x s done stopped) (h' : Ensures x s done' stopped') :
    Ensures x s (fun a after => done a after ∧ done' a after) stopped := by
  unfold Ensures at h h' ⊢
  cases ended : x s with
  | ok a after =>
    rw [ended] at h h'
    exact ⟨h, h'⟩
  | error reason after =>
    rw [ended] at h
    exact h

/-- A second computation starts from the result and the state in which the first one ended. -/
theorem andThenOf {done' : β → σ → Prop} (h : Ensures x s done stopped)
    (next : ∀ a after, x s = .ok a after → done a after → Ensures (f a) after done' stopped) :
    Ensures (x >>= f) s done' stopped := by
  change Ensures (EStateM.bind x f) s done' stopped
  unfold Ensures at h ⊢
  unfold EStateM.bind
  cases ended : x s with
  | ok a after =>
    rw [ended] at h
    exact next a after ended h
  | error reason after =>
    rw [ended] at h
    exact h

theorem andThen {done' : β → σ → Prop} (h : Ensures x s done stopped)
    (next : ∀ a after, done a after → Ensures (f a) after done' stopped) :
    Ensures (x >>= f) s done' stopped :=
  h.andThenOf fun a after _ => next a after

/-- What a computation ensures, its first part leaves to the second one. -/
theorem parts {done' : β → σ → Prop} (h : Ensures (x >>= f) s done' stopped) :
    Ensures x s (fun a after => Ensures (f a) after done' stopped) stopped := by
  change Ensures (EStateM.bind x f) s done' stopped at h
  unfold Ensures EStateM.bind at h
  unfold Ensures
  cases ended : x s with
  | ok a after | error reason after =>
    rw [ended] at h
    exact h

theorem ret (h : done a s) : Ensures (pure a : EStateM ε σ α) s done stopped := h

theorem thrown (h : stopped reason s) : Ensures (throw reason : EStateM ε σ α) s done stopped := h

/-- A computation that looks at the state first. -/
theorem fromState {f : σ → EStateM ε σ α} (h : Ensures (f s) s done stopped) :
    Ensures (get >>= f) s done stopped := h

theorem modified {f : σ → σ} {done : Unit → σ → Prop} (h : done () (f s)) :
    Ensures (modify f : EStateM ε σ Unit) s done stopped := h

/-- A computation that changes the state first. -/
theorem changed {f : σ → σ} {k : Unit → EStateM ε σ α} (h : Ensures (k ()) (f s) done stopped) :
    Ensures (modify f >>= k) s done stopped := h

end Ensures

theorem get_bind (f : σ → EStateM ε σ α) (s : σ) : (get >>= f) s = f s s := rfl

/-- After a part that ended well, the next one goes on from there. -/
theorem bind_of_ok (h : x s = .ok a after) : (x >>= f) s = f a after := by
  change EStateM.bind x f s = _
  unfold EStateM.bind
  rw [h]

theorem bind_of_error (h : x s = .error reason after) (f : α → EStateM ε σ β) :
    (x >>= f) s = .error reason after := by
  change EStateM.bind x f s = _
  unfold EStateM.bind
  rw [h]

/-- A computation that ended well went through each of its parts. -/
theorem bind_ok (h : (x >>= f) s = .ok b after) :
    ∃ a mid, x s = .ok a mid ∧ f a mid = .ok b after := by
  change EStateM.bind x f s = .ok b after at h
  unfold EStateM.bind at h
  cases ended : x s with
  | ok a mid =>
    rw [ended] at h
    exact ⟨a, mid, rfl, h⟩
  | error reason mid =>
    rw [ended] at h
    cases h

end GridKernel
