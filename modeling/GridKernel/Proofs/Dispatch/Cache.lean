import GridKernel.Proofs.Device.Programs
import GridKernel.Proofs.Dispatch.Fallback

/-!
# The programs of a dispatcher

A dispatcher has one program for each text that was built. What an instance does with the
accelerator concerns the program of its own text: the others keep their numbers and their memory.
-/

namespace GridKernel

variable {σ α : Type} {acc : Accelerator σ}

namespace Dispatcher

/-- What the instances of a dispatcher cannot change. -/
def settings (d : Dispatcher σ) : Config × Option (Accelerator σ) × Host :=
  (d.config, d.accelerator, d.host)

/-- The program for a text, if it was built. -/
def held (model : ProgramModel acc) (d : Dispatcher σ) (text : String) :
    Option (model.Code × DeviceMemory) :=
  (d.programs.lookup text).bind (model.program? d.device)

/-- The accelerator has a program for each text that was built, and a different one for each. -/
structure Cached (model : ProgramModel acc) (d : Dispatcher σ) : Prop where
  accelerator : ∀ a, d.accelerator = some a → a = acc
  sound : model.Sound d.device
  built : ∀ {text id}, d.programs.lookup text = some id →
    ∃ code mem, model.program? d.device id = some (code, mem) ∧ model.build text = .ok code
  apart : ∀ {text text' id}, d.programs.lookup text = some id →
    d.programs.lookup text' = some id → text = text'

/-- What calls of an instance of a kernel do to the dispatcher. -/
structure Ahead (model : ProgramModel acc) (kernel : Descriptor) (d e : Dispatcher σ) : Prop where
  settings : e.settings = d.settings
  cached : e.Cached model
  kept : ∀ {text id}, d.programs.lookup text = some id → e.programs.lookup text = some id
  /-- Other texts than the kernel's. -/
  others : ∀ {text}, (∀ source, kernel.compile = .ok source → source.text ≠ text) →
    e.programs.lookup text = d.programs.lookup text ∧ e.held model text = d.held model text

variable {model : ProgramModel acc} {d : Dispatcher σ} {source : Source}

/-- Reports have nothing to do with programs. -/
theorem Cached.notify (cached : d.Cached model) (r) : (d.notify r).Cached model :=
  ⟨cached.accelerator, cached.sound, cached.built, cached.apart⟩

namespace Ahead

theorem refl (kernel) (cached : d.Cached model) : Ahead model kernel d d :=
  ⟨rfl, cached, fun found => found, fun _ => ⟨rfl, rfl⟩⟩

theorem trans (first : Ahead model kernel d e) (second : Ahead model kernel e f) :
    Ahead model kernel d f where
  settings := second.settings.trans first.settings
  cached := second.cached
  kept found := second.kept (first.kept found)
  others other := ⟨(second.others other).1.trans (first.others other).1,
    (second.others other).2.trans (first.others other).2⟩

theorem notify (ahead : Ahead model kernel d e) (r) : Ahead model kernel d (e.notify r) :=
  ⟨ahead.settings, ahead.cached.notify r, ahead.kept, ahead.others⟩

end Ahead

namespace Cached

theorem held_of_lookup (cached : d.Cached model) {id : ProgramId}
    (found : d.programs.lookup text = some id) :
    ∃ code mem, model.program? d.device id = some (code, mem) ∧ model.build text = .ok code ∧
      d.held model text = some (code, mem) := by
  obtain ⟨code, mem, program, built⟩ := cached.built found
  exact ⟨code, mem, program, built, by rw [held, found, Option.bind_some, program]⟩

theorem held_eq_none (missing : d.programs.lookup source.text = none) :
    d.held model source.text = none := by rw [held, missing]; rfl

/-- An operation on the program of the kernel. -/
theorem acted (cached : d.Cached model) (emits : kernel.compile = .ok source) {id : ProgramId}
    (found : d.programs.lookup source.text = some id) (acts : model.Acts op act)
    (program : model.program? d.device id = some (code, mem)) :
    Ahead model kernel d { d with device := (op id d.device).2 } ∧
      held model { d with device := (op id d.device).2 } source.text =
        some (code, (act code mem).2) := by
  obtain ⟨-, sound, programs⟩ := acts cached.sound program
  have here : model.program? (op id d.device).2 id = some (code, (act code mem).2) := by
    rw [programs, Function.update_self]
  have elsewhere : ∀ {id'}, id' ≠ id →
      model.program? (op id d.device).2 id' = model.program? d.device id' := fun other => by
    rw [programs, Function.update_of_ne other]
  refine ⟨⟨rfl, ⟨cached.accelerator, sound, ?_, cached.apart⟩, fun found => found, ?_⟩, ?_⟩
  · intro text id' found'
    obtain ⟨code', mem', program', built⟩ := cached.built found'
    by_cases same : id' = id
    · subst same
      rw [program] at program'
      cases program'
      exact ⟨code, _, here, built⟩
    · exact ⟨code', mem', (elsewhere same).trans program', built⟩
  · intro text other
    refine ⟨rfl, ?_⟩
    change (d.programs.lookup text).bind _ = (d.programs.lookup text).bind _
    cases found' : d.programs.lookup text with
    | none => rfl
    | some id' =>
      refine elsewhere fun same => ?_
      subst same
      exact other source emits (cached.apart found found')
  · change (d.programs.lookup source.text).bind _ = _
    rw [found]
    exact here

/-- A text that is refused changes nothing for the programs that are there. -/
theorem refused (cached : d.Cached model) (refused : model.build source.text = .error reason)
    (kernel) : Ahead model kernel d { d with device := (acc.build source d.device).2 } := by
  obtain ⟨-, sound, programs⟩ := model.refuses cached.sound refused
  refine ⟨rfl, ⟨cached.accelerator, sound, fun found => ?_, cached.apart⟩, fun found => found,
    fun other => ⟨rfl, ?_⟩⟩
  · obtain ⟨code, mem, program, built⟩ := cached.built found
    exact ⟨code, mem, (congrFun programs _).trans program, built⟩
  · simp only [held, programs]

/-- A text is the new one, or it had its program before. -/
theorem lookup_cons_cases {id id' : ProgramId} {programs : List (String × ProgramId)}
    (found : ((new, id) :: programs).lookup text = some id') :
    text = new ∧ id' = id ∨ programs.lookup text = some id' := by
  by_cases same : text = new
  · subst same
    rw [List.lookup_cons_self] at found
    exact .inl ⟨rfl, (Option.some.inj found).symm⟩
  · rw [List.lookup_cons, beq_false_of_ne same] at found
    exact .inr found

/-- A text that is accepted gets a program of its own. -/
theorem added (cached : d.Cached model) (emits : kernel.compile = .ok source)
    (missing : d.programs.lookup source.text = none)
    (accepted : model.build source.text = .ok code) :
    ∃ id, (acc.build source d.device).1 = .ok id ∧
      let e := { d with
        device := (acc.build source d.device).2, programs := (source.text, id) :: d.programs }
      Ahead model kernel d e ∧ e.programs.lookup source.text = some id ∧
        e.held model source.text = some (code, fun _ => none) := by
  obtain ⟨id, answer, sound, unused, programs⟩ := model.builds cached.sound accepted
  have here : model.program? (acc.build source d.device).2 id = some (code, fun _ => none) := by
    rw [programs, Function.update_self]
  -- A program that was there before has another number, and stays.
  have used : ∀ {text id'}, d.programs.lookup text = some id' → id' ≠ id := by
    rintro text _ found rfl
    obtain ⟨code, mem, program, -⟩ := cached.built found
    rw [unused] at program
    cases program
  have stays : ∀ {text id'}, d.programs.lookup text = some id' →
      model.program? (acc.build source d.device).2 id' = model.program? d.device id' := by
    intro text id' found
    rw [programs, Function.update_of_ne (used found)]
  have elsewhere : ∀ {text}, text ≠ source.text →
      ((source.text, id) :: d.programs).lookup text = d.programs.lookup text := fun other => by
    rw [List.lookup_cons, beq_false_of_ne other]
  refine ⟨id, answer, ⟨rfl, ⟨cached.accelerator, sound, ?_, ?_⟩, ?_, ?_⟩, List.lookup_cons_self, ?_⟩
  · intro text id' found
    rcases lookup_cons_cases found with ⟨rfl, rfl⟩ | earlier
    · exact ⟨code, _, here, accepted⟩
    · obtain ⟨code', mem, program, built⟩ := cached.built earlier
      exact ⟨code', mem, (stays earlier).trans program, built⟩
  · intro text text' id' found found'
    rcases lookup_cons_cases found with ⟨rfl, rfl⟩ | earlier
    · rcases lookup_cons_cases found' with ⟨rfl, -⟩ | earlier'
      · rfl
      · exact absurd rfl (used earlier')
    · rcases lookup_cons_cases found' with ⟨-, rfl⟩ | earlier'
      · exact absurd rfl (used earlier)
      · exact cached.apart earlier earlier'
  · intro text id' found
    have other : text ≠ source.text := fun same => by
      rw [same, missing] at found
      cases found
    exact (elsewhere other).trans found
  · intro text other
    have apart : text ≠ source.text := fun same => other source emits same.symm
    refine ⟨elsewhere apart, ?_⟩
    simp only [held, elsewhere apart]
    cases found : d.programs.lookup text with
    | none => rfl
    | some id' => exact stays found
  · simp only [held, List.lookup_cons_self, Option.bind_some, here]

end Cached

end Dispatcher

end GridKernel
