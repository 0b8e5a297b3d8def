import GridKernel.Proofs.Dispatch.LifeCycle

/-!
# The numbers of passes

An execution reads the number of its pass after it has taken the instance, and counts its pass after
it has given the instance back. In between another execution can take the instance and read the same
number. The number is that of the passes counted before it was read, so two executions share one
only if each of them read it before the other one counted its pass.
-/

namespace GridKernel.Concurrent

open GridKernel.Action List

variable {σ ι : Type}

/-- The number is that of the passes counted before it was read. -/
structure Ticket.Exact (n : Ticket) (counts : List Nat) (now : Nat) : Prop where
  past : n.readAt < now
  /-- The step that read it counted no pass. -/
  apart : n.readAt ∉ counts
  passId : n.passId = .ofNat (counts.countP (· < n.readAt))

/-- The steps that counted a pass, after one more step. -/
def countsAfter (counts : List Nat) (now : Nat) (p : Progress) : List Nat :=
  if p.isCounted then counts ++ [now] else counts

variable {counts : List Nat} {now time : Nat}

theorem mem_countsAfter (p) (member : time ∈ counts) : time ∈ countsAfter counts now p := by
  unfold countsAfter
  split
  · exact mem_append_left _ member
  · exact member

/-- A pass that is counted later is not among those before. -/
theorem countP_countsAfter (p) (past : time ≤ now) :
    (countsAfter counts now p).countP (· < time) = counts.countP (· < time) := by
  unfold countsAfter
  split
  · have later : ¬now < time := Nat.not_lt.mpr past
    simp [countP_append, later]
  · rfl

theorem Ticket.Exact.later {n : Ticket} (h : n.Exact counts now) (p) :
    n.Exact (countsAfter counts now p) (now + 1) where
  past := Nat.lt_succ_of_lt h.past
  apart member := by
    unfold countsAfter at member
    split at member
    · rcases mem_append.mp member with earlier | last
      · exact h.apart earlier
      · exact absurd (mem_singleton.mp last) (Nat.ne_of_lt h.past)
    · exact h.apart member
  passId := by
    rw [countP_countsAfter p (Nat.le_of_lt h.past)]
    exact h.passId

/-- An execution has counted its pass after reading its number. -/
structure Ticket.Passed (n : Ticket) (counts : List Nat) (now countedAt : Nat) : Prop
    extends n.Exact counts now where
  after : n.readAt < countedAt
  counted : countedAt ∈ counts

theorem Ticket.Passed.later {n : Ticket} {countedAt : Nat} (h : n.Passed counts now countedAt) (p) :
    n.Passed (countsAfter counts now p) (now + 1) countedAt :=
  ⟨h.toExact.later p, h.after, mem_countsAfter p h.counted⟩

/-- What is known about the number that an execution has read. -/
def Stage.Sound (counts : List Nat) (now : Nat) : Stage → Prop
  | taken _ => True
  | numbered _ n | failed _ n | retrying _ n _ | ran _ n _ | released _ n _ => n.Exact counts now
  | counted _ n _ countedAt => n.Passed counts now countedAt

/-- What is known about the number that an execution ran with. -/
def Reply.Sound (counts : List Nat) (now : Nat) : Reply → Prop
  | executed report readAt countedAt =>
    Ticket.Passed ⟨report.passId, readAt⟩ counts now countedAt
  | compiled _ | failed _ => True

theorem Stage.Sound.later {st : Stage} (h : st.Sound counts now) (p) :
    st.Sound (countsAfter counts now p) (now + 1) := by
  cases st with
  | taken => trivial
  | numbered | failed | retrying | ran | released => exact Ticket.Exact.later h p
  | counted => exact Ticket.Passed.later h p

theorem Reply.Sound.later {reply : Reply} (h : reply.Sound counts now) (p) :
    reply.Sound (countsAfter counts now p) (now + 1) := by
  cases reply with
  | executed => exact Ticket.Passed.later h p
  | compiled | failed => trivial

def Progress.Sound (counts : List Nat) (now : Nat) : Progress → Prop
  | goes st => st.Sound counts now
  | ends reply => reply.Sound counts now

theorem Progress.Sound.stage {p : Progress} {st : Stage} (h : p.Sound counts now)
    (goes : p.stage? = some st) : st.Sound counts now := by
  cases p with
  | goes st' =>
    cases goes
    exact h
  | ends => cases goes

theorem Progress.Sound.reply {p : Progress} {reply : Reply} (h : p.Sound counts now)
    (ends : p.reply? = some reply) : reply.Sound counts now := by
  cases p with
  | goes => cases ends
  | ends reply' =>
    cases ends
    exact h

/-- The number of the next pass, and of those that are under way and that have returned. -/
structure Numbers (v : View) (now : Nat) (counts : List Nat) (stage : ι → Option Stage)
    (replies : List (ι × Reply)) : Prop where
  next : v.kernel.passId = .ofNat counts.length
  past : ∀ time ∈ counts, time < now
  stages : ∀ t st, stage t = some st → st.Sound counts now
  replies : ∀ r ∈ replies, r.2.Sound counts now

namespace Numbers

variable {v : View} {counts : List Nat} {stage : ι → Option Stage} {replies : List (ι × Reply)}
  {t : ι}

theorem next_step (h : Numbers v now counts stage replies)
    (moved : Transition now (stage t) v p v') :
    v'.kernel.passId = .ofNat (countsAfter counts now p).length := by
  have next := h.next
  generalize stage t = at' at moved
  cases moved with
  | count v j n r =>
    change v.kernel.passId + 1 = .ofNat (counts ++ [now]).length
    rw [next, length_append]
    exact (Int32.ofNat_add _ 1).symm
  | refuse | known | compile | take | number | run | fail | giveUp | recompile | rerun | release
  | abandon | publish => exact next

/-- What is known about what a step leads to. -/
theorem progress_sound (h : Numbers v now counts stage replies)
    (moved : Transition now (stage t) v p v') : p.Sound (countsAfter counts now p) (now + 1) := by
  have stages := h.stages t
  generalize stage t = at' at moved stages
  cases moved with
  | refuse | known | compile | take | abandon => trivial
  | number v j =>
    -- all the passes counted so far were counted before this step
    have all : counts.countP (· < now) = counts.length :=
      countP_eq_length.mpr fun time member => decide_eq_true (h.past time member)
    exact ⟨Nat.lt_succ_self now, fun member => Nat.lt_irrefl now (h.past now member),
      h.next.trans (congrArg _ all.symm)⟩
  | run | fail | giveUp | recompile | rerun | release =>
    exact Ticket.Exact.later (stages _ rfl) _
  | count v j n r =>
    have read : n.Exact counts now := stages _ rfl
    exact ⟨read.later _, read.past, mem_append_right _ (mem_singleton_self now)⟩
  | publish v j n r countedAt => exact Ticket.Passed.later (stages _ rfl) _

theorem initial (unused : v.kernel.passId = 0) :
    Numbers v 0 [] (fun _ : ι => none) [] where
  next := unused
  past _ absent := absurd absent not_mem_nil
  stages _ _ absent := absurd absent.symm (Option.some_ne_none _)
  replies _ absent := absurd absent not_mem_nil

variable [DecidableEq ι]

theorem step (h : Numbers v now counts stage replies) (moved : Transition now (stage t) v p v') :
    Numbers v' (now + 1) (countsAfter counts now p) (Function.update stage t p.stage?)
      (replies ++ (p.reply?.map (t, ·)).toList) where
  next := h.next_step moved
  past time member := by
    unfold countsAfter at member
    split at member
    · rcases mem_append.mp member with earlier | last
      · exact Nat.lt_succ_of_lt (h.past time earlier)
      · rw [mem_singleton.mp last]
        exact Nat.lt_succ_self now
    · exact Nat.lt_succ_of_lt (h.past time member)
  stages t' st here := by
    by_cases same : t' = t
    · subst same
      rw [Function.update_self] at here
      exact (h.progress_sound moved).stage here
    · rw [Function.update_of_ne same] at here
      exact (h.stages t' st here).later p
  replies r member := by
    rcases mem_append.mp member with earlier | last
    · exact (h.replies r earlier).later p
    · obtain ⟨reply, ended, rfl⟩ := Option.map_eq_some_iff.mp (Option.mem_toList.mp last)
      exact (h.progress_sound moved).reply ended

end Numbers

/-! ## Reports -/

def Reply.report? : Reply → Option Report
  | executed report _ _ => some report
  | compiled _ | failed _ => none

/-- Observers have received the reports of the executions that returned, each of them once. -/
structure Reported (earlier : List Report) (observers : Nat) (v : View)
    (replies : List (ι × Reply)) : Prop where
  observed : v.observers = observers
  delivered : v.delivered =
    earlier ++ (replies.filterMap (·.2.report?)).flatMap (List.replicate observers)

theorem Reported.step {replies : List (ι × Reply)} (t : ι)
    (h : Reported earlier observers v replies) (moved : Transition now at' v p v') :
    Reported earlier observers v' (replies ++ (p.reply?.map (t, ·)).toList) := by
  obtain ⟨same, delivered⟩ := h
  cases moved with
  | publish v j n r countedAt =>
    refine ⟨same, ?_⟩
    change v.delivered ++ List.replicate v.observers _ = _
    rw [delivered, same, filterMap_append, flatMap_append, append_assoc]
    congr 2
    exact (append_nil _).symm
  | refuse | known | compile | take | number | run | fail | giveUp | recompile | rerun | release
  | abandon | count =>
    refine ⟨same, delivered.trans ?_⟩
    rw [filterMap_append]
    simp [Progress.reply?, Reply.report?]

/-! ## Runs -/

/-- Passes counted between two moments tell them apart. -/
theorem countP_lt_of_between (member : time ∈ counts) (after : first ≤ time)
    (before : time < last) : counts.countP (· < first) < counts.countP (· < last) := by
  induction counts with
  | nil => cases member
  | cons x rest ih =>
    have mono : rest.countP (· < first) ≤ rest.countP (· < last) :=
      countP_mono_left fun y _ earlier => by
        simp only [decide_eq_true_eq] at earlier ⊢
        omega
    simp only [countP_cons]
    rcases mem_cons.mp member with rfl | later
    · rw [if_pos (decide_eq_true before), if_neg (by simpa using after)]
      omega
    · have less := ih later
      grind

theorem ofNat_inj_of_lt (small : m < UInt32.size) (small' : n < UInt32.size)
    (same : Int32.ofNat m = Int32.ofNat n) : m = n := by
  have words := congrArg (fun x : Int32 => x.toBitVec.toNat) same
  simp only [Int32.toBitVec_ofNat', BitVec.toNat_ofNat] at words
  calc m = m % UInt32.size := (Nat.mod_eq_of_lt small).symm
    _ = n % UInt32.size := words
    _ = n := Nat.mod_eq_of_lt small'

namespace Threads

variable [DecidableEq ι]

theorem numbers (unused : i.kernel.passId = 0) (schedule : List (ι × Call)) :
    let s := (initial i : Threads σ ι).run schedule
    Numbers (view s.inst) s.time s.counts s.stage s.replies :=
  run_induction (P := fun s => Numbers (view s.inst) s.time s.counts s.stage s.replies)
    (s := initial i) (.initial unused)
    (fun s t c h => h.step (s.move_transition t c)) schedule

theorem reported (i : Instance σ) (schedule : List (ι × Call)) :
    let s := (initial i : Threads σ ι).run schedule
    Reported i.dispatcher.delivered i.dispatcher.observers (view s.inst) s.replies :=
  run_induction
    (P := fun s => Reported i.dispatcher.delivered i.dispatcher.observers (view s.inst) s.replies)
    (s := initial i) ⟨rfl, (append_nil _).symm⟩
    (fun s t c h => h.step t (s.move_transition t c)) schedule

end Threads

open Threads in
/-- Threads execute a new instance in any interleaving, and fewer passes are counted than a number
of 32 bits can tell apart. Every execution that succeeds runs with the number of the passes that
were counted before it read it. Two of them have the same number only if each read it before the
other one counted its pass, so that they overlapped. Every observer receives the report of each of
them once. -/
theorem pass_numbers_shared_only_by_overlap [DecidableEq ι] {i : Instance σ}
    (unused : i.kernel.passId = 0) (schedule : List (ι × Call))
    (few : ((initial i : Threads σ ι).run schedule).counts.length < UInt32.size) :
    let s := (initial i : Threads σ ι).run schedule
    (∀ t report readAt countedAt, (t, Reply.executed report readAt countedAt) ∈ s.replies →
      report.passId = .ofNat (s.counts.countP (· < readAt)) ∧ readAt < countedAt ∧
        countedAt ∈ s.counts) ∧
    (∀ t report readAt countedAt t' report' readAt' countedAt',
      (t, Reply.executed report readAt countedAt) ∈ s.replies →
      (t', Reply.executed report' readAt' countedAt') ∈ s.replies →
      report.passId = report'.passId → readAt < countedAt' ∧ readAt' < countedAt) ∧
    s.inst.dispatcher.delivered = i.dispatcher.delivered ++
      (s.replies.filterMap (·.2.report?)).flatMap (List.replicate i.dispatcher.observers) := by
  intro s
  have passed : ∀ {t report readAt countedAt},
      (t, Reply.executed report readAt countedAt) ∈ s.replies →
      Ticket.Passed ⟨report.passId, readAt⟩ s.counts s.time countedAt :=
    fun member => (numbers unused schedule).replies _ member
  have overlap : ∀ {t report readAt countedAt t' report' readAt' countedAt'},
      (t, Reply.executed report readAt countedAt) ∈ s.replies →
      (t', Reply.executed report' readAt' countedAt') ∈ s.replies →
      report.passId = report'.passId → readAt < countedAt' := by
    intro t report readAt countedAt t' report' readAt' countedAt' member member' same
    have mine := passed member
    have other := passed member'
    by_contra after
    have before : countedAt' < readAt :=
      Nat.lt_of_le_of_ne (Nat.not_lt.mp after) fun equal => mine.apart (equal ▸ other.counted)
    have less : s.counts.countP (· < readAt') < s.counts.countP (· < readAt) :=
      countP_lt_of_between other.counted (Nat.le_of_lt other.after) before
    have numbers := mine.passId.symm.trans (same.trans other.passId)
    have bound : ∀ time, s.counts.countP (· < time) < UInt32.size :=
      fun time => Nat.lt_of_le_of_lt countP_le_length few
    exact absurd (ofNat_inj_of_lt (bound _) (bound _) numbers) (Nat.ne_of_gt less)
  refine ⟨fun t report readAt countedAt member => ?_, ?_, (reported i schedule).delivered⟩
  · have mine := passed member
    exact ⟨mine.passId, mine.after, mine.counted⟩
  · intro t report readAt countedAt t' report' readAt' countedAt' member member' same
    exact ⟨overlap member member' same, overlap member' member same.symm⟩

/-- A new instance on the host, with observers. -/
def observedInstance (observers : Nat) : Instance Scripted where
  kernel := { pairOnHost.kernel with passId := 0 }
  dispatcher := { pairOnHost.dispatcher with observers := observers }
  memory := pairOnHost.memory

/-- Steps of executions of one work-item. -/
def executions (threads : List Bool) : List (Bool × Call) :=
  threads.map (·, .execute ⟨[1], none, Range.single_bounded⟩)

/-- The second thread takes the instance and reads the number of its pass after the first one has
given the instance back and before it has counted its pass. -/
def overlapping : List (Bool × Call) :=
  executions [false, false, false, false, true, true, true, true, false, false, true, true]

def overlapped (observers : Nat) (schedule : List (Bool × Call)) : Threads Scripted Bool :=
  (Threads.initial (observedInstance observers)).run schedule

/-- What a reply tells about the number of a pass: the number, and the steps that read it and
counted the pass. -/
def Reply.pass? : Reply → Option (Int32 × Nat × Nat)
  | executed report readAt countedAt => some (report.passId, readAt, countedAt)
  | compiled _ | failed _ => none

/-- Two executions succeed with the same number, and so do their reports. A second observer receives
the report of a single execution once more. -/
theorem overlapping_executions_share_number :
    (overlapped 1 overlapping).replies.map (fun r => (r.1, r.2.pass?.map (·.1))) =
        [(false, some 0), (true, some 0)] ∧
      (overlapped 1 overlapping).inst.dispatcher.delivered.map (·.passId) = [0, 0] ∧
      (overlapped 2 (executions [true, true, true, true, true, true])).replies.map
        (fun r => r.2.pass?.map (·.1)) = [some 0] ∧
      (overlapped 2 (executions [true, true, true, true, true, true])).inst.dispatcher.delivered.map
        (·.passId) = [0, 0] := by
  decide +kernel

/-- A third execution follows the two that overlap. -/
def withThird : List (Bool × Call) :=
  overlapping ++ executions [false, false, false, false, false, false]

/-- The third execution has a number of its own, and only the other two overlapped. -/
theorem third_execution_has_own_number :
    (observedInstance 1).kernel.passId = 0 ∧ (overlapped 1 withThird).counts.length < UInt32.size ∧
      (overlapped 1 withThird).replies.map (fun r => (r.1, r.2.pass?)) =
        [(false, some (0, 1, 8)), (true, some (0, 5, 10)), (false, some (2, 13, 16))] ∧
      ∀ t report readAt countedAt t' report' readAt' countedAt',
        (t, Reply.executed report readAt countedAt) ∈ (overlapped 1 withThird).replies →
        (t', Reply.executed report' readAt' countedAt') ∈ (overlapped 1 withThird).replies →
        report.passId = report'.passId → readAt < countedAt' ∧ readAt' < countedAt := by
  have few : (overlapped 1 withThird).counts.length < UInt32.size := by decide +kernel
  have passes : (overlapped 1 withThird).replies.map (fun r => (r.1, r.2.pass?)) =
      [(false, some (0, 1, 8)), (true, some (0, 5, 10)), (false, some (2, 13, 16))] := by
    decide +kernel
  exact ⟨rfl, few, passes, (pass_numbers_shared_only_by_overlap rfl withThird few).2.1⟩

end GridKernel.Concurrent
