import OpenClaw.SerialQueue.Flushes

/-!
Runs of a queue. Its contract holds in every run in which no task is the first to fail while a
flush that requires success, and that the task was accepted after, is still to be checked: the
check reads a flag that any task may have set by then.
-/

namespace OpenClaw.SerialQueue

variable {ε α : Type} {options : Options} {queue after : Queue ε α} {id n : Nat}
  {outcome : Except ε α}

namespace Queue

/-- No task fails first while a flush it is not part of is undecided. -/
def Permits (queue : Queue ε α) (step : Step ε α) : Prop :=
  ∀ id ∈ queue.failing step, queue.failed = false → ∀ call ∈ queue.flushes,
    call.requireSuccess = true → call.outcome = none → id < call.accepted

/-- Decisions blame a task of the flush, and so will those still to be made. -/
structure Decided (queue : Queue ε α) : Prop where
  blame : queue.failed = true → ∀ call ∈ queue.flushes, call.requireSuccess = true →
    call.outcome = none → ∃ id < call.accepted, queue.hasFailed id
  rejected : ∀ call ∈ queue.flushes, ∀ error, call.outcome = some (.error error) →
    ∃ id < call.accepted, queue.hasFailed id
  resolved : ∀ call ∈ queue.flushes, call.outcome = some (.ok ()) → ∀ id < call.accepted,
    queue.hasSettled id ∧ ¬queue.hasFailed id

theorem decided_create : Decided (create : Queue ε α) :=
  ⟨fun _ _ mem => absurd mem List.not_mem_nil, fun _ mem => absurd mem List.not_mem_nil,
    fun _ mem => absurd mem List.not_mem_nil⟩

theorem Decided.congr (decided : queue.Decided) (failed : after.failed = queue.failed)
    (flushes : after.flushes = queue.flushes) (completions : after.completions = queue.completions) :
    after.Decided := by
  have fails : ∀ id, after.hasFailed id ↔ queue.hasFailed id := fun id => by
    rw [hasFailed, completions, ← hasFailed]
  have settles : ∀ id, after.hasSettled id ↔ queue.hasSettled id := fun id => by
    rw [hasSettled, completions, ← hasSettled]
  refine ⟨?_, ?_, ?_⟩ <;> simp only [failed, flushes, fails, settles]
  · exact decided.blame
  · exact decided.rejected
  · exact decided.resolved

theorem Decided.flush (decided : queue.Decided) (lined : Lined options queue) (called : queue.Called)
    (requireSuccess : Bool) : (queue.flush requireSuccess).Decided := by
  let call : Flush ε :=
    { requireSuccess, awaited := queue.settledPrefix, accepted := queue.accepted, outcome := none }
  have noted : ({ queue with flushes := queue.flushes ++ [call] } : Queue ε α).Decided := by
    refine ⟨fun failed other mem => ?_, fun other mem error verdict => ?_, fun other mem verdict => ?_⟩
    · rcases List.mem_append.mp mem with old | new
      · exact decided.blame failed other old
      · rw [List.mem_singleton.mp new]
        intro _ _
        obtain ⟨id, error, mem⟩ := called.failure.mp failed
        have settled := (hasSettled_iff lined.settled).mp ⟨_, mem⟩
        exact ⟨id, settled.trans_le lined.stage.le_accepted, error, mem⟩
    · rcases List.mem_append.mp mem with old | new
      · exact decided.rejected other old error verdict
      · rw [List.mem_singleton.mp new] at verdict
        cases verdict
    · rcases List.mem_append.mp mem with old | new
      · exact decided.resolved other old verdict
      · rw [List.mem_singleton.mp new] at verdict
        cases verdict
  have same : (queue.flush requireSuccess).failed = queue.failed ∧
      (queue.flush requireSuccess).flushes = queue.flushes ++ [call] ∧
        (queue.flush requireSuccess).completions = queue.completions := by
    rw [Queue.flush]
    split
    case isTrue => exact ⟨rfl, rfl, rfl⟩
    split
    case h_1 => exact ⟨rfl, rfl, rfl⟩
    case h_2 => split <;> exact ⟨rfl, rfl, rfl⟩
  exact noted.congr same.1 same.2.1 same.2.2

/-- A task settles. If it is the first to fail, every undecided flush is one it is part of. -/
theorem Decided.settle (decided : queue.Decided)
    (settled : queue.completions.map Prod.fst = List.range queue.completions.length)
    (permitted : ∀ error, outcome = .error error → queue.failed = false → ∀ call ∈ queue.flushes,
      call.requireSuccess = true → call.outcome = none → queue.completions.length < call.accepted) :
    (queue.settle queue.completions.length outcome).Decided := by
  have kept : ∀ {id}, queue.hasFailed id →
      (queue.settle queue.completions.length outcome).hasFailed id := by
    rintro id ⟨error, mem⟩
    exact ⟨error, List.mem_append_left _ mem⟩
  refine ⟨fun failed call mem required undecided => ?_, fun call mem error verdict => ?_,
    fun call mem verdict id below => ?_⟩
  · cases before : queue.failed with
    | true =>
        obtain ⟨id, below, fails⟩ := decided.blame before call mem required undecided
        exact ⟨id, below, kept fails⟩
    | false =>
        cases outcome with
        | ok value =>
            rw [Queue.settle] at failed
            exact absurd (before.symm.trans failed) Bool.false_ne_true
        | error error =>
            exact ⟨_, permitted error rfl before call mem required undecided, error,
              List.mem_append_right _ (List.mem_singleton_self _)⟩
  · obtain ⟨id, below, fails⟩ := decided.rejected call mem error verdict
    exact ⟨id, below, kept fails⟩
  · obtain ⟨⟨result, there⟩, fine⟩ := decided.resolved call mem verdict id below
    refine ⟨⟨result, List.mem_append_left _ there⟩, ?_⟩
    rintro ⟨error, fails⟩
    rcases List.mem_append.mp fails with old | new
    · exact fine ⟨error, old⟩
    · have here := (hasSettled_iff settled).mp ⟨_, there⟩
      rw [List.mem_singleton, Prod.mk.injEq] at new
      omega

theorem Decided.handOver (decided : queue.Decided) : queue.handOver.Decided := by
  cases pending : queue.pending with
  | nil =>
      rw [handOver_nil pending]
      exact decided.congr rfl rfl rfl
  | cons next rest =>
      rw [handOver_cons pending]
      exact decided.congr rfl rfl rfl

/-- A check finds the flag set only if a task of its flush has failed. -/
theorem Decided.perform_check (decided : queue.Decided) (lined : Lined options queue)
    (called : queue.Called) {flush : Nat} {rest : List (Job ε α)}
    (head : queue.microtasks = .checkFailed flush :: rest) :
    (({ queue with microtasks := rest } : Queue ε α).perform (.checkFailed flush)).Decided := by
  obtain ⟨due, found, required, done⟩ := called.due flush (head ▸ List.mem_cons_self)
  have awaited := (called.made due (List.mem_of_getElem? found)).2
  have old : ∀ call' ∈ (({ queue with microtasks := rest } : Queue ε α).perform
        (.checkFailed flush)).flushes,
      call' ∈ queue.flushes ∨ due.outcome = none ∧ call' = { due with
        outcome := some (if queue.failed then .error queue.firstFailure else .ok ()) } := by
    intro call' mem
    obtain ⟨j, there⟩ := List.mem_iff_getElem?.mp mem
    obtain ⟨call, before, rfl⟩ := List.getElem?_modify_eq_some.mp there
    by_cases here : flush = j
    · rw [if_pos here]
      rw [← here, found, Option.some.injEq] at before
      subst before
      cases verdict : due.outcome with
      | none => exact .inr ⟨rfl, rfl⟩
      | some already =>
          refine .inl ?_
          rw [Option.some_or, ← verdict]
          exact List.mem_of_getElem? found
    · rw [if_neg here]
      exact .inl (List.mem_of_getElem? before)
  refine ⟨fun failed call mem needed undecided => ?_, fun call mem error verdict => ?_,
    fun call mem verdict id below => ?_⟩
  · rcases old call mem with before | ⟨-, rfl⟩
    · exact decided.blame failed call before needed undecided
    · cases undecided
  · rcases old call mem with before | ⟨undecided, rfl⟩
    · exact decided.rejected call before error verdict
    · cases failed : queue.failed with
      | true => exact decided.blame failed due (List.mem_of_getElem? found) required undecided
      | false =>
          rw [failed] at verdict
          cases verdict
  · rcases old call mem with before | ⟨undecided, rfl⟩
    · exact decided.resolved call before verdict id below
    · cases failed : queue.failed with
      | true =>
          rw [failed] at verdict
          cases verdict
      | false =>
          rw [awaited] at done
          refine ⟨(hasSettled_iff lined.settled).mpr (called.lt_of_isFulfilled done below), ?_⟩
          intro fails
          rw [called.failure.mpr ⟨id, fails⟩] at failed
          cases failed

structure Sound (options : Options) (queue : Queue ε α) : Prop where
  lined : Lined options queue
  called : queue.Called
  decided : queue.Decided
  sealing : queue.overflowed = true → queue.isSealed = true

theorem sound_create (options : Options) : Sound options (create : Queue ε α) :=
  ⟨lined_create options, called_create, decided_create, fun overflowed => by cases overflowed⟩

theorem enqueue_cases (weight : Nat) (sealOnOverflow : Bool) :
    (queue.enqueue options weight sealOnOverflow).1.failed = queue.failed ∧
      (queue.enqueue options weight sealOnOverflow).1.flushes = queue.flushes ∧
      (queue.enqueue options weight sealOnOverflow).1.completions = queue.completions ∧
      ((queue.enqueue options weight sealOnOverflow).1.overflowed = queue.overflowed ∧
          (queue.enqueue options weight sealOnOverflow).1.isSealed = queue.isSealed ∨
        (queue.enqueue options weight sealOnOverflow).1.isSealed = true) ∧
      (queue.isSealed = true → (queue.enqueue options weight sealOnOverflow).1 = queue) := by
  rw [Queue.enqueue]
  split
  case isTrue => exact ⟨rfl, rfl, rfl, .inl ⟨rfl, rfl⟩, fun _ => rfl⟩
  case isFalse open_ =>
    have not_sealed : queue.isSealed = true → ∀ {P : Prop}, P := fun sealed => absurd sealed open_
    split
    case isTrue =>
      split
      case isTrue => exact ⟨rfl, rfl, rfl, .inr rfl, fun sealed => not_sealed sealed⟩
      case isFalse => exact ⟨rfl, rfl, rfl, .inl ⟨rfl, rfl⟩, fun _ => rfl⟩
    case isFalse =>
      dsimp only
      split
      case isTrue => exact ⟨rfl, rfl, rfl, .inl ⟨rfl, rfl⟩, fun sealed => not_sealed sealed⟩
      case isFalse => exact ⟨rfl, rfl, rfl, .inl ⟨rfl, rfl⟩, fun sealed => not_sealed sealed⟩

theorem handOver_sealed : queue.handOver.overflowed = queue.overflowed ∧
    queue.handOver.isSealed = queue.isSealed ∧ queue.handOver.accepted = queue.accepted := by
  cases pending : queue.pending with
  | nil => rw [handOver_nil pending]; exact ⟨rfl, rfl, rfl⟩
  | cons next rest => rw [handOver_cons pending]; exact ⟨rfl, rfl, rfl⟩

theorem flush_sealed (requireSuccess : Bool) :
    (queue.flush requireSuccess).overflowed = queue.overflowed ∧
      (queue.flush requireSuccess).isSealed = queue.isSealed ∧
      (queue.flush requireSuccess).accepted = queue.accepted := by
  rw [Queue.flush]
  split
  case isTrue => exact ⟨rfl, rfl, rfl⟩
  split
  case h_1 => exact ⟨rfl, rfl, rfl⟩
  case h_2 => split <;> exact ⟨rfl, rfl, rfl⟩

theorem Lined.flush (lined : Lined options queue) (requireSuccess : Bool) :
    Lined options (queue.flush requireSuccess) := by
  have added {jobs : List (Job ε α)} (others : ∀ job ∈ jobs, job.isTask = false) :
      (queue.microtasks ++ jobs).filter Job.isTask = queue.taskJobs := by
    have none : jobs.filter Job.isTask = [] := by
      refine List.filter_eq_nil_iff.mpr fun job mem => ?_
      rw [others job mem]
      exact Bool.false_ne_true
    rw [List.filter_append, none, List.append_nil]
    rfl
  have check : (queue.microtasks ++ [Job.checkFailed queue.flushes.length]).filter Job.isTask =
      queue.taskJobs := added (by simp [Job.isTask])
  rw [Queue.flush]
  split
  case isTrue => exact lined.congr rfl rfl rfl rfl rfl rfl rfl rfl rfl
  split
  case h_1 => exact lined.congr rfl rfl rfl check rfl rfl rfl rfl rfl
  case h_2 =>
    split
    case isTrue => exact lined.congr rfl rfl rfl check rfl rfl rfl rfl rfl
    case isFalse => exact lined.congr rfl rfl rfl rfl rfl rfl rfl rfl rfl

/-- A task in hand that settles. -/
theorem Sound.finish (sound : Sound options queue) (called : after.Called) (decided : after.Decided)
    (lined : Lined options (after.settle after.completions.length outcome).handOver)
    (settled : after.completions.map Prod.fst = List.range after.completions.length)
    (permitted : ∀ error, outcome = .error error → after.failed = false → ∀ call ∈ after.flushes,
      call.requireSuccess = true → call.outcome = none → after.completions.length < call.accepted)
    (overflowed : after.overflowed = queue.overflowed) (sealed : after.isSealed = queue.isSealed) :
    Sound options (after.settle after.completions.length outcome).handOver := by
  refine ⟨lined, called.settle.handOver, (decided.settle settled permitted).handOver, ?_⟩
  rw [handOver_sealed.1, handOver_sealed.2.1]
  exact fun over_ => sealed.trans (sound.sealing (overflowed.symm.trans over_))

theorem Sound.step (sound : Sound options queue) {label : Step ε α} (permitted : queue.Permits label)
    (taken : queue.step options label = some after) : Sound options after := by
  cases label with
  | enqueue weight sealOnOverflow =>
      cases taken
      obtain ⟨failed, flushes, completions, either, -⟩ :=
        @enqueue_cases ε α options queue weight sealOnOverflow
      refine ⟨sound.lined.enqueue weight sealOnOverflow, sound.called.enqueue weight sealOnOverflow,
        sound.decided.congr failed flushes completions, fun overflowed => ?_⟩
      rcases either with ⟨same, sealed⟩ | sealed
      · exact sealed.trans (sound.sealing (same.symm.trans overflowed))
      · exact sealed
  | sealAdmission =>
      cases taken
      exact ⟨sound.lined.congr rfl rfl rfl rfl rfl rfl rfl rfl rfl,
        sound.called.congr rfl rfl rfl rfl rfl rfl rfl rfl fun _ => Iff.rfl,
        sound.decided.congr rfl rfl rfl, fun _ => rfl⟩
  | flush requireSuccess =>
      cases taken
      refine ⟨sound.lined.flush requireSuccess, sound.called.flush requireSuccess,
        sound.decided.flush sound.lined sound.called requireSuccess, ?_⟩
      obtain ⟨overflowed, sealed, -⟩ := @flush_sealed ε α queue requireSuccess
      rw [overflowed, sealed]
      exact sound.sealing
  | throws id error =>
      simp only [Queue.step] at taken
      split at taken
      case isFalse => cases taken
      case isTrue mem =>
        cases taken
        obtain ⟨rfl, lined⟩ := @Lined.throws _ _ _ _ sound.lined _ error mem
        exact sound.finish
          (sound.called.congr rfl rfl rfl rfl rfl rfl rfl rfl fun _ => Iff.rfl)
          (sound.decided.congr rfl rfl rfl) lined sound.lined.settled
          (fun _ _ fine => permitted _ rfl fine) rfl rfl
  | returns id =>
      simp only [Queue.step] at taken
      split at taken
      case isFalse => cases taken
      case isTrue mem =>
        cases taken
        exact ⟨sound.lined.returns mem,
          sound.called.congr rfl rfl rfl rfl rfl rfl rfl rfl fun _ => Iff.rfl,
          sound.decided.congr rfl rfl rfl, sound.sealing⟩
  | settles id outcome =>
      simp only [Queue.step] at taken
      split at taken
      case isFalse => cases taken
      case isTrue mem =>
        cases taken
        refine ⟨sound.lined.settles mem, ?_, sound.decided.congr rfl rfl rfl, sound.sealing⟩
        refine sound.called.congr rfl rfl rfl rfl rfl rfl rfl ?_ fun i => ?_
        · rw [List.filterMap_append]
          exact List.append_nil _
        · simp
  | microtask =>
      simp only [Queue.step] at taken
      split at taken
      case isTrue => cases taken
      case isFalse =>
        split at taken
        case h_1 => cases taken
        case h_2 job rest head =>
          cases taken
          cases job with
          | startTask task =>
              have called := sound.called.take_task rfl head
              exact ⟨sound.lined.perform_start head,
                called.congr rfl rfl rfl rfl rfl rfl rfl rfl fun _ => Iff.rfl,
                sound.decided.congr rfl rfl rfl, sound.sealing⟩
          | continueTask id outcome =>
              obtain ⟨rfl, lined⟩ := sound.lined.perform_continue head
              refine sound.finish (sound.called.take_task rfl head)
                (sound.decided.congr rfl rfl rfl) lined sound.lined.settled
                (fun error failed fine => ?_) rfl rfl
              subst failed
              exact permitted _ (by rw [failing, head]; rfl) fine
          | settlePrefix id =>
              have others : ((queue.waiting.filter fun wait => wait.1 = id).map fun wait =>
                  (Job.checkFailed wait.2 : Job ε α)).filter Job.isTask = [] := by
                refine List.filter_eq_nil_iff.mpr fun job mem => ?_
                obtain ⟨wait, -, rfl⟩ := List.mem_map.mp mem
                exact Bool.false_ne_true
              refine ⟨sound.lined.congr rfl rfl rfl ?_ rfl rfl rfl rfl rfl,
                sound.called.perform_settle head, sound.decided.congr rfl rfl rfl, sound.sealing⟩
              rw [taskJobs, taskJobs, head, List.filter_cons_of_neg (by exact Bool.false_ne_true)]
              simp only [perform, List.filter_append, others, List.append_nil]
          | checkFailed flush =>
              refine ⟨sound.lined.congr rfl rfl rfl ?_ rfl rfl rfl rfl rfl,
                sound.called.perform_check head,
                sound.decided.perform_check sound.lined sound.called head, sound.sealing⟩
              rw [taskJobs, taskJobs, head, List.filter_cons_of_neg (by exact Bool.false_ne_true)]
              rfl

theorem Stage.started_settled (stage : queue.Stage n) (idle : queue.microtasks = []) :
    (∀ task ∈ queue.running, task.phase ≠ .continuing) ∧
      (queue.running = [] → queue.started = List.range queue.accepted ∧ queue.accepted = n) := by
  have jobs : queue.taskJobs = [] := by rw [taskJobs, idle, List.filter_nil]
  cases stage with
  | idle _ _ running _ accepted started =>
      rw [running, started, accepted]
      exact ⟨fun _ mem => absurd mem List.not_mem_nil, fun _ => ⟨rfl, rfl⟩⟩
  | starting task _ _ _ _ single =>
      rw [jobs] at single
      cases single
  | underway phase here _ _ running =>
      rw [running]
      refine ⟨fun task mem => ?_, fun none => by cases none⟩
      rw [List.mem_singleton.mp mem]
      exact here
  | continuing outcome _ _ _ single =>
      rw [jobs] at single
      cases single

theorem Stage.started_iff (stage : queue.Stage n) :
    queue.started = List.range queue.started.length ∧ queue.running.length ≤ 1 ∧
      ∀ id, id ∈ queue.started ↔ id < n ∨ id ∈ queue.running.map Running.id := by
  cases stage with
  | idle _ _ running _ _ started | starting _ _ _ _ running _ started =>
      rw [running, started, List.length_range]
      exact ⟨rfl, Nat.zero_le _, fun id => by simp⟩
  | underway _ _ _ _ running _ started | continuing _ _ _ running _ started =>
      rw [running, started, List.length_range]
      refine ⟨rfl, le_rfl, fun id => ?_⟩
      simp only [List.mem_range, List.map_singleton, List.mem_singleton]
      omega

theorem Lined.results (lined : Lined options queue) :
    queue.completions <+: queue.results ∧ (queue.results.map Prod.fst).Nodup := by
  have settled := lined.settled
  cases lined.stage with
  | idle _ _ _ _ _ _ results | starting _ _ _ _ _ _ _ results | underway _ _ _ _ _ _ _ results =>
      rw [results, settled]
      exact ⟨List.prefix_rfl, List.nodup_range⟩
  | continuing outcome _ _ _ _ _ results =>
      rw [results, List.map_append, settled, List.map_singleton, ← List.range_succ]
      exact ⟨List.prefix_append _ _, List.nodup_range⟩

theorem Sound.contract (sound : Sound options queue) : Contract options queue := by
  obtain ⟨lined, called, decided, sealing⟩ := sound
  have settled : ∀ id, queue.hasSettled id ↔ id < queue.completions.length :=
    fun id => hasSettled_iff lined.settled
  have all : ∀ {accepted}, (∀ id < accepted, queue.hasSettled id) ↔
      accepted ≤ queue.completions.length := by
    intro accepted
    constructor
    · intro every
      by_contra more
      exact absurd ((settled _).mp (every queue.completions.length (by omega))) (Nat.lt_irrefl _)
    · exact fun atMost id below => (settled id).mpr (by omega)
  obtain ⟨order, one, either⟩ := lined.stage.started_iff
  obtain ⟨among, distinct⟩ := lined.results
  refine ⟨order, ⟨one, fun id => by rw [either, settled]⟩, ⟨fun entry mem => among.subset mem, ?_,
    distinct⟩, ⟨lined.count, lined.weight, lined.bound⟩, sealing, fun idle => ?_, fun call mem => ?_,
    fun call mem required => ?_⟩
  · rw [lined.settled]
    exact List.nodup_range
  · obtain ⟨phases, ended⟩ := lined.stage.started_settled idle
    refine ⟨phases, fun none => ?_⟩
    obtain ⟨started, accepted⟩ := ended none
    exact ⟨started, all.mpr accepted.le⟩
  · obtain ⟨-, awaited⟩ := called.made call mem
    rw [awaited]
    exact ⟨fun done id below => (settled id).mpr (called.lt_of_isFulfilled done below),
      fun idle every => called.isFulfilled_of_le idle (all.mp every)⟩
  · refine ⟨decided.rejected call mem, decided.resolved call mem, fun idle every => ?_⟩
    by_contra open_
    rw [Bool.not_eq_true, Option.isSome_eq_false_iff, Option.isNone_iff_eq_none] at open_
    obtain ⟨i, found⟩ := List.mem_iff_getElem?.mp mem
    rcases called.undecided i call found required open_ with job | ⟨id, awaited, waits⟩
    · rw [idle] at job
      cases job
    · have done := called.isFulfilled_of_le idle (all.mp every)
      rw [← (called.made call mem).2, isFulfilled_iff] at done
      exact (called.waits _ waits).1 (done id awaited)

end Queue

end OpenClaw.SerialQueue
