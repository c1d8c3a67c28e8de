import OpenClaw.SerialQueue.Runs

/-!
The contract of a queue over its runs. The tasks and the promises have finitely many steps to
take, a sealed queue stays sealed, and a flush answers for tasks behind it only where one of
them is the first to fail before the flush is checked.
-/

namespace OpenClaw.SerialQueue

variable {ε α : Type} {options : Options} {queue after : Queue ε α}

namespace Queue

instance (queue : Queue ε α) (step : Step ε α) : Decidable (queue.Permits step) :=
  inferInstanceAs (Decidable (∀ id ∈ queue.failing step, queue.failed = false →
    ∀ call ∈ queue.flushes, call.requireSuccess = true → call.outcome = none → id < call.accepted))

theorem Stage.started_lt {n : Nat} (stage : queue.Stage n) {task : Task} {rest : List (Job ε α)}
    (head : queue.microtasks = .startTask task :: rest) : queue.started.length < queue.accepted := by
  have jobs : queue.taskJobs = .startTask task :: rest.filter Job.isTask := by
    rw [taskJobs, head, List.filter_cons_of_pos rfl]
  cases stage with
  | starting _ _ _ behind _ _ started =>
      rw [started, List.length_range, behind.2]
      omega
  | idle _ _ _ none | underway _ _ _ _ _ none =>
      rw [jobs] at none
      cases none
  | continuing _ _ _ _ other =>
      rw [jobs] at other
      simp at other

/-- A started task settles: it is no longer running, and the handlers of its completion are queued. -/
theorem work_settle_handOver {id : Nat} {phase : Phase} {outcome : Except ε α}
    (running : queue.running = [⟨id, phase⟩]) :
    (queue.settle id outcome).handOver.work + phase.left = queue.work + 1 := by
  cases pending : queue.pending with
  | nil =>
      rw [@handOver_nil _ _ (queue.settle id outcome) pending]
      simp only [work, settle, List.countP_append, running, List.map_singleton, List.sum_singleton]
      simp [Job.isTask]
      omega
  | cons next rest =>
      rw [@handOver_cons _ _ (queue.settle id outcome) next rest pending]
      simp only [work, settle, List.countP_append, running, List.map_singleton, List.sum_singleton]
      simp [Job.isTask]
      omega

theorem work_setPhase {id : Nat} {phase next : Phase} (running : queue.running = [⟨id, phase⟩]) :
    (queue.setPhase id next).work + phase.left = queue.work + next.left := by
  simp only [work, setPhase, running, List.map_singleton, List.sum_singleton, if_true]
  omega

/-- Flushes that waited for a prefix are now to be checked. -/
theorem work_settlePrefix {id : Nat} {rest : List (Job ε α)}
    (head : queue.microtasks = .settlePrefix id :: rest) :
    (({ queue with microtasks := rest } : Queue ε α).perform (.settlePrefix id)).work + 1 =
      queue.work := by
  have checks : ((queue.waiting.filter fun wait => wait.1 = id).map fun wait =>
      (Job.checkFailed wait.2 : Job ε α)).countP (fun job => !job.isTask) =
        (queue.waiting.filter fun wait => wait.1 = id).length := by
    rw [List.countP_map, ← List.countP_true]
    rfl
  have parts := List.length_eq_length_filter_add (l := queue.waiting) fun wait => decide (wait.1 = id)
  simp only [work, perform, List.countP_append, checks, head]
  simp [Job.isTask] at parts ⊢
  omega

theorem Sound.work_lt (sound : Sound options queue) {label : Step ε α}
    (internal : label.isInternal = true) (taken : queue.step options label = some after) :
    after.work < queue.work := by
  obtain ⟨settled, stage, -, -, -⟩ := sound.lined
  cases label with
  | enqueue | sealAdmission | flush => cases internal
  | throws id error =>
      simp only [Queue.step] at taken
      split at taken
      case isFalse => cases taken
      case isTrue mem =>
        cases taken
        obtain ⟨rfl, -, -, running, -⟩ := sound.lined.of_running (by decide) mem
        have less := @work_settle_handOver _ _
          { queue with
            results := queue.results ++ [(queue.completions.length, Except.error error)] }
          _ _ (.error error) running
        simp only [Phase.left] at less
        have same : ({ queue with
            results := queue.results ++ [(queue.completions.length, Except.error error)] } :
              Queue ε α).work = queue.work := rfl
        omega
  | returns id =>
      simp only [Queue.step] at taken
      split at taken
      case isFalse => cases taken
      case isTrue mem =>
        cases taken
        obtain ⟨rfl, -, -, running, -⟩ := sound.lined.of_running (by decide) mem
        have less := @work_setPhase _ _ _ _ _ .awaiting running
        simp only [Phase.left] at less
        omega
  | settles id outcome =>
      simp only [Queue.step] at taken
      split at taken
      case isFalse => cases taken
      case isTrue mem =>
        cases taken
        obtain ⟨rfl, -, -, running, -⟩ := sound.lined.of_running (by decide) mem
        have less := @work_setPhase _ _ _ _ _ .continuing running
        have same : ({ queue.setPhase queue.completions.length .continuing with
            results := queue.results ++ [(queue.completions.length, outcome)]
            microtasks := queue.microtasks ++ [.continueTask queue.completions.length outcome] } :
              Queue ε α).work = (queue.setPhase queue.completions.length .continuing).work := by
          simp [work, setPhase, Job.isTask]
        simp only [Phase.left] at less
        exact same.trans_lt (by omega)
  | microtask =>
      simp only [Queue.step] at taken
      split at taken
      case isTrue => cases taken
      case isFalse =>
        split at taken
        case h_1 => cases taken
        case h_2 job rest head =>
          cases taken
          cases job with
          | startTask task =>
              have more := stage.started_lt head
              simp only [work, perform, startTask, head, List.length_append, List.length_singleton,
                List.map_append, List.sum_append, List.map_singleton, List.sum_singleton, Phase.left]
              simp only [List.countP_cons, Job.isTask]
              simp
              omega
          | continueTask id outcome =>
              have jobs : queue.taskJobs = .continueTask id outcome :: rest.filter Job.isTask := by
                rw [taskJobs, head, List.filter_cons_of_pos rfl]
              cases stage with
              | continuing _ _ _ running single =>
                  rw [jobs, List.cons.injEq, Job.continueTask.injEq] at single
                  obtain ⟨⟨rfl, rfl⟩, -⟩ := single
                  have less := @work_settle_handOver _ _ { queue with microtasks := rest } _ _
                    outcome running
                  have same : ({ queue with microtasks := rest } : Queue ε α).work = queue.work := by
                    simp [work, head, Job.isTask]
                  simp only [Phase.left] at less
                  rw [perform]
                  omega
              | idle _ _ _ none | underway _ _ _ _ _ none =>
                  rw [jobs] at none
                  cases none
              | starting _ _ _ _ _ other =>
                  rw [jobs] at other
                  simp at other
          | settlePrefix id =>
              have less := work_settlePrefix head
              omega
          | checkFailed flush =>
              simp only [work, perform, head, List.countP_cons, Job.isTask]
              simp

theorem step_sealed {label : Step ε α} (taken : queue.step options label = some after)
    (sealed : queue.isSealed = true) : after.isSealed = true ∧ after.accepted = queue.accepted := by
  cases label with
  | enqueue weight sealOnOverflow =>
      cases taken
      rw [(@enqueue_cases ε α options queue weight sealOnOverflow).2.2.2.2 sealed]
      exact ⟨sealed, rfl⟩
  | sealAdmission =>
      cases taken
      exact ⟨rfl, rfl⟩
  | flush requireSuccess =>
      cases taken
      obtain ⟨-, same, accepted⟩ := @flush_sealed ε α queue requireSuccess
      exact ⟨same.trans sealed, accepted⟩
  | throws id error =>
      simp only [Queue.step] at taken
      split at taken
      case isFalse => cases taken
      case isTrue =>
        cases taken
        obtain ⟨-, same, accepted⟩ := @handOver_sealed ε α (({ queue with
          results := queue.results ++ [(id, Except.error error)] } : Queue ε α).settle id (.error error))
        exact ⟨same.trans sealed, accepted⟩
  | returns id | settles id outcome =>
      simp only [Queue.step] at taken
      split at taken
      case isFalse => cases taken
      case isTrue =>
        cases taken
        exact ⟨sealed, rfl⟩
  | microtask =>
      simp only [Queue.step] at taken
      split at taken
      case isTrue => cases taken
      case isFalse =>
        split at taken
        case h_1 => cases taken
        case h_2 job rest head =>
          cases taken
          cases job with
          | continueTask id outcome =>
              obtain ⟨-, same, accepted⟩ := @handOver_sealed ε α
                (({ queue with microtasks := rest } : Queue ε α).settle id outcome)
              exact ⟨same.trans sealed, accepted⟩
          | startTask | settlePrefix | checkFailed => exact ⟨sealed, rfl⟩

theorem reaches_sealed (run : Transition.Reaches (Queue.step options) Transition.Any queue after)
    (sealed : queue.isSealed = true) : after.isSealed = true ∧ after.accepted = queue.accepted :=
  run.relates (fun _ sealed => ⟨sealed, rfl⟩)
    (fun _ _ _ first second sealed =>
      ⟨(second (first sealed).1).1, (second (first sealed).1).2.trans (first sealed).2⟩)
    (fun _ _ _ _ taken sealed => step_sealed taken sealed) sealed

theorem sound_of_reaches (run : Transition.Reaches (Queue.step options) Permits create queue) :
    Sound options (queue : Queue ε α) :=
  run.invariant (sound_create options) fun _ _ _ sound permitted taken => sound.step permitted taken

end Queue

def narrow : Options := ⟨2, 4, by norm_num⟩

def Flush.wasRejected {ε : Type} (call : Flush ε) : Bool :=
  match call.outcome with
  | some (.error _) => true
  | _ => false

theorem Flush.of_wasRejected {call : Flush ε} (rejected : call.wasRejected = true) :
    ∃ error, call.outcome = some (.error error) := by
  unfold wasRejected at rejected
  split at rejected
  case h_1 error outcome => exact ⟨error, outcome⟩
  case h_2 => cases rejected

end OpenClaw.SerialQueue
