import OpenClaw.SerialQueue.Queue

/-!
Where the tasks of a queue stand. One task is in hand while the queue is active: it waits to be
started, runs, or its continuation is queued; the tasks before it have settled, and those
behind it are pending in the order in which they were accepted.
-/

namespace OpenClaw.SerialQueue

variable {ε α : Type} {options : Options} {queue after : Queue ε α} {c : Nat} {outcome : Except ε α}

/-- The completion whose handlers a job runs. -/
def Job.settling : Job ε α → Option Nat
  | settlePrefix id => some id
  | _ => none

namespace Queue

def taskJobs (queue : Queue ε α) : List (Job ε α) := queue.microtasks.filter Job.isTask

/-- The tasks behind the one in hand. -/
def Behind (queue : Queue ε α) (c : Nat) : Prop :=
  queue.pending.map Task.id = List.range' (c + 1) queue.pending.length ∧
    queue.accepted = c + 1 + queue.pending.length

inductive Stage (queue : Queue ε α) (c : Nat) : Prop
  | idle (active : queue.active = false) (pending : queue.pending = []) (running : queue.running = [])
      (jobs : queue.taskJobs = []) (accepted : queue.accepted = c)
      (started : queue.started = List.range c) (results : queue.results = queue.completions)
  | starting (task : Task) (id : task.id = c) (active : queue.active = true) (behind : queue.Behind c)
      (running : queue.running = []) (jobs : queue.taskJobs = [.startTask task])
      (started : queue.started = List.range c) (results : queue.results = queue.completions)
  | underway (phase : Phase) (here : phase ≠ .continuing) (active : queue.active = true)
      (behind : queue.Behind c) (running : queue.running = [⟨c, phase⟩]) (jobs : queue.taskJobs = [])
      (started : queue.started = List.range (c + 1)) (results : queue.results = queue.completions)
  | continuing (outcome : Except ε α) (active : queue.active = true) (behind : queue.Behind c)
      (running : queue.running = [⟨c, .continuing⟩]) (jobs : queue.taskJobs = [.continueTask c outcome])
      (started : queue.started = List.range (c + 1))
      (results : queue.results = queue.completions ++ [(c, outcome)])

/-- The tasks in order, and what is pending within its bounds. -/
structure Lined (options : Options) (queue : Queue ε α) : Prop where
  settled : queue.completions.map Prod.fst = List.range queue.completions.length
  stage : queue.Stage queue.completions.length
  weight : queue.pendingWeight = (queue.pending.map Task.weight).sum
  count : queue.pending.length ≤ options.maxPendingCount
  bound : (queue.pendingWeight : ℚ) ≤ options.maxPendingWeight

theorem lined_create (options : Options) : Lined options (create : Queue ε α) where
  settled := rfl
  stage := .idle rfl rfl rfl rfl rfl rfl rfl
  weight := rfl
  count := Nat.zero_le _
  bound := by
    rw [create]
    exact_mod_cast options.nonneg

/-- Only the line of tasks and what is known of it matter. -/
theorem Lined.congr (lined : Lined options queue) (pending : after.pending = queue.pending)
    (weight : after.pendingWeight = queue.pendingWeight) (active : after.active = queue.active)
    (jobs : after.taskJobs = queue.taskJobs) (running : after.running = queue.running)
    (accepted : after.accepted = queue.accepted) (started : after.started = queue.started)
    (results : after.results = queue.results) (completions : after.completions = queue.completions) :
    Lined options after := by
  refine ⟨?_, ?_, ?_, ?_, ?_⟩
  · rw [completions]
    exact lined.settled
  · rw [completions]
    cases lined.stage with
    | idle a b c d e f g =>
        exact .idle (active.trans a) (pending.trans b) (running.trans c) (jobs.trans d)
          (accepted.trans e) (started.trans f) (by rw [results, g, completions])
    | starting task id a b c d e f =>
        exact .starting task id (active.trans a) (by rw [Behind, pending, accepted]; exact b)
          (running.trans c) (jobs.trans d) (started.trans e) (by rw [results, f, completions])
    | underway phase here a b c d e f =>
        exact .underway phase here (active.trans a) (by rw [Behind, pending, accepted]; exact b)
          (running.trans c) (jobs.trans d) (started.trans e) (by rw [results, f, completions])
    | continuing outcome a b c d e f =>
        exact .continuing outcome (active.trans a) (by rw [Behind, pending, accepted]; exact b)
          (running.trans c) (jobs.trans d) (started.trans e) (by rw [results, f, completions])
  · rw [weight, pending]
    exact lined.weight
  · rw [pending]
    exact lined.count
  · rw [weight]
    exact lined.bound

theorem Stage.le_accepted (stage : queue.Stage c) : c ≤ queue.accepted := by
  cases stage with
  | idle _ _ _ _ accepted => exact accepted.ge
  | starting _ _ _ behind | underway _ _ _ behind | continuing _ _ behind =>
      have := behind.2
      omega

theorem Stage.active_cases (stage : queue.Stage c) (active : queue.active = true) :
    queue.Behind c := by
  cases stage with
  | idle inactive => exact absurd active (by rw [inactive]; exact Bool.false_ne_true)
  | starting _ _ _ behind | underway _ _ _ behind | continuing _ _ behind => exact behind

/-- One more task behind the others. -/
theorem Behind.concat (behind : queue.Behind c) (weight : Nat)
    (pending : after.pending = queue.pending ++ [⟨queue.accepted, weight⟩])
    (accepted : after.accepted = queue.accepted + 1) : after.Behind c := by
  obtain ⟨ids, count⟩ := behind
  rw [Behind, pending, accepted, List.map_append, ids, List.length_append, List.length_singleton,
    List.range'_concat, count]
  exact ⟨by simp, by omega⟩

theorem Lined.enqueue (lined : Lined options queue) (weight : Nat) (sealOnOverflow : Bool) :
    Lined options (queue.enqueue options weight sealOnOverflow).1 := by
  rw [Queue.enqueue]
  split
  case isTrue => exact lined
  split
  case isTrue =>
    split
    case isTrue => exact lined.congr rfl rfl rfl rfl rfl rfl rfl rfl rfl
    case isFalse => exact lined
  case isFalse room =>
    cases active : queue.active with
    | true =>
        simp only [if_true]
        rw [active] at room
        simp only [true_and, not_or, not_le, not_lt] at room
        refine ⟨lined.settled, ?_, ?_, ?_, ?_⟩
        · cases lined.stage with
          | idle inactive => exact absurd active (by rw [inactive]; exact Bool.false_ne_true)
          | starting task id a behind c d e f =>
              exact .starting task id rfl (behind.concat weight rfl rfl) c d e f
          | underway phase here a behind c d e f =>
              exact .underway phase here rfl (behind.concat weight rfl rfl) c d e f
          | continuing outcome a behind c d e f =>
              exact .continuing outcome rfl (behind.concat weight rfl rfl) c d e f
        · rw [List.map_append, List.sum_append, ← lined.weight]
          simp
        · rw [List.length_append, List.length_singleton]
          exact room.1
        · exact room.2
    | false =>
        simp only [Bool.false_eq_true, if_false]
        cases lined.stage with
        | idle a pending running jobs accepted started results =>
            refine ⟨lined.settled, .underway .executing (by decide) rfl ?_ ?_ jobs ?_ results,
              lined.weight, lined.count, lined.bound⟩
            · rw [Behind]
              simp only [startTask, pending, List.map_nil, List.length_nil, List.range'_zero,
                accepted, Nat.add_zero, and_self]
            · simp only [startTask, running, accepted, List.nil_append]
            · simp only [startTask, started, accepted, List.range_succ]
        | starting _ _ a | underway _ _ a | continuing _ a =>
            exact absurd active (by rw [a]; exact Bool.noConfusion)

theorem handOver_nil (pending : queue.pending = []) :
    queue.handOver = { queue with active := false } := by
  unfold handOver
  split
  case h_1 next rest present =>
    rw [pending] at present
    cases present
  case h_2 => rfl

theorem handOver_cons {next : Task} {rest : List Task} (pending : queue.pending = next :: rest) :
    queue.handOver =
      { queue with
        pending := rest
        pendingWeight := queue.pendingWeight - next.weight
        microtasks := queue.microtasks ++ [.startTask next] } := by
  unfold handOver
  split
  case h_1 other others present =>
    rw [pending, List.cons.injEq] at present
    obtain ⟨rfl, rfl⟩ := present
    rfl
  case h_2 absent =>
    rw [pending] at absent
    cases absent

/-- The task in hand settles, and the next one is handed its turn. -/
theorem lined_finish (settled : queue.completions.map Prod.fst = List.range queue.completions.length)
    (behind : queue.Behind queue.completions.length) (active : queue.active = true)
    {phase : Phase} (running : queue.running = [⟨queue.completions.length, phase⟩])
    (jobs : queue.taskJobs = []) (started : queue.started = List.range (queue.completions.length + 1))
    (results : queue.results = queue.completions ++ [(queue.completions.length, outcome)])
    (weight : queue.pendingWeight = (queue.pending.map Task.weight).sum)
    (count : queue.pending.length ≤ options.maxPendingCount)
    (bound : (queue.pendingWeight : ℚ) ≤ options.maxPendingWeight) :
    Lined options (queue.settle queue.completions.length outcome).handOver := by
  obtain ⟨ids, accepted⟩ := behind
  have ids' : (queue.completions ++ [(queue.completions.length, outcome)]).map Prod.fst =
      List.range (queue.completions ++ [(queue.completions.length, outcome)]).length := by
    rw [List.map_append, settled, List.length_append, List.length_singleton, List.range_succ]
    rfl
  have jobs' : (queue.microtasks ++ [Job.settlePrefix queue.completions.length]).filter Job.isTask =
      [] := by
    rw [List.filter_append, show queue.microtasks.filter Job.isTask = [] from jobs]
    rfl
  cases pending : queue.pending with
  | nil =>
      have done : (queue.settle queue.completions.length outcome).handOver =
          { queue.settle queue.completions.length outcome with active := false } :=
        handOver_nil pending
      rw [done]
      refine ⟨ids', .idle rfl pending ?_ jobs' ?_ ?_ results, weight, count, bound⟩
      · simp [settle, running]
      · simp [settle, accepted, pending]
      · simp [settle, started]
  | cons next rest =>
      have done : (queue.settle queue.completions.length outcome).handOver =
          { queue.settle queue.completions.length outcome with
            pending := rest
            pendingWeight := queue.pendingWeight - next.weight
            microtasks := queue.microtasks ++ [.settlePrefix queue.completions.length] ++
              [.startTask next] } :=
        handOver_cons pending
      rw [pending, List.map_cons, List.length_cons, List.range'_succ, List.cons.injEq] at ids
      rw [pending, List.length_cons] at accepted count
      rw [pending, List.map_cons, List.sum_cons] at weight
      rw [done]
      refine ⟨ids', .starting next ?_ active ?_ ?_ ?_ ?_ results, ?_, ?_, ?_⟩
      · simp [settle, ids.1]
      · simp only [Behind, settle, List.length_append, List.length_singleton]
        exact ⟨ids.2, by omega⟩
      · simp [settle, running]
      · rw [taskJobs, List.filter_append, jobs']
        rfl
      · simp [settle, started]
      · simp only
        omega
      · simp only
        omega
      · refine le_trans ?_ bound
        exact_mod_cast Nat.sub_le _ _

theorem Lined.perform_start (lined : Lined options queue) {task : Task} {rest : List (Job ε α)}
    (head : queue.microtasks = .startTask task :: rest) :
    Lined options ({ queue with microtasks := rest }.startTask task) := by
  have jobs : queue.taskJobs = .startTask task :: rest.filter Job.isTask := by
    rw [taskJobs, head, List.filter_cons_of_pos rfl]
  refine ⟨lined.settled, ?_, lined.weight, lined.count, lined.bound⟩
  cases lined.stage with
  | starting other id active behind running single started results =>
      rw [jobs, List.cons.injEq, Job.startTask.injEq] at single
      obtain ⟨rfl, none⟩ := single
      refine .underway .executing (by decide) active behind ?_ none ?_ results
      · simp [startTask, running, id]
      · simp [startTask, started, id, List.range_succ]
  | idle _ _ _ none | underway _ _ _ _ _ none =>
      rw [jobs] at none
      cases none
  | continuing outcome _ _ _ other =>
      rw [jobs] at other
      simp at other

theorem Lined.perform_continue (lined : Lined options queue) {id : Nat} {rest : List (Job ε α)}
    (head : queue.microtasks = .continueTask id outcome :: rest) :
    id = queue.completions.length ∧
      Lined options (({ queue with microtasks := rest }.settle id outcome).handOver) := by
  have jobs : queue.taskJobs = .continueTask id outcome :: rest.filter Job.isTask := by
    rw [taskJobs, head, List.filter_cons_of_pos rfl]
  cases lined.stage with
  | continuing other active behind running single started results =>
      rw [jobs, List.cons.injEq, Job.continueTask.injEq] at single
      obtain ⟨⟨rfl, rfl⟩, none⟩ := single
      refine ⟨rfl, ?_⟩
      exact @lined_finish _ _ _ { queue with microtasks := rest } _ lined.settled behind active _
        running none started results lined.weight lined.count lined.bound
  | idle _ _ _ none | underway _ _ _ _ _ none =>
      rw [jobs] at none
      cases none
  | starting task _ _ _ _ other =>
      rw [jobs] at other
      simp at other

/-- A task that executes is the one in hand. -/
theorem Lined.of_running (lined : Lined options queue) {id : Nat} {phase : Phase}
    (here : phase ≠ .continuing) (mem : ⟨id, phase⟩ ∈ queue.running) :
    id = queue.completions.length ∧ queue.active = true ∧ queue.Behind queue.completions.length ∧
      queue.running = [⟨queue.completions.length, phase⟩] ∧ queue.taskJobs = [] ∧
        queue.started = List.range (queue.completions.length + 1) ∧
          queue.results = queue.completions := by
  cases lined.stage with
  | idle _ _ none | starting _ _ _ _ none =>
      rw [none] at mem
      cases mem
  | underway other _ active behind running jobs started results =>
      rw [running, List.mem_singleton, Running.mk.injEq] at mem
      obtain ⟨rfl, rfl⟩ := mem
      exact ⟨rfl, active, behind, running, jobs, started, results⟩
  | continuing outcome _ _ running =>
      rw [running, List.mem_singleton, Running.mk.injEq] at mem
      exact absurd mem.2 here

theorem Lined.throws (lined : Lined options queue) {id : Nat} {error : ε}
    (mem : ⟨id, .executing⟩ ∈ queue.running) :
    id = queue.completions.length ∧ Lined options
      (({ queue with results := queue.results ++ [(id, Except.error error)] }.settle id
        (.error error)).handOver) := by
  obtain ⟨rfl, active, behind, running, jobs, started, results⟩ := lined.of_running (by decide) mem
  refine ⟨rfl, ?_⟩
  exact @lined_finish _ _ _
    { queue with
      results := queue.results ++ [(queue.completions.length, Except.error error)] } _
    lined.settled behind active _ running jobs started (by rw [results]) lined.weight lined.count
    lined.bound

theorem Lined.returns (lined : Lined options queue) {id : Nat}
    (mem : ⟨id, .executing⟩ ∈ queue.running) : Lined options (queue.setPhase id .awaiting) := by
  obtain ⟨rfl, active, behind, running, jobs, started, results⟩ := lined.of_running (by decide) mem
  refine ⟨lined.settled, .underway .awaiting (by decide) active behind ?_ jobs started results,
    lined.weight, lined.count, lined.bound⟩
  simp [setPhase, running]

theorem Lined.settles (lined : Lined options queue) {id : Nat}
    (mem : ⟨id, .awaiting⟩ ∈ queue.running) : Lined options
      { queue.setPhase id .continuing with
        results := queue.results ++ [(id, outcome)]
        microtasks := queue.microtasks ++ [.continueTask id outcome] } := by
  obtain ⟨rfl, active, behind, running, jobs, started, results⟩ := lined.of_running (by decide) mem
  refine ⟨lined.settled, .continuing outcome active behind ?_ ?_ started ?_, lined.weight,
    lined.count, lined.bound⟩
  · simp [setPhase, running]
  · rw [taskJobs, List.filter_append, show queue.microtasks.filter Job.isTask = [] from jobs]
    rfl
  · rw [results]
    rfl

end Queue
end OpenClaw.SerialQueue
