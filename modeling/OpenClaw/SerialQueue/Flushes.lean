import OpenClaw.Lib.KeyedLists
import OpenClaw.SerialQueue.Stages

/-!
The promises behind a flush. Completions settle in the order of the tasks, and so do the
prefixes after them; a flush that requires success is checked once its prefix is fulfilled.
-/

namespace OpenClaw.SerialQueue

variable {ε α : Type} {options : Options} {queue after : Queue ε α} {id n : Nat}
  {outcome : Except ε α}

/-- The last of so many tasks. -/
def lastOf (accepted : Nat) : Option Nat := if accepted = 0 then none else some (accepted - 1)

namespace Queue

structure Called (queue : Queue ε α) : Prop where
  last : queue.settledPrefix = lastOf queue.accepted
  order : queue.fulfilled ++ queue.microtasks.filterMap Job.settling =
    List.range queue.completions.length
  made : ∀ call ∈ queue.flushes, call.accepted ≤ queue.accepted ∧ call.awaited = lastOf call.accepted
  due : ∀ i, .checkFailed i ∈ queue.microtasks →
    ∃ call, queue.flushes[i]? = some call ∧ call.requireSuccess = true ∧
      queue.isFulfilled call.awaited = true
  waits : ∀ wait ∈ queue.waiting, wait.1 ∉ queue.fulfilled ∧
    ∃ call, queue.flushes[wait.2]? = some call ∧ call.requireSuccess = true ∧
      call.awaited = some wait.1
  undecided : ∀ i call, queue.flushes[i]? = some call → call.requireSuccess = true →
    call.outcome = none → .checkFailed i ∈ queue.microtasks ∨
      ∃ id, call.awaited = some id ∧ (id, i) ∈ queue.waiting
  failure : queue.failed = true ↔ ∃ id, queue.hasFailed id

theorem called_create : Called (create : Queue ε α) where
  last := rfl
  order := rfl
  made _ mem := by cases mem
  due _ mem := by cases mem
  waits _ mem := by cases mem
  undecided i call found := by simp [create] at found
  failure := by simp [create, hasFailed]

theorem isFulfilled_iff {awaited : Option Nat} :
    queue.isFulfilled awaited = true ↔ ∀ id ∈ awaited, id ∈ queue.fulfilled := by
  cases awaited <;> simp [isFulfilled]

theorem Called.fulfilled_eq (called : queue.Called) :
    queue.fulfilled = List.range queue.fulfilled.length := by
  have taken := congrArg (List.take queue.fulfilled.length) called.order
  have length := congrArg List.length called.order
  rw [List.length_append, List.length_range] at length
  rw [List.take_left', List.take_range, Nat.min_eq_left (by omega)] at taken
  · exact taken
  · rfl

/-- A fulfilled prefix lies behind the completions. -/
theorem Called.lt_of_fulfilled (called : queue.Called) (mem : id ∈ queue.fulfilled) :
    id < queue.completions.length := by
  have inside : id ∈ List.range queue.completions.length := by
    rw [← called.order]
    exact List.mem_append_left _ mem
  exact List.mem_range.mp inside

theorem Called.lt_of_isFulfilled (called : queue.Called)
    (done : queue.isFulfilled (lastOf n) = true) (below : id < n) : id < queue.completions.length := by
  have positive : n ≠ 0 := by omega
  rw [lastOf, if_neg positive, isFulfilled_iff] at done
  have := called.lt_of_fulfilled (done (n - 1) rfl)
  omega

theorem Called.isFulfilled_of_le (called : queue.Called) (idle : queue.microtasks = [])
    (settled : n ≤ queue.completions.length) : queue.isFulfilled (lastOf n) = true := by
  have all := called.order
  rw [idle, List.filterMap_nil, List.append_nil] at all
  rw [isFulfilled_iff, all, lastOf]
  intro id mem
  split at mem
  case isTrue => cases mem
  case isFalse positive =>
    obtain rfl := Option.mem_some_iff.mp mem
    exact List.mem_range.mpr (by omega)

theorem hasSettled_iff (settled : queue.completions.map Prod.fst = List.range queue.completions.length) :
    queue.hasSettled id ↔ id < queue.completions.length := by
  rw [← List.mem_range, ← settled, List.mem_map]
  constructor
  · rintro ⟨outcome, mem⟩
    exact ⟨(id, outcome), mem, rfl⟩
  · rintro ⟨⟨_, outcome⟩, mem, rfl⟩
    exact ⟨outcome, mem⟩

/-- Steps of tasks and jobs of tasks leave the flushes alone. -/
theorem Called.congr (called : queue.Called) (prefix_ : after.settledPrefix = queue.settledPrefix)
    (accepted : after.accepted = queue.accepted) (fulfilled : after.fulfilled = queue.fulfilled)
    (waiting : after.waiting = queue.waiting) (flushes : after.flushes = queue.flushes)
    (completions : after.completions = queue.completions) (failed : after.failed = queue.failed)
    (settling : after.microtasks.filterMap Job.settling = queue.microtasks.filterMap Job.settling)
    (checks : ∀ i, .checkFailed i ∈ after.microtasks ↔ .checkFailed i ∈ queue.microtasks) :
    after.Called where
  last := by rw [prefix_, accepted, called.last]
  order := by rw [fulfilled, settling, completions, called.order]
  made := by
    rw [flushes, accepted]
    exact called.made
  due i mem := by
    obtain ⟨call, found, required, done⟩ := called.due i ((checks i).mp mem)
    exact ⟨call, by rw [flushes, found], required, by rw [isFulfilled, fulfilled]; exact done⟩
  waits := by
    rw [waiting, fulfilled, flushes]
    exact called.waits
  undecided i call found := by
    rw [flushes] at found
    rw [checks, waiting]
    exact called.undecided i call found
  failure := by
    rw [failed, called.failure]
    simp only [hasFailed, completions]

theorem Called.enqueue (called : queue.Called) (weight : Nat) (sealOnOverflow : Bool) :
    (queue.enqueue options weight sealOnOverflow).1.Called := by
  have admitted {after : Queue ε α} (last : after.settledPrefix = some queue.accepted)
      (accepted : after.accepted = queue.accepted + 1) (fulfilled : after.fulfilled = queue.fulfilled)
      (waiting : after.waiting = queue.waiting) (flushes : after.flushes = queue.flushes)
      (completions : after.completions = queue.completions) (failed : after.failed = queue.failed)
      (microtasks : after.microtasks = queue.microtasks) : after.Called := by
    have base : ({ after with
        settledPrefix := queue.settledPrefix, accepted := queue.accepted } : Queue ε α).Called :=
      called.congr rfl rfl fulfilled waiting flushes completions failed (by rw [microtasks])
        fun i => by rw [microtasks]
    refine ⟨?_, base.order, ?_, base.due, base.waits, base.undecided, base.failure⟩
    · rw [last, accepted, lastOf, if_neg (Nat.succ_ne_zero _)]
      rfl
    · intro call mem
      obtain ⟨before, awaited⟩ := base.made call mem
      exact ⟨before.trans (by rw [accepted]; exact Nat.le_succ _), awaited⟩
  rw [Queue.enqueue]
  split
  case isTrue => exact called
  split
  case isTrue =>
    split
    case isTrue => exact called.congr rfl rfl rfl rfl rfl rfl rfl rfl fun _ => Iff.rfl
    case isFalse => exact called
  case isFalse =>
    dsimp only
    split
    case isTrue => exact admitted rfl rfl rfl rfl rfl rfl rfl rfl
    case isFalse => exact admitted rfl rfl rfl rfl rfl rfl rfl rfl

/-- A flush is noted, with the job that checks it or the prefix it waits for. -/
theorem Called.record (called : queue.Called) {call : Flush ε} {jobs : List (Job ε α)}
    {waits : List (Nat × Nat)} (accepted : call.accepted = queue.accepted)
    (awaited : call.awaited = queue.settledPrefix)
    (checked : ∀ job ∈ jobs, job = .checkFailed queue.flushes.length ∧
      call.requireSuccess = true ∧ queue.isFulfilled call.awaited = true)
    (waited : ∀ wait ∈ waits, wait.2 = queue.flushes.length ∧ call.requireSuccess = true ∧
      call.awaited = some wait.1 ∧ wait.1 ∉ queue.fulfilled)
    (either : call.requireSuccess = true → jobs ≠ [] ∨ waits ≠ []) :
    ({ queue with
      flushes := queue.flushes ++ [call]
      microtasks := queue.microtasks ++ jobs
      waiting := queue.waiting ++ waits } : Queue ε α).Called where
  last := called.last
  order := by
    have none : jobs.filterMap Job.settling = [] := by
      refine List.filterMap_eq_nil_iff.mpr fun job mem => ?_
      rw [(checked job mem).1]
      rfl
    simp only [List.filterMap_append, none, List.append_nil]
    exact called.order
  made := by
    intro other mem
    rcases List.mem_append.mp mem with old | new
    · exact called.made other old
    · rw [List.mem_singleton.mp new, accepted, awaited]
      exact ⟨le_rfl, called.last⟩
  due i mem := by
    rcases List.mem_append.mp mem with old | new
    · obtain ⟨other, found, rest⟩ := called.due i old
      exact ⟨other, List.getElem?_concat_eq_some.mpr (.inl found), rest⟩
    · obtain ⟨same, rest⟩ := checked _ new
      cases same
      exact ⟨call, List.getElem?_concat_eq_some.mpr (.inr ⟨rfl, rfl⟩), rest⟩
  waits wait mem := by
    rcases List.mem_append.mp mem with old | new
    · obtain ⟨absent, other, found, rest⟩ := called.waits wait old
      exact ⟨absent, other, List.getElem?_concat_eq_some.mpr (.inl found), rest⟩
    · obtain ⟨last, required, same, absent⟩ := waited wait new
      exact ⟨absent, call, List.getElem?_concat_eq_some.mpr (.inr ⟨last, rfl⟩), required, same⟩
  undecided i other found required open_ := by
    rcases List.getElem?_concat_eq_some.mp found with old | ⟨rfl, rfl⟩
    · rcases called.undecided i other old required open_ with job | ⟨id, same, mem⟩
      · exact .inl (List.mem_append_left _ job)
      · exact .inr ⟨id, same, List.mem_append_left _ mem⟩
    · rcases either required with some | some
      · obtain ⟨job, mem⟩ := List.exists_mem_of_ne_nil _ some
        exact .inl (List.mem_append_right _ ((checked job mem).1 ▸ mem))
      · obtain ⟨⟨id, last⟩, mem⟩ := List.exists_mem_of_ne_nil _ some
        obtain ⟨rfl, -, same, -⟩ := waited _ mem
        exact .inr ⟨id, same, List.mem_append_right _ mem⟩
  failure := called.failure

theorem Called.flush (called : queue.Called) (requireSuccess : Bool) :
    (queue.flush requireSuccess).Called := by
  have record := fun {jobs waits} => @Called.record _ _ _ called
    { requireSuccess, awaited := queue.settledPrefix, accepted := queue.accepted, outcome := none }
    jobs waits rfl rfl
  cases requireSuccess with
  | false =>
      have plain := @record [] [] (fun _ mem => absurd mem List.not_mem_nil)
        (fun _ mem => absurd mem List.not_mem_nil) (fun required => Bool.noConfusion required)
      rw [List.append_nil, List.append_nil] at plain
      exact plain
  | true =>
      cases awaited : queue.settledPrefix with
      | none =>
          have checked := @record [.checkFailed queue.flushes.length] [] (fun job mem =>
            ⟨List.mem_singleton.mp mem, rfl, by rw [awaited]; rfl⟩)
            (fun _ mem => absurd mem List.not_mem_nil) (fun _ => .inl (List.cons_ne_nil _ _))
          rw [List.append_nil, awaited] at checked
          rw [Queue.flush, awaited]
          exact checked
      | some id =>
          by_cases done : queue.fulfilled.contains id = true
          · have checked := @record [.checkFailed queue.flushes.length] [] (fun job mem =>
              ⟨List.mem_singleton.mp mem, rfl, by rw [awaited]; exact done⟩)
              (fun _ mem => absurd mem List.not_mem_nil) (fun _ => .inl (List.cons_ne_nil _ _))
            rw [List.append_nil, awaited] at checked
            rw [Queue.flush, awaited]
            simp only [Bool.not_true, Bool.false_eq_true, if_false, if_pos done]
            exact checked
          · have waited := @record [] [(id, queue.flushes.length)]
              (fun _ mem => absurd mem List.not_mem_nil) (fun wait mem => by
                rw [List.mem_singleton.mp mem]
                exact ⟨rfl, rfl, awaited, fun mem => done (List.contains_iff_mem.mpr mem)⟩)
              (fun _ => .inr (List.cons_ne_nil _ _))
            rw [List.append_nil, awaited] at waited
            rw [Queue.flush, awaited]
            simp only [Bool.not_true, Bool.false_eq_true, if_false, if_neg done]
            exact waited

/-- A task settles, and the handlers of its completion are queued. -/
theorem Called.settle (called : queue.Called) :
    (queue.settle queue.completions.length outcome).Called where
  last := called.last
  order := by
    simp only [Queue.settle, List.filterMap_append, List.length_append, List.length_singleton,
      List.range_succ, ← List.append_assoc, called.order]
    rfl
  made := called.made
  due i mem := by
    rcases List.mem_append.mp mem with old | new
    · exact called.due i old
    · simp at new
  waits := called.waits
  undecided i call found required open_ :=
    (called.undecided i call found required open_).imp_left (List.mem_append_left _)
  failure := by
    have split : (∃ id, (queue.settle queue.completions.length outcome).hasFailed id) ↔
        (∃ id, queue.hasFailed id) ∨ ∃ error, outcome = .error error := by
      simp only [hasFailed, Queue.settle, List.mem_append, List.mem_singleton, Prod.mk.injEq]
      constructor
      · rintro ⟨id, error, old | ⟨-, rfl⟩⟩
        · exact .inl ⟨id, error, old⟩
        · exact .inr ⟨error, rfl⟩
      · rintro (⟨id, error, old⟩ | ⟨error, rfl⟩)
        · exact ⟨id, error, .inl old⟩
        · exact ⟨_, error, .inr ⟨rfl, rfl⟩⟩
    rw [split, ← called.failure]
    cases outcome with
    | ok value => simp [Queue.settle]
    | error error => simp [Queue.settle]

theorem Called.handOver (called : queue.Called) : queue.handOver.Called := by
  cases pending : queue.pending with
  | nil =>
      rw [handOver_nil pending]
      exact called.congr rfl rfl rfl rfl rfl rfl rfl rfl fun _ => Iff.rfl
  | cons next rest =>
      rw [handOver_cons pending]
      refine called.congr rfl rfl rfl rfl rfl rfl rfl ?_ fun i => ?_
      · rw [List.filterMap_append]
        exact List.append_nil _
      · simp

/-- The handlers of a completion run: its prefix is fulfilled, and flushes that waited are due. -/
theorem Called.perform_settle (called : queue.Called) {rest : List (Job ε α)}
    (head : queue.microtasks = .settlePrefix id :: rest) :
    (({ queue with microtasks := rest } : Queue ε α).perform (.settlePrefix id)).Called where
  last := called.last
  order := by
    have order := called.order
    have none : ((queue.waiting.filter fun wait => wait.1 = id).map fun wait =>
        (Job.checkFailed wait.2 : Job ε α)).filterMap Job.settling = [] := by
      refine List.filterMap_eq_nil_iff.mpr fun job mem => ?_
      obtain ⟨wait, -, rfl⟩ := List.mem_map.mp mem
      rfl
    have first : (Job.settlePrefix id :: rest).filterMap Job.settling =
        id :: rest.filterMap Job.settling := rfl
    rw [head, first] at order
    simp only [perform, List.filterMap_append, none, List.append_nil, List.append_assoc,
      List.singleton_append]
    exact order
  made := called.made
  due i mem := by
    rcases List.mem_append.mp mem with old | new
    · obtain ⟨call, found, required, done⟩ := called.due i (head ▸ List.mem_cons_of_mem _ old)
      refine ⟨call, found, required, ?_⟩
      rw [isFulfilled_iff] at done ⊢
      exact fun id mem => List.mem_append_left _ (done id mem)
    · obtain ⟨wait, kept, same⟩ := List.mem_map.mp new
      obtain ⟨mem, here⟩ := List.mem_filter.mp kept
      obtain ⟨-, call, found, required, awaited⟩ := called.waits wait mem
      cases same
      refine ⟨call, found, required, ?_⟩
      rw [isFulfilled_iff, awaited]
      rintro _ ⟨⟩
      exact List.mem_append_right _ (List.mem_singleton.mpr (of_decide_eq_true here))
  waits wait mem := by
    obtain ⟨mem, other⟩ := List.mem_filter.mp mem
    obtain ⟨absent, rest⟩ := called.waits wait mem
    refine ⟨fun done => ?_, rest⟩
    rcases List.mem_append.mp done with old | new
    · exact absent old
    · exact of_decide_eq_true other (List.mem_singleton.mp new)
  undecided i call found required open_ := by
    rcases called.undecided i call found required open_ with job | ⟨other, awaited, mem⟩
    · rw [head] at job
      refine .inl (List.mem_append_left _ ((List.mem_cons.mp job).resolve_left (by rintro ⟨⟩)))
    · by_cases here : other = id
      · refine .inl (List.mem_append_right _ (List.mem_map.mpr ⟨(other, i), ?_, rfl⟩))
        exact List.mem_filter.mpr ⟨mem, decide_eq_true here⟩
      · exact .inr ⟨other, awaited, List.mem_filter.mpr ⟨mem, decide_eq_true here⟩⟩
  failure := called.failure

/-- A due flush is decided; nothing else that is known of it changes. -/
theorem Called.perform_check (called : queue.Called) {flush : Nat} {rest : List (Job ε α)}
    (head : queue.microtasks = .checkFailed flush :: rest) :
    (({ queue with microtasks := rest } : Queue ε α).perform (.checkFailed flush)).Called := by
  have kept : ∀ {j : Nat} {call : Flush ε}, queue.flushes[j]? = some call →
      ∃ call', (({ queue with microtasks := rest } : Queue ε α).perform
          (.checkFailed flush)).flushes[j]? = some call' ∧ call'.awaited = call.awaited ∧
            call'.requireSuccess = call.requireSuccess := by
    intro j call found
    refine ⟨_, List.getElem?_modify_eq_some.mpr ⟨call, found, rfl⟩, ?_⟩
    split <;> exact ⟨rfl, rfl⟩
  have old : ∀ {j : Nat} {call' : Flush ε}, (({ queue with microtasks := rest } : Queue ε α).perform
        (.checkFailed flush)).flushes[j]? = some call' →
      ∃ call, queue.flushes[j]? = some call ∧ call'.awaited = call.awaited ∧
        call'.accepted = call.accepted ∧ call'.requireSuccess = call.requireSuccess ∧
          (call'.outcome = none → call.outcome = none ∧ flush ≠ j) := by
    intro j call' found
    obtain ⟨call, before, rfl⟩ := List.getElem?_modify_eq_some.mp found
    refine ⟨call, before, ?_⟩
    by_cases here : flush = j
    · rw [if_pos here]
      refine ⟨rfl, rfl, rfl, fun open_ => ?_⟩
      cases decided : call.outcome <;> simp [decided] at open_
    · rw [if_neg here]
      exact ⟨rfl, rfl, rfl, fun open_ => ⟨open_, here⟩⟩
  refine ⟨called.last, ?_, ?_, ?_, ?_, ?_, called.failure⟩
  · have order := called.order
    rw [head] at order
    exact order
  · intro call' mem
    obtain ⟨j, found⟩ := List.mem_iff_getElem?.mp mem
    obtain ⟨call, before, awaited, accepted, -⟩ := old found
    rw [awaited, accepted]
    exact called.made call (List.mem_of_getElem? before)
  · intro i mem
    obtain ⟨call, found, required, done⟩ := called.due i (head ▸ List.mem_cons_of_mem _ mem)
    obtain ⟨call', found', awaited, same⟩ := kept found
    exact ⟨call', found', same.trans required, by rw [awaited]; exact done⟩
  · intro wait mem
    obtain ⟨absent, call, found, required, here⟩ := called.waits wait mem
    obtain ⟨call', found', awaited, same⟩ := kept found
    exact ⟨absent, call', found', same.trans required, awaited.trans here⟩
  · intro i call' found required open_
    obtain ⟨call, before, awaited, -, same, decided⟩ := old found
    obtain ⟨undecided, other⟩ := decided open_
    rw [awaited]
    refine (called.undecided i call before (same ▸ required) undecided).imp_left fun job => ?_
    rw [head] at job
    refine (List.mem_cons.mp job).resolve_left fun first => other ?_
    cases first
    rfl

/-- The job of a task is taken from the microtasks. -/
theorem Called.take_task (called : queue.Called) {job : Job ε α} {rest : List (Job ε α)}
    (task : job.isTask = true) (head : queue.microtasks = job :: rest) :
    ({ queue with microtasks := rest } : Queue ε α).Called := by
  refine called.congr rfl rfl rfl rfl rfl rfl rfl ?_ fun i => ?_
  · rw [head]
    cases job with
    | startTask _ | continueTask _ _ => rfl
    | settlePrefix _ | checkFailed _ => cases task
  · rw [head, List.mem_cons]
    refine ⟨.inr, fun either => either.resolve_left fun same => ?_⟩
    rw [← same] at task
    cases task

end Queue
end OpenClaw.SerialQueue
