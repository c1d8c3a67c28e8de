import OpenClaw.WorkerTaskPool.Pool
import Mathlib.Tactic.Cases

/-!
The invariant of the pool. A slot and its unfinished task point at each other, a task
that was finished while assigned has a slot that retires or has answered it, and every
task that is done has one settlement, made or waiting for its slot.
-/

namespace OpenClaw.WorkerTaskPool

variable {Output : Type} {options : Options} {pool : Pool Output} {pending : List Nat}

/-- `pending` are the tasks `close` has taken out of the queue and not yet finished. -/
structure Core (options : Options) (pending : List Nat) (pool : Pool Output) : Prop where
  slotsNodup : pool.slots.Nodup
  slotsMade : ∀ s ∈ pool.slots, s < pool.slotCount
  slotsBounded : pool.slots.length ≤ options.maxWorkers
  gone : ∀ s, s ∉ pool.slots → (pool.slotAt s).task = none ∧
    (pool.slotAt s).unanswered = [] ∧ (s < pool.slotCount → (pool.slotAt s).retiring = true)
  fresh : ∀ s, pool.slotCount ≤ s → pool.slotAt s = {}
  queueNodup : (pending ++ pool.queue).Nodup
  queued : ∀ t, t ∈ pending ++ pool.queue ↔
    t < pool.taskCount ∧ (pool.taskAt t).done = false ∧ (pool.taskAt t).slot = none
  unmade : ∀ t, pool.taskCount ≤ t → pool.taskAt t = {}
  holds : ∀ s t, (pool.slotAt s).task = some t → (pool.taskAt t).slot = some s ∧
    (pool.taskAt t).done = false ∧ (pool.slotAt s).retiring = false
  owned : ∀ t s, (pool.taskAt t).slot = some s → t < pool.taskCount ∧ s < pool.slotCount ∧
    ((pool.taskAt t).done = false → (pool.slotAt s).task = some t) ∧
    ((pool.taskAt t).done = true → (pool.slotAt s).retiring = true ∨
      (pool.taskAt t).phase = .posted ∧ t ∉ (pool.slotAt s).unanswered)
  unassigned : ∀ t, (pool.taskAt t).slot = none → (pool.taskAt t).phase = .queued
  unanswered : ∀ s t, t ∈ (pool.slotAt s).unanswered →
    (pool.taskAt t).slot = some s ∧ (pool.taskAt t).phase = .posted
  single : ∀ s, (pool.slotAt s).unanswered.length ≤ 1
  timers : ∀ s, (pool.slotAt s).idleTimer = true → (pool.slotAt s).task = none
  validating : ∀ s t v, (s, t, v) ∈ pool.validating → (pool.taskAt t).slot = some s ∧
    (pool.taskAt t).phase = .posted ∧ t ∉ (pool.slotAt s).unanswered ∧
    (s, t, .ok v) ∈ pool.replies
  validatingOnce : (pool.validating.map fun entry => entry.2.1).Nodup
  settledOnce : ((pool.settled ++ pool.deferred).map Prod.fst).Nodup
  settledDone : ∀ t, t ∈ (pool.settled ++ pool.deferred).map Prod.fst ↔
    (pool.taskAt t).done = true
  deferred : ∀ t outcome, (t, outcome) ∈ pool.deferred → ∃ s error,
    (pool.taskAt t).slot = some s ∧ (pool.slotAt s).retiring = true ∧ outcome = .rejected error
  resolved : ∀ t v, (t, .resolved v) ∈ pool.settled → ∃ s, (pool.taskAt t).slot = some s ∧
    (s, t, .ok v) ∈ pool.replies ∧ (s, t, v) ∈ pool.accepted
  rejected : ∀ t error s, (t, .rejected error) ∈ pool.settled → (pool.taskAt t).slot = some s →
    s ∉ pool.slots ∨ ∃ message, (s, t, .failed message) ∈ pool.replies
  awake : pool.dispatching = 0 → pool.closedError = none → pool.queue ≠ [] →
    options.maxWorkers ≤ pool.slots.length ∧
      ∀ s ∈ pool.slots, (pool.slotAt s).task ≠ none ∨ (pool.slotAt s).retiring = true

/-! ### Finished tasks and released slots -/

def markDone (tasks : Nat → Task) (t : Nat) : Nat → Task :=
  Function.update tasks t { tasks t with done := true }

section MarkDone

variable (tasks : Nat → Task) (t u : Nat)

theorem slot_markDone : (markDone tasks t u).slot = (tasks u).slot := by
  rw [markDone, Function.update_apply]
  split <;> simp_all

theorem phase_markDone : (markDone tasks t u).phase = (tasks u).phase := by
  rw [markDone, Function.update_apply]
  split <;> simp_all

theorem done_markDone : (markDone tasks t u).done = (decide (u = t) || (tasks u).done) := by
  rw [markDone, Function.update_apply]
  split <;> simp_all

variable {tasks t u}

theorem markDone_of_ne (other : u ≠ t) : markDone tasks t u = tasks u :=
  Function.update_of_ne other _ _

end MarkDone

/-- The slot without its task. -/
def vacate (slots : Nat → Slot) (s : Nat) (timer retires : Bool) : Nat → Slot :=
  Function.update slots s
    { slots s with task := none, idleTimer := timer, retiring := retires }

section Vacate

variable (slots : Nat → Slot) (s u : Nat) (timer retires : Bool)

theorem task_vacate :
    (vacate slots s timer retires u).task = if u = s then none else (slots u).task := by
  rw [vacate, Function.update_apply]
  split <;> rfl

theorem unanswered_vacate : (vacate slots s timer retires u).unanswered = (slots u).unanswered := by
  rw [vacate, Function.update_apply]
  split <;> simp_all

theorem retiring_vacate :
    (vacate slots s timer retires u).retiring = if u = s then retires else (slots u).retiring := by
  rw [vacate, Function.update_apply]
  split <;> rfl

theorem idleTimer_vacate :
    (vacate slots s timer retires u).idleTimer = if u = s then timer else (slots u).idleTimer := by
  rw [vacate, Function.update_apply]
  split <;> rfl

end Vacate

namespace Core

theorem initial (options : Options) : Core options [] ({} : Pool Output) := by
  constructor <;> simp

theorem not_settled (core : Core options pending pool) {t : Nat}
    (open_ : (pool.taskAt t).done = false) :
    t ∉ (pool.settled ++ pool.deferred).map Prod.fst := fun mem => by
  rw [core.settledDone, open_] at mem
  cases mem

theorem not_pending (core : Core options pending pool) {t : Nat}
    (done : (pool.taskAt t).done = true) : t ∉ pending := fun mem => by
  have queued := ((core.queued t).mp (List.mem_append_left _ mem)).2.1
  rw [done] at queued
  cases queued

theorem mem_erase_queue (core : Core options pending pool) {t u : Nat} :
    u ∈ pending.erase t ++ pool.queue.erase t ↔ u ≠ t ∧ u ∈ pending ++ pool.queue := by
  have nodup := List.nodup_append.mp core.queueNodup
  rw [List.mem_append, nodup.1.mem_erase_iff, nodup.2.1.mem_erase_iff, List.mem_append, and_or_left]

/-- The tasks left to `queued` when one of them is finished. -/
theorem queued_markDone (core : Core options pending pool) (t u : Nat) :
    u ∈ pending.erase t ++ pool.queue.erase t ↔ u < pool.taskCount ∧
      (markDone pool.taskAt t u).done = false ∧ (markDone pool.taskAt t u).slot = none := by
  rw [core.mem_erase_queue, core.queued, done_markDone, slot_markDone]
  grind

theorem finish_queued (core : Core options pending pool) {t : Nat} (made : t < pool.taskCount)
    (slotless : (pool.taskAt t).slot = none) (error : PoolError) (retires : Bool) :
    Core options (pending.erase t) (pool.finish options t (.rejected error) retires) := by
  cases done : (pool.taskAt t).done with
  | true =>
      rw [List.erase_of_not_mem (core.not_pending done), Pool.finish, if_pos done]
      exact core
  | false =>
      have eq : pool.finish options t (.rejected error) retires =
          { pool with
            taskAt := markDone pool.taskAt t
            queue := pool.queue.erase t
            settled := pool.settled ++ [(t, .rejected error)]
            dispatching := pool.dispatching + 1 } := by
        simp [Pool.finish, done, Pool.setTask, slotless, Pool.complete, Pool.dispatch, markDone]
      have unsettled := core.not_settled done
      have nodup := List.nodup_append.mp core.queueNodup
      rw [eq]
      constructor <;> simp only [slot_markDone, phase_markDone, done_markDone]
      case slotsNodup => exact core.slotsNodup
      case slotsMade => exact core.slotsMade
      case slotsBounded => exact core.slotsBounded
      case gone => exact core.gone
      case fresh => exact core.fresh
      case queueNodup => grind [List.Nodup.erase]
      case queued => simpa only [slot_markDone, done_markDone] using core.queued_markDone t
      case unmade => exact fun u fresh => (markDone_of_ne (by omega)).trans (core.unmade u fresh)
      case holds => grind [core.holds]
      case owned =>
        intro u s assigned
        have was := core.owned u s assigned
        grind
      case unassigned => exact core.unassigned
      case unanswered => exact core.unanswered
      case single => exact core.single
      case timers => exact core.timers
      case validating => exact core.validating
      case validatingOnce => exact core.validatingOnce
      case settledOnce => grind [core.settledOnce]
      case settledDone =>
        intro u
        have was := core.settledDone u
        simp only [List.map_append, List.map_cons, List.map_nil, List.mem_append,
          List.mem_singleton] at was ⊢
        grind
      case deferred => exact core.deferred
      case resolved => grind [core.resolved]
      case rejected => grind [core.rejected]
      case awake => grind

/-- A task that has a slot is in no queue. -/
theorem not_queued (core : Core options pending pool) {t s : Nat}
    (assigned : (pool.taskAt t).slot = some s) : t ∉ pending ++ pool.queue := fun mem => by
  have slotless := ((core.queued t).mp mem).2.2
  rw [assigned] at slotless
  cases slotless

/-- An assigned task is finished and its slot given up, whatever becomes of the slot. -/
theorem vacated (core : Core options pending pool) {t s dispatching : Nat}
    {settled deferred : List (Nat × Settlement Output)} {timer retires : Bool}
    (assigned : (pool.taskAt t).slot = some s) (done : (pool.taskAt t).done = false)
    (answered : retires = true ∨
      (pool.taskAt t).phase = .posted ∧ t ∉ (pool.slotAt s).unanswered)
    (settledOnce : ((settled ++ deferred).map Prod.fst).Nodup)
    (settledDone : ∀ u, u ∈ (settled ++ deferred).map Prod.fst ↔
      u = t ∨ u ∈ (pool.settled ++ pool.deferred).map Prod.fst)
    (deferred_ : ∀ u outcome, (u, outcome) ∈ deferred → (u, outcome) ∈ pool.deferred ∨
      u = t ∧ retires = true ∧ ∃ error, outcome = .rejected error)
    (resolved : ∀ u v, (u, .resolved v) ∈ settled → (u, .resolved v) ∈ pool.settled ∨
      u = t ∧ (s, t, .ok v) ∈ pool.replies ∧ (s, t, v) ∈ pool.accepted)
    (rejected : ∀ u error, (u, .rejected error) ∈ settled → (u, .rejected error) ∈ pool.settled ∨
      u = t ∧ ∃ message, (s, t, .failed message) ∈ pool.replies)
    (awake : dispatching = 0 → pool.dispatching = 0 ∧ retires = true) :
    Core options pending
      { pool with
        taskAt := markDone pool.taskAt t
        slotAt := vacate pool.slotAt s timer retires
        settled := settled
        deferred := deferred
        dispatching := dispatching } := by
  have own := core.owned t s assigned
  have holds := core.holds s t (own.2.2.1 done)
  have unqueued := core.not_queued assigned
  have present : s ∈ pool.slots := by
    by_contra absent
    rw [(core.gone s absent).1] at own
    cases own.2.2.1 done
  have made : s < pool.slotCount := core.slotsMade s present
  constructor <;> simp only [slot_markDone, phase_markDone, done_markDone, task_vacate,
    unanswered_vacate, retiring_vacate, idleTimer_vacate]
  case slotsNodup => exact core.slotsNodup
  case slotsMade => exact core.slotsMade
  case slotsBounded => exact core.slotsBounded
  case gone => grind [core.gone]
  case fresh =>
    intro u fresh
    exact (Function.update_of_ne (by omega) _ _).trans (core.fresh u fresh)
  case queueNodup => exact core.queueNodup
  case queued => grind [core.queued]
  case unmade =>
    intro u fresh
    exact (markDone_of_ne (by omega)).trans (core.unmade u fresh)
  case holds => grind [core.holds]
  case owned =>
    intro u v assigned
    have was := core.owned u v assigned
    grind
  case unassigned => exact core.unassigned
  case unanswered => exact core.unanswered
  case single => exact core.single
  case timers => grind [core.timers]
  case validating => exact core.validating
  case validatingOnce => exact core.validatingOnce
  case settledOnce => exact settledOnce
  case settledDone =>
    intro u
    rw [settledDone, core.settledDone, Bool.or_eq_true, decide_eq_true_eq]
  case deferred =>
    intro u outcome mem
    cases deferred_ u outcome mem with
    | inl old => grind [core.deferred]
    | inr new => exact ⟨s, new.2.2.choose, new.1 ▸ assigned, by simp [new.2.1],
        new.2.2.choose_spec⟩
  case resolved =>
    intro u v mem
    cases resolved u v mem with
    | inl old => exact core.resolved u v old
    | inr new => exact ⟨s, new.1 ▸ assigned, new.1 ▸ new.2⟩
  case rejected =>
    intro u error v mem here
    cases rejected u error mem with
    | inl old => exact core.rejected u error v old here
    | inr new =>
        obtain ⟨rfl, message, reply⟩ := new
        rw [assigned, Option.some.injEq] at here
        exact .inr ⟨message, here ▸ reply⟩
  case awake =>
    intro none open_ waiting
    obtain ⟨idle, rfl⟩ := awake none
    obtain ⟨full, busy⟩ := core.awake idle open_ waiting
    refine ⟨full, fun u mem => ?_⟩
    by_cases same : u = s
    · simp [same]
    · simpa [same] using busy u mem

theorem finish_done {t : Nat} (done : (pool.taskAt t).done = true) (outcome : Settlement Output)
    (retires : Bool) : pool.finish options t outcome retires = pool := by
  rw [Pool.finish, if_pos done]

/-- A task whose slot is to retire waits for it with its settlement. -/
theorem finish_retiring (core : Core options pending pool) {t s : Nat}
    (assigned : (pool.taskAt t).slot = some s) (error : PoolError) :
    Core options pending (pool.finish options t (.rejected error) true) := by
  cases done : (pool.taskAt t).done with
  | true => rwa [finish_done done]
  | false =>
      have unqueued : pool.queue.erase t = pool.queue := List.erase_of_not_mem fun mem =>
        core.not_queued assigned (List.mem_append_right _ mem)
      have unsettled := core.not_settled done
      have eq : pool.finish options t (.rejected error) true =
          { pool with
            taskAt := markDone pool.taskAt t
            slotAt := vacate pool.slotAt s false true
            deferred := pool.deferred ++ [(t, .rejected error)] } := by
        simp [Pool.finish, done, Pool.setTask, Pool.setSlot, Pool.retire, assigned, markDone,
          vacate, unqueued]
      rw [eq]
      refine core.vacated assigned done (.inl rfl) ?_ ?_ ?_ (fun _ _ old => .inl old)
        (fun _ _ old => .inl old) fun none => ⟨none, rfl⟩
      · grind [core.settledOnce]
      · intro u
        simp only [List.map_append, List.map_cons, List.map_nil, List.mem_append,
          List.mem_singleton]
        grind
      · intro u outcome mem
        cases List.mem_append.mp mem with
        | inl old => exact .inl old
        | inr new =>
            cases List.mem_singleton.mp new
            exact .inr ⟨rfl, rfl, error, rfl⟩

/-- A task its worker has answered is settled at once and its slot takes the next. -/
theorem finish_answered (core : Core options pending pool) {t s : Nat}
    (assigned : (pool.taskAt t).slot = some s) (posted : (pool.taskAt t).phase = .posted)
    (replied : t ∉ (pool.slotAt s).unanswered) (outcome : Settlement Output)
    (valid : ∀ v, outcome = .resolved v →
      (s, t, .ok v) ∈ pool.replies ∧ (s, t, v) ∈ pool.accepted)
    (failed : ∀ error, outcome = .rejected error →
      ∃ message, (s, t, .failed message) ∈ pool.replies) :
    Core options pending (pool.finish options t outcome false) := by
  cases done : (pool.taskAt t).done with
  | true => rwa [finish_done done]
  | false =>
      have holds := core.holds s t ((core.owned t s assigned).2.2.1 done)
      have unqueued : pool.queue.erase t = pool.queue := List.erase_of_not_mem fun mem =>
        core.not_queued assigned (List.mem_append_right _ mem)
      have unsettled := core.not_settled done
      have eq : pool.finish options t outcome false =
          { pool with
            taskAt := markDone pool.taskAt t
            slotAt := vacate pool.slotAt s
              ((pool.slotAt s).idleTimer || decide (0 < options.idleTimeoutMs)) false
            settled := pool.settled ++ [(t, outcome)]
            dispatching := pool.dispatching + 1 } := by
        simp [Pool.finish, done, Pool.setTask, Pool.setSlot, Pool.idle, Pool.complete,
          Pool.dispatch, assigned, markDone, vacate, unqueued, holds.2.2]
      rw [eq]
      refine core.vacated assigned done (.inr ⟨posted, replied⟩) ?_ ?_ (fun _ _ old => .inl old)
        ?_ ?_ fun none => absurd none (Nat.succ_ne_zero _)
      · grind [core.settledOnce]
      · intro u
        simp only [List.map_append, List.map_cons, List.map_nil, List.mem_append,
          List.mem_singleton]
        grind
      · intro u v mem
        cases List.mem_append.mp mem with
        | inl old => exact .inl old
        | inr new =>
            cases List.mem_singleton.mp new
            exact .inr ⟨rfl, valid v rfl⟩
      · intro u error mem
        cases List.mem_append.mp mem with
        | inl old => exact .inl old
        | inr new =>
            cases List.mem_singleton.mp new
            exact .inr ⟨rfl, failed error rfl⟩

end Core

end OpenClaw.WorkerTaskPool
