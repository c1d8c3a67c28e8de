import OpenClaw.WorkerTaskPool.Sound

/-!
What each operation of the pool does to the invariant. Finishing and retiring only give
slots up; a pool that is closed has finished every task and retires every slot; a task is
assigned only to a free slot.
-/

namespace OpenClaw.WorkerTaskPool

variable {Output : Type} {options : Options} {pool : Pool Output} {pending : List Nat}

/-- Nothing is added: slots lose their tasks and begin to retire. -/
structure Winds (before after : Pool Output) : Prop where
  slots : after.slots = before.slots
  slotCount : after.slotCount = before.slotCount
  closedError : after.closedError = before.closedError
  queue : before.queue = [] → after.queue = []
  task : ∀ s, (before.slotAt s).task = none → (after.slotAt s).task = none
  retiring : ∀ s, (before.slotAt s).retiring = true → (after.slotAt s).retiring = true

namespace Winds

theorem refl (pool : Pool Output) : Winds pool pool :=
  ⟨rfl, rfl, rfl, id, fun _ => id, fun _ => id⟩

theorem trans {a b c : Pool Output} (ab : Winds a b) (bc : Winds b c) : Winds a c where
  slots := bc.slots.trans ab.slots
  slotCount := bc.slotCount.trans ab.slotCount
  closedError := bc.closedError.trans ab.closedError
  queue none := bc.queue (ab.queue none)
  task s none := bc.task s (ab.task s none)
  retiring s was := bc.retiring s (ab.retiring s was)

theorem retire (pool : Pool Output) (s : Nat) : Winds pool (pool.retire s) := by
  refine ⟨rfl, rfl, rfl, id, fun u was => ?_, fun u was => ?_⟩ <;>
    simp only [Pool.retire, Pool.setSlot, Function.update_apply] <;> split <;> simp_all

theorem finish (options : Options) (pool : Pool Output) (t : Nat) (outcome : Settlement Output)
    (retires : Bool) : Winds pool (pool.finish options t outcome retires) := by
  cases done : (pool.taskAt t).done with
  | true =>
      rw [Core.finish_done done]
      exact refl pool
  | false =>
      cases assigned : (pool.taskAt t).slot with
      | none =>
          simp only [Pool.finish, done, Pool.setTask, Function.update_self, assigned,
            Pool.complete, Pool.dispatch]
          exact ⟨rfl, rfl, rfl, fun none => by simp [none], fun _ => id, fun _ => id⟩
      | some s =>
          simp only [Pool.finish, done, Pool.setTask, Function.update_self, assigned,
            Pool.complete, Pool.dispatch, Pool.setSlot, Pool.retire, Pool.idle,
            Function.update_idem]
          cases retires <;>
            refine ⟨rfl, rfl, rfl, fun none => by simp [none], fun u was => ?_, fun u was => ?_⟩ <;>
            simp [Function.update_apply] <;> split <;> simp_all

end Winds

/-! ### Retiring a free slot -/

namespace Core

theorem retire (core : Core options pending pool) {s : Nat} (made : s < pool.slotCount)
    (free : (pool.slotAt s).task = none) : Core options pending (pool.retire s) := by
  have eq : pool.retire s = { pool with slotAt := vacate pool.slotAt s false true } := by
    simp only [Pool.retire, Pool.setSlot, vacate, ← free]
  rw [eq]
  constructor <;> simp only [task_vacate, unanswered_vacate, retiring_vacate, idleTimer_vacate]
  case slotsNodup => exact core.slotsNodup
  case slotsMade => exact core.slotsMade
  case slotsBounded => exact core.slotsBounded
  case gone => grind [core.gone]
  case fresh =>
    intro u fresh
    exact (Function.update_of_ne (by omega) _ _).trans (core.fresh u fresh)
  case queueNodup => exact core.queueNodup
  case queued => exact core.queued
  case unmade => exact core.unmade
  case holds => grind [core.holds]
  case owned =>
    intro u v assigned
    have was := core.owned u v assigned
    grind
  case unassigned => exact core.unassigned
  case unanswered => exact core.unanswered
  case single => exact core.single
  case timers => grind [core.timers]
  case validating => exact core.validating
  case validatingOnce => exact core.validatingOnce
  case settledOnce => exact core.settledOnce
  case settledDone => exact core.settledDone
  case deferred => grind [core.deferred]
  case resolved => exact core.resolved
  case rejected => exact core.rejected
  case awake =>
    intro none open_ waiting
    obtain ⟨full, busy⟩ := core.awake none open_ waiting
    refine ⟨full, fun u mem => ?_⟩
    by_cases same : u = s
    · simp [same]
    · simpa [same] using busy u mem

end Core

/-! ### Closing -/

/-- The invariant between events: a closed pool has an empty queue and retires all its
slots. -/
structure Sound (options : Options) (pool : Pool Output) : Prop extends
    Core options [] pool where
  closed : pool.closedError ≠ none →
    pool.queue = [] ∧ ∀ s ∈ pool.slots, (pool.slotAt s).retiring = true

theorem Sound.winds (sound : Sound options pool) {after : Pool Output} (winds : Winds pool after)
    (core : Core options [] after) : Sound options after where
  toCore := core
  closed closed := by
    rw [winds.closedError] at closed
    obtain ⟨none, retiring⟩ := sound.closed closed
    refine ⟨winds.queue none, fun s mem => ?_⟩
    rw [winds.slots] at mem
    exact winds.retiring s (retiring s mem)

namespace Core

/-- The tasks taken out of the queue are finished one by one. -/
theorem close_queue {queue : List Nat} (core : Core options queue pool) (error : PoolError) :
    Core options [] (queue.foldl (fun pool t =>
      pool.finish options t (.rejected error) false) pool) ∧
    Winds pool (queue.foldl (fun pool t =>
      pool.finish options t (.rejected error) false) pool) := by
  induction queue generalizing pool with
  | nil => exact ⟨core, .refl pool⟩
  | cons t rest ih =>
      obtain ⟨made, -, slotless⟩ := (core.queued t).mp (List.mem_cons_self ..)
      have next := core.finish_queued made slotless error false
      rw [List.erase_cons_head] at next
      obtain ⟨final, winds⟩ := ih next
      exact ⟨final, (Winds.finish options pool t _ _).trans winds⟩

/-- The slot is left without a task. -/
theorem task_closeSlot (core : Core options pending pool) (error : PoolError) (s : Nat) :
    ((pool.closeSlot options error s).slotAt s).task = none := by
  rw [Pool.closeSlot]
  cases held : (pool.slotAt s).task with
  | none => exact held
  | some t =>
      obtain ⟨assigned, open_, -⟩ := core.holds s t held
      simp [Pool.finish, open_, Pool.setTask, assigned, Pool.retire, Pool.setSlot]

theorem closeSlot (core : Core options pending pool) (error : PoolError) (s : Nat) :
    Core options pending (pool.closeSlot options error s) ∧
      Winds pool (pool.closeSlot options error s) := by
  rw [Pool.closeSlot]
  cases held : (pool.slotAt s).task with
  | none => exact ⟨core, .refl pool⟩
  | some t =>
      exact ⟨core.finish_retiring (core.holds s t held).1 error,
        Winds.finish options pool t _ _⟩

theorem close_slots (core : Core options pending pool) (error : PoolError) (slots : List Nat) :
    Core options pending (slots.foldl (Pool.closeSlot options error) pool) ∧
      Winds pool (slots.foldl (Pool.closeSlot options error) pool) ∧
      ∀ s ∈ slots, ((slots.foldl (Pool.closeSlot options error) pool).slotAt s).task = none := by
  induction slots generalizing pool with
  | nil => exact ⟨core, .refl pool, fun s mem => by cases mem⟩
  | cons s rest ih =>
      obtain ⟨next, first⟩ := core.closeSlot error s
      obtain ⟨final, winds, free⟩ := ih next
      refine ⟨final, first.trans winds, fun u mem => ?_⟩
      cases List.mem_cons.mp mem with
      | inl here => exact here ▸ winds.task s (core.task_closeSlot error s)
      | inr there => exact free u there

theorem retire_slots {slots : List Nat} (core : Core options pending pool)
    (free : ∀ s ∈ slots, s < pool.slotCount ∧ (pool.slotAt s).task = none) :
    Core options pending (slots.foldl Pool.retire pool) ∧
      Winds pool (slots.foldl Pool.retire pool) ∧
      ∀ s ∈ slots, ((slots.foldl Pool.retire pool).slotAt s).retiring = true := by
  induction slots generalizing pool with
  | nil => exact ⟨core, .refl pool, fun s mem => by cases mem⟩
  | cons s rest ih =>
      obtain ⟨made, none⟩ := free s List.mem_cons_self
      have first := Winds.retire pool s
      obtain ⟨final, winds, retiring⟩ := ih (core.retire made none) fun u mem =>
        (free u (List.mem_cons_of_mem s mem)).imp_right (first.task u)
      refine ⟨final, first.trans winds, fun u mem => ?_⟩
      cases List.mem_cons.mp mem with
      | inl here =>
          subst here
          exact winds.retiring u (by simp [Pool.retire, Pool.setSlot])
      | inr there => exact retiring u there

/-- Closing takes the queue out and shuts the pool in one go. -/
theorem shut (core : Core options [] pool) (error : PoolError) :
    Core options pool.queue { pool with closedError := some error, queue := [] } where
  slotsNodup := core.slotsNodup
  slotsMade := core.slotsMade
  slotsBounded := core.slotsBounded
  gone := core.gone
  fresh := core.fresh
  queueNodup := by simpa using core.queueNodup
  queued := by simpa using core.queued
  unmade := core.unmade
  holds := core.holds
  owned := core.owned
  unassigned := core.unassigned
  unanswered := core.unanswered
  single := core.single
  timers := core.timers
  validating := core.validating
  validatingOnce := core.validatingOnce
  settledOnce := core.settledOnce
  settledDone := core.settledDone
  deferred := core.deferred
  resolved := core.resolved
  rejected := core.rejected
  awake _ open_ := by cases open_

end Core

namespace Sound

theorem close (sound : Sound options pool) (error : PoolError) :
    Sound options (pool.close options error) := by
  rw [Pool.close]
  have first := (sound.toCore.shut (pool.closedError.getD error)).close_queue
    (pool.closedError.getD error)
  generalize List.foldl _ _ pool.queue = unqueued at first ⊢
  have second := first.1.close_slots (pool.closedError.getD error) unqueued.slots
  generalize List.foldl _ unqueued unqueued.slots = finished at second ⊢
  obtain ⟨final, third, retiring⟩ := second.1.retire_slots fun s mem =>
    ⟨second.1.slotsMade s mem, second.2.2 s (second.2.1.slots ▸ mem)⟩
  exact ⟨final, fun _ => ⟨third.queue (second.2.1.queue (first.2.queue rfl)),
    fun s mem => retiring s (third.slots ▸ mem)⟩⟩

theorem retire (sound : Sound options pool) {s : Nat} (made : s < pool.slotCount)
    (free : (pool.slotAt s).task = none) : Sound options (pool.retire s) :=
  sound.winds (.retire pool s) (sound.toCore.retire made free)

theorem fail (sound : Sound options pool) {s : Nat} (made : s < pool.slotCount)
    (error : PoolError) : Sound options (pool.fail options s error) := by
  rw [Pool.fail]
  split
  · exact sound
  · split
    · exact sound.close error
    · cases held : (pool.slotAt s).task with
      | some t =>
          exact sound.winds (.finish options pool t _ _)
            (sound.finish_retiring (sound.holds s t held).1 error)
      | none => exact sound.retire made held

theorem cancel (sound : Sound options pool) {t : Nat} (made : t < pool.taskCount)
    (error : PoolError) : Sound options (pool.cancel options t error) := by
  rw [Pool.cancel]
  split
  · exact sound
  · cases assigned : (pool.taskAt t).slot with
    | some s => exact sound.fail (sound.owned t s assigned).2.1 error
    | none =>
        exact sound.winds (.finish options pool t _ _)
          (sound.finish_queued made assigned error false)

end Sound

namespace Core

/-! ### Calls of `run` -/

/-- A task that is rejected without ever being queued. -/
theorem refuse (core : Core options [] pool) (error : PoolError) {dispatching : Nat}
    (owes : dispatching = 0 → pool.dispatching = 0) :
    Core options [] { pool with
      taskCount := pool.taskCount + 1
      taskAt := Function.update pool.taskAt pool.taskCount { done := true }
      settled := pool.settled ++ [(pool.taskCount, .rejected error)]
      dispatching := dispatching } := by
  have fresh := core.unmade pool.taskCount (Nat.le_refl _)
  have unsettled : pool.taskCount ∉ (pool.settled ++ pool.deferred).map Prod.fst := fun mem => by
    rw [core.settledDone, fresh] at mem
    cases mem
  have absent : pool.taskCount ∉ pool.queue := fun mem => by
    have := ((core.queued _).mp mem).1
    omega
  have eq : Function.update pool.taskAt pool.taskCount { done := true } =
      markDone pool.taskAt pool.taskCount := by rw [markDone, fresh]
  rw [eq]
  constructor <;> simp only [slot_markDone, phase_markDone, done_markDone]
  case slotsNodup => exact core.slotsNodup
  case slotsMade => exact core.slotsMade
  case slotsBounded => exact core.slotsBounded
  case gone => exact core.gone
  case fresh => exact core.fresh
  case queueNodup => exact core.queueNodup
  case queued =>
    intro t
    have was := core.queued t
    have unmade := core.unmade t
    by_cases here : t = pool.taskCount
    · subst here
      simpa using absent
    · simp only [here, decide_false, Bool.false_or]
      grind
  case unmade =>
    intro t fresh
    exact (markDone_of_ne (by omega)).trans (core.unmade t (by omega))
  case holds => grind [core.holds, core.owned]
  case owned =>
    intro t s assigned
    have was := core.owned t s assigned
    grind
  case unassigned => exact core.unassigned
  case unanswered => exact core.unanswered
  case single => exact core.single
  case timers => exact core.timers
  case validating => exact core.validating
  case validatingOnce => exact core.validatingOnce
  case settledOnce => grind [core.settledOnce]
  case settledDone =>
    intro t
    have was := core.settledDone t
    simp only [List.map_append, List.map_cons, List.map_nil, List.mem_append,
      List.mem_singleton] at was ⊢
    grind
  case deferred => exact core.deferred
  case resolved => grind [core.resolved]
  case rejected => grind [core.rejected]
  case awake => exact fun none => core.awake (owes none)

theorem enqueue (core : Core options [] pool) :
    Core options [] { pool with
      taskCount := pool.taskCount + 1
      queue := pool.queue ++ [pool.taskCount]
      dispatching := pool.dispatching + 1 } := by
  have fresh := core.unmade pool.taskCount (Nat.le_refl _)
  have absent : pool.taskCount ∉ pool.queue := fun mem => by
    have := ((core.queued _).mp mem).1
    omega
  exact { core with
    queueNodup := by
      have nodup := core.queueNodup
      rw [List.nil_append] at nodup ⊢
      exact List.nodup_append.mpr ⟨nodup, List.nodup_singleton _, by grind⟩
    queued := fun t => by
      have was := core.queued t
      simp only [List.nil_append, List.mem_append, List.mem_singleton] at was ⊢
      rcases Nat.lt_trichotomy t pool.taskCount with lt | rfl | gt
      · grind
      · simp [fresh]
      · grind
    unmade := fun t le => core.unmade t (Nat.le_of_succ_le le)
    owned := fun t s assigned => by
      have was := core.owned t s assigned
      exact ⟨Nat.lt_succ_of_lt was.1, was.2⟩
    awake := fun none => absurd none (Nat.succ_ne_zero _) }

/-! ### Assignment -/

theorem addSlot (core : Core options [] pool) (owes : 0 < pool.dispatching)
    (room : pool.slots.length < options.maxWorkers) :
    Core options [] { pool with
      slots := pool.slots ++ [pool.slotCount]
      slotCount := pool.slotCount + 1 } := by
  have absent : pool.slotCount ∉ pool.slots := fun mem => by
    have := core.slotsMade _ mem
    omega
  have fresh := core.fresh pool.slotCount (Nat.le_refl _)
  exact { core with
    slotsNodup := List.nodup_append.mpr ⟨core.slotsNodup, List.nodup_singleton _, by grind⟩
    slotsMade := fun s mem => by
      cases List.mem_append.mp mem with
      | inl old => exact Nat.lt_succ_of_lt (core.slotsMade s old)
      | inr new => exact List.mem_singleton.mp new ▸ Nat.lt_succ_self _
    slotsBounded := by simpa using Nat.succ_le_of_lt room
    gone := fun s out => by
      have was := core.gone s (fun mem => out (List.mem_append_left _ mem))
      grind
    fresh := fun s le => core.fresh s (Nat.le_of_succ_le le)
    owned := fun t s assigned => by
      have was := core.owned t s assigned
      exact ⟨was.1, Nat.lt_succ_of_lt was.2.1, was.2.2⟩
    rejected := fun t error s mem assigned => by
      have was := core.rejected t error s mem assigned
      have made := (core.owned t s assigned).2.1
      grind
    awake := fun none => absurd none (Nat.ne_of_gt owes) }

theorem assign (core : Core options [] pool) {s t : Nat} {rest : List Nat}
    (present : s ∈ pool.slots) (free : pool.isFree s = true) (head : pool.queue = t :: rest)
    (owes : 0 < pool.dispatching) : Core options [] (pool.assign s t rest) := by
  obtain ⟨made, open_, slotless⟩ := (core.queued t).mp (by simp [head])
  have made' := core.slotsMade s present
  simp only [Pool.isFree, Bool.and_eq_true, Option.isNone_iff_eq_none, Bool.not_eq_true',
    ] at free
  obtain ⟨idle, stays⟩ := free
  have nodup : (t :: rest).Nodup := head ▸ core.queueNodup
  have queuedPhase := core.unassigned t slotless
  simp only [Pool.assign, Pool.setSlot, Pool.setTask]
  constructor
  case slotsNodup => exact core.slotsNodup
  case slotsMade => exact core.slotsMade
  case slotsBounded => exact core.slotsBounded
  case gone => grind [core.gone, Function.update_apply]
  case fresh =>
    intro u fresh
    exact (Function.update_of_ne (by grind) _ _).trans (core.fresh u fresh)
  case queueNodup => exact nodup.of_cons
  case queued =>
    intro u
    have was := core.queued u
    rw [head] at was
    grind [Function.update_apply]
  case unmade =>
    intro u fresh
    exact (Function.update_of_ne (by grind) _ _).trans (core.unmade u fresh)
  case holds => grind [core.holds, Function.update_apply]
  case owned =>
    intro u v assigned
    have was := core.owned u v
    grind [Function.update_apply]
  case unassigned => grind [core.unassigned, Function.update_apply]
  case unanswered => grind [core.unanswered, Function.update_apply]
  case single =>
    intro u
    have was := core.single u
    grind [Function.update_apply]
  case timers => grind [core.timers, Function.update_apply]
  case validating =>
    intro u w v mem
    have was := core.validating u w v mem
    grind [Function.update_apply]
  case validatingOnce => exact core.validatingOnce
  case settledOnce => exact core.settledOnce
  case settledDone =>
    intro u
    have was := core.settledDone u
    grind [Function.update_apply]
  case deferred => grind [core.deferred, Function.update_apply]
  case resolved => grind [core.resolved, Function.update_apply]
  case rejected =>
    intro u error v mem assigned
    have done := (core.settledDone u).mp (List.mem_map_of_mem (List.mem_append_left _ mem))
    have was := core.rejected u error v mem
    grind [Function.update_apply]
  case awake => exact fun none => absurd none (Nat.ne_of_gt owes)

end Core

end OpenClaw.WorkerTaskPool
