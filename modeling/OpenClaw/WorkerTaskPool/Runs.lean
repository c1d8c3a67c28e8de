import OpenClaw.WorkerTaskPool.Replies

/-!
Every run of the pool: each task is settled at most once and resolved only by a valid
reply to its own input, a worker has at most one input to answer, a rejected task was
answered or its worker has stopped, and no task waits while a slot is free or can be made.
-/

namespace OpenClaw.WorkerTaskPool

open Transition (Reaches Any)

variable {Output : Type} {options : Options} {pool : Pool Output}

namespace Sound

theorem initial (options : Options) : Sound options ({} : Pool Output) :=
  ⟨.initial options, fun closed => absurd rfl closed⟩

theorem run (sound : Sound options pool) (aborted : Option String) :
    Sound options (pool.run options aborted) := by
  rw [Pool.run]
  split
  · rename_i error closed
    exact ⟨sound.refuse error id, fun _ => sound.closed (by simp [closed])⟩
  · rename_i open_
    split
    · rename_i reason
      have fresh := sound.unmade pool.taskCount (Nat.le_refl _)
      have absent : pool.taskCount ∉ pool.queue := fun mem =>
        absurd ((sound.queued _).mp mem).1 (Nat.lt_irrefl _)
      have unqueued : (pool.queue ++ [pool.taskCount]).erase pool.taskCount = pool.queue := by
        rw [List.erase_append_right _ absent, List.erase_cons_head, List.append_nil]
      have eq : Pool.cancel options { pool with
            taskCount := pool.taskCount + 1
            queue := pool.queue ++ [pool.taskCount] } pool.taskCount (Pool.abortError reason) =
          { pool with
            taskCount := pool.taskCount + 1
            taskAt := Function.update pool.taskAt pool.taskCount { done := true }
            settled := pool.settled ++ [(pool.taskCount, .rejected (Pool.abortError reason))]
            dispatching := pool.dispatching + 1 } := by
        simp [Pool.cancel, Pool.finish, fresh, Pool.setTask, Pool.complete, Pool.dispatch, unqueued]
      rw [eq]
      exact ⟨sound.refuse _ fun none => absurd none (Nat.succ_ne_zero _),
        fun closed => absurd open_ closed⟩
    · exact ⟨sound.enqueue, fun closed => absurd open_ closed⟩

theorem leave (sound : Sound options pool)
    (awake : pool.closedError = none → pool.queue ≠ [] →
      options.maxWorkers ≤ pool.slots.length ∧
        ∀ s ∈ pool.slots, (pool.slotAt s).task ≠ none ∨ (pool.slotAt s).retiring = true) :
    Sound options { pool with dispatching := pool.dispatching - 1 } where
  toCore := { sound.toCore with awake := fun _ => awake }
  closed := sound.closed

theorem iterate (sound : Sound options pool) (owes : 0 < pool.dispatching) :
    Sound options (pool.iterate options) := by
  rw [Pool.iterate]
  split
  · rename_i head
    exact sound.leave fun _ waiting => absurd head waiting
  · rename_i t rest head
    split
    · rename_i closed
      refine sound.leave fun open_ => ?_
      rw [open_] at closed
      cases closed
    · rename_i open_
      have open_ : pool.closedError = none := by simpa using open_
      split
      · rename_i s found
        have free := List.find?_some found
        exact ⟨sound.assign (List.mem_of_find?_eq_some found) free head owes,
          fun closed => absurd open_ closed⟩
      · rename_i found
        split
        · rename_i full
          refine sound.leave fun _ _ => ⟨full, fun s mem => ?_⟩
          have busy := List.find?_eq_none.mp found s mem
          simp only [Pool.isFree, Bool.and_eq_true, Option.isNone_iff_eq_none,
            Bool.not_eq_true', not_and, Bool.not_eq_false] at busy
          by_cases none : (pool.slotAt s).task = none
          · exact .inr (busy none)
          · exact .inl none
        · rename_i room
          have grown := sound.addSlot owes (Nat.lt_of_not_le room)
          have fresh := sound.fresh pool.slotCount (Nat.le_refl _)
          refine ⟨grown.assign (List.mem_append_right _ (List.mem_singleton_self _)) ?_ head owes,
            fun closed => absurd open_ closed⟩
          simp [Pool.isFree, fresh]

/-! ### Preparation and posting -/

theorem advance (sound : Sound options pool) {t s : Nat} {phase : Phase}
    (assigned : (pool.taskAt t).slot = some s) (unposted : (pool.taskAt t).phase ≠ .posted) :
    Sound options (pool.setTask t { pool.taskAt t with phase := phase }) :=
  ⟨sound.toCore.advance assigned unposted, sound.closed⟩

theorem prepared (sound : Sound options pool) {t s : Nat}
    (assigned : (pool.taskAt t).slot = some s) (preparing : (pool.taskAt t).phase = .preparing)
    (outcome : Pool.Preparation) : Sound options (pool.prepared options t s outcome) := by
  have unposted : (pool.taskAt t).phase ≠ .posted := by simp [preparing]
  have made := (sound.owned t s assigned).2.1
  have back : Sound options (pool.setTask t { pool.taskAt t with phase := .returned }) :=
    sound.advance assigned unposted
  have onward : Sound options ((pool.setTask t { pool.taskAt t with phase := .transferring }).setSlot
      s { pool.slotAt s with worker := true }) := by
    have hired := (@Core.advance _ _ _ _ sound.toCore t s .transferring assigned
      unposted).hire made
    exact ⟨hired, fun closed => by
      obtain ⟨none, retiring⟩ := sound.closed closed
      refine ⟨none, fun u mem => ?_⟩
      have was := retiring u mem
      simp only [Pool.setSlot, Pool.setTask, Function.update_apply]
      split <;> simp_all⟩
  cases outcome with
  | failed thrown => exact back.fail made _
  | ready noWorker =>
      simp only [Pool.prepared]
      split
      · exact back
      · split
        · exact onward
        · cases noWorker with
          | some thrown => exact back.fail made _
          | none => exact onward

theorem transferred (sound : Sound options pool) {t s : Nat}
    (assigned : (pool.taskAt t).slot = some s)
    (transferring : (pool.taskAt t).phase = .transferring) (thrown : Option String) :
    Sound options (pool.transferred options t s thrown) := by
  have unposted : (pool.taskAt t).phase ≠ .posted := by simp [transferring]
  have made := (sound.owned t s assigned).2.1
  have back : Sound options (pool.setTask t { pool.taskAt t with phase := .returned }) :=
    sound.advance assigned unposted
  cases thrown with
  | some thrown => exact back.fail made _
  | none =>
      simp only [Pool.transferred]
      split
      · exact back
      · rename_i open_
        have posted := sound.toCore.post assigned (by simpa using open_) unposted
        exact ⟨posted, fun closed => by
          obtain ⟨none, retiring⟩ := sound.closed closed
          refine ⟨none, fun u mem => ?_⟩
          have was := retiring u mem
          simp only [Pool.setSlot, Pool.setTask, Function.update_apply]
          split <;> simp_all⟩

/-! ### Replies -/

theorem receive (sound : Sound options pool) {s t : Nat}
    (owed : t ∈ (pool.slotAt s).unanswered) (reply : WorkerReply Output) :
    Sound options (pool.receive options s t reply) := by
  obtain ⟨assigned, posted⟩ := sound.unanswered s t owed
  have made := (sound.owned t s assigned).2.1
  have once : ∀ entry ∈ pool.validating, entry.2.1 ≠ t := fun entry mem same => by
    obtain ⟨here, -, answered, -⟩ := sound.validating entry.1 entry.2.1 entry.2.2 mem
    rw [same, assigned, Option.some.injEq] at here
    exact answered (here ▸ same ▸ owed)
  have replied : Sound options (pool.replied s t reply) :=
    ⟨sound.toCore.reply owed reply, fun closed => by
      obtain ⟨none, retiring⟩ := sound.closed closed
      refine ⟨none, fun u mem => ?_⟩
      have was := retiring u mem
      simp only [Pool.replied, Pool.setSlot, Function.update_apply]
      split <;> simp_all⟩
  have logged : (s, t, reply) ∈ (pool.replied s t reply).replies :=
    List.mem_append_right _ (List.mem_singleton_self _)
  have answered : t ∉ ((pool.replied s t reply).slotAt s).unanswered := by
    have single := sound.single s
    have shorter := List.length_erase_of_mem owed
    have none : (pool.slotAt s).unanswered.erase t = [] := List.length_eq_zero_iff.mp (by omega)
    simp [Pool.replied, Pool.setSlot, none]
  rw [Pool.receive]
  split
  · exact replied
  · rename_i stays
    have stays : (pool.slotAt s).retiring = false := by
      simpa [Pool.replied, Pool.setSlot] using stays
    have held : ((pool.replied s t reply).slotAt s).task = some t := by
      simpa [Pool.replied, Pool.setSlot] using sound.holds_of_owed owed stays
    split
    · exact replied.fail made _
    · rename_i task here
      rw [held, Option.some.injEq] at here
      subst here
      cases reply with
      | malformed => exact replied.fail made _
      | failed error =>
          exact replied.winds (.finish options _ t _ _) (replied.finish_answered (s := s) assigned
            posted answered _ (fun v no => by cases no) fun _ _ => ⟨error, logged⟩)
      | ok value =>
          exact ⟨replied.toCore.validate assigned posted answered logged once, replied.closed⟩

theorem validated [DecidableEq Output] (sound : Sound options pool)
    {entry : Nat × Nat × Output} (mem : entry ∈ pool.validating) (thrown : Option String) :
    Sound options (pool.validated options entry thrown) := by
  obtain ⟨s, t, value⟩ := entry
  obtain ⟨assigned, posted, answered, replied⟩ := sound.validating s t value mem
  have made := (sound.owned t s assigned).2.1
  have removed : Sound options { pool with validating := pool.validating.erase (s, t, value) } :=
    ⟨sound.toCore.unvalidate _, sound.closed⟩
  cases thrown with
  | some thrown => exact removed.fail made _
  | none =>
      have accepted := removed.toCore.accept (s, t, value)
      have closed : Sound options { pool with
          validating := pool.validating.erase (s, t, value)
          accepted := pool.accepted ++ [(s, t, value)] } := ⟨accepted, sound.closed⟩
      refine closed.winds (.finish options _ t _ _) (accepted.finish_answered (s := s) assigned
        posted answered _ (fun v same => ?_) fun _ no => by cases no)
      cases same
      exact ⟨replied, List.mem_append_right _ (List.mem_singleton_self _)⟩

end Sound

/-- A preparation that ends after its task was settled gives no worker an input. -/
theorem unanswered_of_done (sound : Sound options pool) {t s : Nat}
    (assigned : (pool.taskAt t).slot = some s) (done : (pool.taskAt t).done = true)
    (unposted : (pool.taskAt t).phase ≠ .posted) :
    (∀ outcome, (pool.prepared options t s outcome).slotAt = pool.slotAt) ∧
      ∀ thrown, (pool.transferred options t s thrown).slotAt = pool.slotAt := by
  have retiring : (pool.slotAt s).retiring = true := by
    cases (sound.owned t s assigned).2.2.2 done with
    | inl retiring => exact retiring
    | inr posted => exact absurd posted.1 unposted
  have stays (error : PoolError) :
      ((pool.setTask t { pool.taskAt t with phase := .returned }).fail options s error).slotAt =
        pool.slotAt := by
    rw [Pool.fail, if_pos (by simpa [Pool.setTask] using retiring)]
    rfl
  constructor
  · intro outcome
    cases outcome with
    | failed thrown => exact stays _
    | ready noWorker => simp [Pool.prepared, done, Pool.setTask]
  · intro thrown
    cases thrown with
    | some thrown => exact stays _
    | none => simp [Pool.transferred, done, Pool.setTask]

/-! ### The step -/

namespace Sound

theorem terminated (sound : Sound options pool) {s : Nat} (present : s ∈ pool.slots)
    (retiring : (pool.slotAt s).retiring = true) : Sound options (pool.terminated s) where
  toCore := sound.toCore.terminated present retiring
  closed closed := by
    obtain ⟨none, all⟩ := sound.closed closed
    refine ⟨none, fun u mem => ?_⟩
    have was := all u (List.mem_of_mem_erase mem)
    simp only [Pool.terminated, Pool.setSlot, Pool.dispatch, Function.update_apply]
    split <;> simp_all

variable [DecidableEq Output]

theorem step (sound : Sound options pool) {e : Event Output} {next : Pool Output}
    (taken : Pool.step options pool e = some next) : Sound options next := by
  obtain ⟨enabled, rfl⟩ := Pool.step_eq_some.mp taken
  cases e with
  | run aborted => exact sound.run aborted
  | iterate => exact sound.iterate enabled
  | prepared t s outcome => exact sound.prepared enabled.2 enabled.1 outcome
  | transferred t s thrown => exact sound.transferred enabled.2 enabled.1 thrown
  | receive s t reply => exact sound.receive enabled reply
  | validated entry thrown => exact sound.validated enabled thrown
  | workerFails s thrown => exact sound.fail (sound.slotsMade s enabled.1) _
  | timeout t => exact sound.cancel enabled _
  | abort t reason => exact sound.cancel enabled _
  | idleExpires s =>
      have made : s < pool.slotCount := by
        refine Nat.lt_of_not_le fun le => ?_
        have set := enabled
        rw [Pool.Enabled, sound.fresh s le] at set
        cases set
      exact sound.retire made (sound.timers s enabled)
  | terminated s => exact sound.terminated enabled.1 enabled.2
  | settle entry => exact ⟨sound.toCore.settle enabled.1 enabled.2, sound.closed⟩
  | close error => exact sound.close error

theorem of_reaches {ok : Pool Output → Event Output → Prop}
    (run : Transition.Reaches (Pool.step options) ok {} pool) : Sound options pool :=
  run.invariant (initial options) fun _ _ _ sound _ taken => sound.step taken

end Sound

/-! ### The contract -/

section Contract

variable [DecidableEq Output]

/-- No task is settled twice; it is resolved with a value its own worker replied to its
own input and the validation accepted; and if it is rejected after it was assigned, its
worker answered it with a failure or has stopped. -/
theorem settlement_sound (reached : Reaches (Pool.step options) Any ({} : Pool Output) pool) :
    (pool.settled.map Prod.fst).Nodup ∧
    (∀ t value, (t, .resolved value) ∈ pool.settled → ∃ s, (pool.taskAt t).slot = some s ∧
      (s, t, .ok value) ∈ pool.replies ∧ (s, t, value) ∈ pool.accepted) ∧
    ∀ t error s, (t, .rejected error) ∈ pool.settled → (pool.taskAt t).slot = some s →
      s ∉ pool.slots ∨ ∃ message, (s, t, .failed message) ∈ pool.replies := by
  have sound := Sound.of_reaches reached
  refine ⟨?_, sound.resolved, sound.rejected⟩
  have once := sound.settledOnce
  rw [List.map_append] at once
  exact (List.nodup_append.mp once).1

/-- There are at most `maxWorkers` slots, a worker has at most one input to answer and
that of the task on its slot, and an input prepared after its task was settled goes to
no worker. -/
theorem workers_exclusive (reached : Reaches (Pool.step options) Any ({} : Pool Output) pool) :
    pool.slots.length ≤ options.maxWorkers ∧
    (∀ s, (pool.slotAt s).unanswered.length ≤ 1) ∧
    (∀ s t u, (pool.slotAt s).task = some t → u ∈ (pool.slotAt s).unanswered → u = t) ∧
    ∀ t s e next, (∃ outcome, e = .prepared t s outcome) ∨ (∃ thrown, e = .transferred t s thrown) →
      (pool.taskAt t).done = true → Pool.step options pool e = some next →
        next.slotAt = pool.slotAt := by
  have sound := Sound.of_reaches reached
  refine ⟨sound.slotsBounded, sound.single, fun s t u held owed => ?_, ?_⟩
  · have same := sound.holds_of_owed owed (sound.holds s t held).2.2
    rw [held, Option.some.injEq] at same
    exact same.symm
  · intro t s e next start done taken
    obtain ⟨enabled, rfl⟩ := Pool.step_eq_some.mp taken
    cases start with
    | inl prepared =>
        obtain ⟨outcome, rfl⟩ := prepared
        exact (unanswered_of_done sound enabled.2 done (by simp [enabled.1])).1 outcome
    | inr transferred =>
        obtain ⟨thrown, rfl⟩ := transferred
        exact (unanswered_of_done sound enabled.2 done (by simp [enabled.1])).2 thrown

/-- Between events of an open pool a task waits only while all `maxWorkers` slots exist
and each of them has a task or retires. -/
theorem waiting_full (reached : Reaches (Pool.step options) Any ({} : Pool Output) pool)
    (between : pool.dispatching = 0) (open_ : pool.closedError = none)
    (waiting : pool.queue ≠ []) :
    pool.slots.length = options.maxWorkers ∧
      ∀ s ∈ pool.slots, (pool.slotAt s).task ≠ none ∨ (pool.slotAt s).retiring = true := by
  have sound := Sound.of_reaches reached
  obtain ⟨full, busy⟩ := sound.awake between open_ waiting
  exact ⟨Nat.le_antisymm sound.slotsBounded full, busy⟩

/-- A closed pool only has slots to wait for: each of them is retiring, when none is left
each settlement that waited can be made, and then every task ever given to the pool has
been settled once. -/
theorem closed_settles (reached : Reaches (Pool.step options) Any ({} : Pool Output) pool)
    (closed : pool.closedError ≠ none) :
    pool.queue = [] ∧
    (∀ s ∈ pool.slots, pool.Enabled (.terminated s)) ∧
    (pool.slots = [] → ∀ entry ∈ pool.deferred, pool.Enabled (.settle entry)) ∧
    (pool.slots = [] → pool.deferred = [] →
      ∀ t < pool.taskCount, (pool.settled.map Prod.fst).count t = 1) := by
  have sound := Sound.of_reaches reached
  obtain ⟨empty, retiring⟩ := sound.closed closed
  refine ⟨empty, fun s mem => ⟨mem, retiring s mem⟩, fun none entry mem => ⟨mem, ?_⟩, ?_⟩
  · intro s present
    rw [none] at present
    cases present
  · intro none settled t made
    have done : (pool.taskAt t).done = true := by
      by_contra open_
      have open_ : (pool.taskAt t).done = false := by simpa using open_
      cases assigned : (pool.taskAt t).slot with
      | none =>
          have queued := (sound.queued t).mpr ⟨made, open_, assigned⟩
          rw [empty] at queued
          cases queued
      | some s =>
          have held := (sound.owned t s assigned).2.2.1 open_
          have free := (sound.gone s (none ▸ List.not_mem_nil)).1
          rw [held] at free
          cases free
    have once := sound.settledOnce
    have mem := (sound.settledDone t).mpr done
    rw [settled, List.append_nil] at once mem
    exact List.count_eq_one_of_mem once mem

end Contract

/-! ### Runs -/

def exampleOptions : Options := { maxWorkers := 1 }

/-- One worker answers a task; the next is aborted while it runs, and a third waits. -/
def exampleRun : List (Event Nat) :=
  [.run none, .iterate, .iterate, .prepared 0 0 (.ready none), .transferred 0 0 none,
    .receive 0 0 (.ok 7), .validated (0, 0, 7) none, .run none, .iterate, .iterate, .iterate,
    .prepared 1 0 (.ready none), .transferred 1 0 none, .abort 1 "stop", .run none, .iterate]

theorem settlement_sound_run : ∃ pool : Pool Nat,
    Reaches (Pool.step exampleOptions) Any {} pool ∧ ∃ s, (pool.taskAt 0).slot = some s ∧
      (s, 0, .ok 7) ∈ pool.replies ∧ (s, 0, 7) ∈ pool.accepted := by
  obtain ⟨pool, reached, here⟩ := Reaches.exists_of_exec (Pool.step exampleOptions) Any
    ({} : Pool Nat) (P := fun pool => (0, .resolved 7) ∈ pool.settled) exampleRun
    (by decide +kernel) (by decide +kernel)
  exact ⟨pool, reached, (settlement_sound reached).2.1 0 7 here⟩

/-- The aborted input is still the only one its worker has. -/
theorem workers_exclusive_run : ∃ pool : Pool Nat,
    Reaches (Pool.step exampleOptions) Any {} pool ∧ (pool.slotAt 0).unanswered = [1] ∧
      pool.slots.length ≤ 1 ∧ (pool.slotAt 0).unanswered.length ≤ 1 := by
  obtain ⟨pool, reached, here⟩ := Reaches.exists_of_exec (Pool.step exampleOptions) Any
    ({} : Pool Nat) (P := fun pool => (pool.slotAt 0).unanswered = [1]) exampleRun
    (by decide +kernel) (by decide +kernel)
  have exclusive := workers_exclusive reached
  exact ⟨pool, reached, here, exclusive.1, exclusive.2.1 0⟩

theorem waiting_full_run : ∃ pool : Pool Nat,
    Reaches (Pool.step exampleOptions) Any {} pool ∧ pool.queue = [2] ∧ pool.slots.length = 1 ∧
      ∀ s ∈ pool.slots, (pool.slotAt s).task ≠ none ∨ (pool.slotAt s).retiring = true := by
  obtain ⟨pool, reached, between, open_, waiting⟩ := Reaches.exists_of_exec
    (Pool.step exampleOptions) Any ({} : Pool Nat)
    (P := fun pool => pool.dispatching = 0 ∧ pool.closedError = none ∧ pool.queue = [2]) exampleRun
    (by decide +kernel) (by decide +kernel)
  exact ⟨pool, reached, waiting, waiting_full reached between open_ (by simp [waiting])⟩

theorem closed_settles_run : ∃ pool : Pool Nat,
    Reaches (Pool.step exampleOptions) Any {} pool ∧ pool.taskCount = 3 ∧
      ∀ t < pool.taskCount, (pool.settled.map Prod.fst).count t = 1 := by
  obtain ⟨pool, reached, closed, none, settled, count⟩ := Reaches.exists_of_exec
    (Pool.step exampleOptions) Any ({} : Pool Nat)
    (P := fun pool => pool.closedError ≠ none ∧ pool.slots = [] ∧ pool.deferred = [] ∧
      pool.taskCount = 3)
    (exampleRun ++ [.close Pool.closeError, .terminated 0,
      .settle (1, .rejected (Pool.abortError "stop"))])
    (by decide +kernel) (by decide +kernel)
  exact ⟨pool, reached, count, (closed_settles reached closed).2.2.2 none settled⟩

end OpenClaw.WorkerTaskPool
