import OpenClaw.WorkerTaskPool.Steps

/-!
The worker's side of the pool: an input is posted once, to a slot whose worker owes no
answer; a reply answers the task that is on the slot; a slot that has stopped lets the
settlement that waited for it go.
-/

namespace OpenClaw.WorkerTaskPool

variable {Output : Type} {options : Options} {pool : Pool Output} {pending : List Nat}

namespace Core

/-- Slots that stay busy or retiring keep the pool awake. -/
theorem awake_of (core : Core options pending pool) {slotAt : Nat → Slot}
    (kept : ∀ s, (pool.slotAt s).task ≠ none ∨ (pool.slotAt s).retiring = true →
      (slotAt s).task ≠ none ∨ (slotAt s).retiring = true) :
    pool.dispatching = 0 → pool.closedError = none → pool.queue ≠ [] →
      options.maxWorkers ≤ pool.slots.length ∧
        ∀ s ∈ pool.slots, (slotAt s).task ≠ none ∨ (slotAt s).retiring = true := by
  intro none open_ waiting
  obtain ⟨full, busy⟩ := core.awake none open_ waiting
  exact ⟨full, fun s mem => kept s (busy s mem)⟩

/-! ### Preparing and posting -/

/-- `start` goes on with a task that was assigned and whose input was not posted. -/
theorem advance (core : Core options pending pool) {t s : Nat} {phase : Phase}
    (assigned : (pool.taskAt t).slot = some s) (unposted : (pool.taskAt t).phase ≠ .posted) :
    Core options pending (pool.setTask t { pool.taskAt t with phase := phase }) := by
  have own := core.owned t s assigned
  rw [Pool.setTask]
  constructor
  case slotsNodup => exact core.slotsNodup
  case slotsMade => exact core.slotsMade
  case slotsBounded => exact core.slotsBounded
  case gone => exact core.gone
  case fresh => exact core.fresh
  case queueNodup => exact core.queueNodup
  case queued =>
    intro u
    have was := core.queued u
    grind [Function.update_apply]
  case unmade =>
    intro u fresh
    exact (Function.update_of_ne (by grind) _ _).trans (core.unmade u fresh)
  case holds => grind [core.holds, Function.update_apply]
  case owned =>
    intro u v assigned
    have was := core.owned u v
    grind [Function.update_apply]
  case unassigned => grind [core.unassigned, Function.update_apply]
  case unanswered => grind [core.unanswered, Function.update_apply]
  case single => exact core.single
  case timers => exact core.timers
  case validating =>
    intro u w v mem
    have was := core.validating u w v mem
    grind [Function.update_apply]
  case validatingOnce => exact core.validatingOnce
  case settledOnce => exact core.settledOnce
  case settledDone =>
    intro u
    have was := core.settledDone u
    grind [Function.update_apply]
  case deferred => grind [core.deferred, Function.update_apply]
  case resolved => grind [core.resolved, Function.update_apply]
  case rejected =>
    intro u error v mem assigned
    have was := core.rejected u error v mem
    grind [Function.update_apply]
  case awake => exact core.awake

/-- The slot changes in nothing the invariant is about. -/
theorem hire (core : Core options pending pool) {s : Nat} (made : s < pool.slotCount) :
    Core options pending (pool.setSlot s { pool.slotAt s with worker := true }) := by
  rw [Pool.setSlot]
  constructor
  case slotsNodup => exact core.slotsNodup
  case slotsMade => exact core.slotsMade
  case slotsBounded => exact core.slotsBounded
  case gone =>
    intro u out
    have was := core.gone u out
    grind [Function.update_apply]
  case fresh =>
    intro u fresh
    exact (Function.update_of_ne (by grind) _ _).trans (core.fresh u fresh)
  case queueNodup => exact core.queueNodup
  case queued => exact core.queued
  case unmade => exact core.unmade
  case holds => grind [core.holds, Function.update_apply]
  case owned =>
    intro u v assigned
    have was := core.owned u v assigned
    grind [Function.update_apply]
  case unassigned => exact core.unassigned
  case unanswered => grind [core.unanswered, Function.update_apply]
  case single =>
    intro u
    have was := core.single u
    grind [Function.update_apply]
  case timers => grind [core.timers, Function.update_apply]
  case validating =>
    intro u w v mem
    have was := core.validating u w v mem
    grind [Function.update_apply]
  case validatingOnce => exact core.validatingOnce
  case settledOnce => exact core.settledOnce
  case settledDone => exact core.settledDone
  case deferred => grind [core.deferred, Function.update_apply]
  case resolved => exact core.resolved
  case rejected => exact core.rejected
  case awake => exact core.awake_of fun u => by grind [Function.update_apply]

/-- A worker that is given an input has answered all it had. -/
theorem answered_of_open (core : Core options pending pool) {t s : Nat}
    (assigned : (pool.taskAt t).slot = some s) (open_ : (pool.taskAt t).done = false)
    (unposted : (pool.taskAt t).phase ≠ .posted) : (pool.slotAt s).unanswered = [] := by
  have held := (core.owned t s assigned).2.2.1 open_
  refine List.eq_nil_iff_forall_not_mem.mpr fun u mem => ?_
  obtain ⟨here, posted⟩ := core.unanswered s u mem
  have own := core.owned u s here
  cases done : (pool.taskAt u).done with
  | false =>
      have same := own.2.2.1 done
      rw [held, Option.some.injEq] at same
      exact unposted (same ▸ posted)
  | true =>
      have stays := (core.holds s t held).2.2
      cases own.2.2.2 done with
      | inl retiring =>
          rw [stays] at retiring
          cases retiring
      | inr answered => exact answered.2 mem

theorem post (core : Core options pending pool) {t s : Nat}
    (assigned : (pool.taskAt t).slot = some s) (open_ : (pool.taskAt t).done = false)
    (unposted : (pool.taskAt t).phase ≠ .posted) :
    Core options pending ((pool.setTask t { pool.taskAt t with phase := .posted }).setSlot s
      { pool.slotAt s with unanswered := (pool.slotAt s).unanswered ++ [t] }) := by
  have own := core.owned t s assigned
  have held := own.2.2.1 open_
  have holds := core.holds s t held
  have none := core.answered_of_open assigned open_ unposted
  rw [none, Pool.setTask, Pool.setSlot, List.nil_append]
  constructor
  case slotsNodup => exact core.slotsNodup
  case slotsMade => exact core.slotsMade
  case slotsBounded => exact core.slotsBounded
  case gone =>
    intro u out
    have was := core.gone u out
    grind [Function.update_apply]
  case fresh =>
    intro u fresh
    exact (Function.update_of_ne (by grind) _ _).trans (core.fresh u fresh)
  case queueNodup => exact core.queueNodup
  case queued =>
    intro u
    have was := core.queued u
    grind [Function.update_apply]
  case unmade =>
    intro u fresh
    exact (Function.update_of_ne (by grind) _ _).trans (core.unmade u fresh)
  case holds => grind [core.holds, Function.update_apply]
  case owned =>
    intro u v assigned
    have was := core.owned u v
    grind [Function.update_apply]
  case unassigned => grind [core.unassigned, Function.update_apply]
  case unanswered =>
    intro u w
    have was := core.unanswered u w
    grind [Function.update_apply]
  case single =>
    intro u
    have was := core.single u
    grind [Function.update_apply]
  case timers => grind [core.timers, Function.update_apply]
  case validating =>
    intro u w v mem
    have was := core.validating u w v mem
    grind [Function.update_apply]
  case validatingOnce => exact core.validatingOnce
  case settledOnce => exact core.settledOnce
  case settledDone =>
    intro u
    have was := core.settledDone u
    grind [Function.update_apply]
  case deferred => grind [core.deferred, Function.update_apply]
  case resolved => grind [core.resolved, Function.update_apply]
  case rejected =>
    intro u error v mem assigned
    have was := core.rejected u error v mem
    grind [Function.update_apply]
  case awake => exact core.awake_of fun u => by grind [Function.update_apply]

/-! ### Replies -/

theorem reply (core : Core options pending pool) {s t : Nat}
    (owed : t ∈ (pool.slotAt s).unanswered) (reply : WorkerReply Output) :
    Core options pending (pool.replied s t reply) := by
  have single := core.single s
  have mem_erase : ∀ u, u ∈ (pool.slotAt s).unanswered.erase t → u ∈ (pool.slotAt s).unanswered :=
    fun u mem => List.mem_of_mem_erase mem
  have made := (core.owned t s (core.unanswered s t owed).1).2.1
  have le := List.length_erase_le (a := t) (l := (pool.slotAt s).unanswered)
  rw [Pool.replied, Pool.setSlot]
  constructor
  case slotsNodup => exact core.slotsNodup
  case slotsMade => exact core.slotsMade
  case slotsBounded => exact core.slotsBounded
  case gone =>
    intro u out
    have was := core.gone u out
    grind [Function.update_apply]
  case fresh =>
    intro u fresh
    exact (Function.update_of_ne (by grind) _ _).trans (core.fresh u fresh)
  case queueNodup => exact core.queueNodup
  case queued => exact core.queued
  case unmade => exact core.unmade
  case holds => grind [core.holds, Function.update_apply]
  case owned =>
    intro u v assigned
    have was := core.owned u v assigned
    grind [Function.update_apply]
  case unassigned => exact core.unassigned
  case unanswered =>
    intro u w
    have was := core.unanswered u w
    grind [Function.update_apply]
  case single =>
    intro u
    have was := core.single u
    grind [Function.update_apply]
  case timers => grind [core.timers, Function.update_apply]
  case validating =>
    intro u w v mem
    have was := core.validating u w v mem
    grind [Function.update_apply]
  case validatingOnce => exact core.validatingOnce
  case settledOnce => exact core.settledOnce
  case settledDone => exact core.settledDone
  case deferred => grind [core.deferred, Function.update_apply]
  case resolved =>
    intro u v mem
    have was := core.resolved u v mem
    grind
  case rejected =>
    intro u error v mem assigned
    have was := core.rejected u error v mem assigned
    grind
  case awake => exact core.awake_of fun u => by grind [Function.update_apply]

/-- The reply comes from the task on the slot, unless the slot retires. -/
theorem holds_of_owed (core : Core options pending pool) {s t : Nat}
    (owed : t ∈ (pool.slotAt s).unanswered) (stays : (pool.slotAt s).retiring = false) :
    (pool.slotAt s).task = some t := by
  have assigned := (core.unanswered s t owed).1
  have own := core.owned t s assigned
  cases done : (pool.taskAt t).done with
  | false => exact own.2.2.1 done
  | true =>
      cases own.2.2.2 done with
      | inl retiring =>
          rw [stays] at retiring
          cases retiring
      | inr answered => exact absurd owed answered.2

theorem validate (core : Core options pending pool) {s t : Nat} {value : Output}
    (assigned : (pool.taskAt t).slot = some s) (posted : (pool.taskAt t).phase = .posted)
    (answered : t ∉ (pool.slotAt s).unanswered) (replied : (s, t, .ok value) ∈ pool.replies)
    (once : ∀ entry ∈ pool.validating, entry.2.1 ≠ t) :
    Core options pending { pool with validating := pool.validating ++ [(s, t, value)] } :=
  { core with
    validating := fun u w v mem => by
      cases List.mem_append.mp mem with
      | inl old => exact core.validating u w v old
      | inr new =>
          cases List.mem_singleton.mp new
          exact ⟨assigned, posted, answered, replied⟩
    validatingOnce := by
      rw [List.map_append, List.map_singleton]
      refine List.nodup_append.mpr ⟨core.validatingOnce, List.nodup_singleton _, ?_⟩
      intro u mem v here
      obtain ⟨entry, old, rfl⟩ := List.mem_map.mp mem
      exact List.mem_singleton.mp here ▸ once entry old }

theorem unvalidate [DecidableEq Output] (core : Core options pending pool)
    (entry : Nat × Nat × Output) :
    Core options pending { pool with validating := pool.validating.erase entry } :=
  { core with
    validating := fun u w v mem => core.validating u w v (List.mem_of_mem_erase mem)
    validatingOnce := core.validatingOnce.sublist (List.erase_sublist.map _) }

theorem accept (core : Core options pending pool) (entry : Nat × Nat × Output) :
    Core options pending { pool with accepted := pool.accepted ++ [entry] } :=
  { core with
    resolved := fun t v mem => by
      obtain ⟨s, assigned, replied, accepted⟩ := core.resolved t v mem
      exact ⟨s, assigned, replied, List.mem_append_left _ accepted⟩ }

/-! ### The end of a slot -/

theorem terminated (core : Core options [] pool) {s : Nat} (present : s ∈ pool.slots)
    (retiring : (pool.slotAt s).retiring = true) : Core options [] (pool.terminated s) := by
  have made := core.slotsMade s present
  have free : (pool.slotAt s).task = none := by
    cases held : (pool.slotAt s).task with
    | none => rfl
    | some t =>
        have stays := (core.holds s t held).2.2
        rw [retiring] at stays
        cases stays
  simp only [Pool.terminated, Pool.setSlot, Pool.dispatch]
  constructor
  case slotsNodup => exact core.slotsNodup.erase s
  case slotsMade => exact fun u mem => core.slotsMade u (List.mem_of_mem_erase mem)
  case slotsBounded => exact Nat.le_trans List.length_erase_le core.slotsBounded
  case gone =>
    intro u out
    have was := core.gone u
    have mem_erase := core.slotsNodup.mem_erase_iff (a := u) (b := s)
    grind [Function.update_apply]
  case fresh =>
    intro u fresh
    exact (Function.update_of_ne (by grind) _ _).trans (core.fresh u fresh)
  case queueNodup => exact core.queueNodup
  case queued => exact core.queued
  case unmade => exact core.unmade
  case holds => grind [core.holds, Function.update_apply]
  case owned =>
    intro u v assigned
    have was := core.owned u v assigned
    grind [Function.update_apply]
  case unassigned => exact core.unassigned
  case unanswered =>
    intro u w
    have was := core.unanswered u w
    grind [Function.update_apply]
  case single =>
    intro u
    have was := core.single u
    grind [Function.update_apply]
  case timers => grind [core.timers, Function.update_apply]
  case validating =>
    intro u w v mem
    have was := core.validating u w v mem
    grind [Function.update_apply]
  case validatingOnce => exact core.validatingOnce
  case settledOnce => exact core.settledOnce
  case settledDone => exact core.settledDone
  case deferred => grind [core.deferred, Function.update_apply]
  case resolved => exact core.resolved
  case rejected =>
    intro u error v mem assigned
    have was := core.rejected u error v mem assigned
    grind [List.mem_of_mem_erase]
  case awake => exact fun none => absurd none (Nat.succ_ne_zero _)

theorem settle [DecidableEq Output] (core : Core options [] pool)
    {entry : Nat × Settlement Output} (waits : entry ∈ pool.deferred)
    (stopped : ∀ s ∈ pool.slots, (pool.taskAt entry.1).slot ≠ some s) :
    Core options [] (pool.settle entry) := by
  have perm : ((pool.settled ++ [entry]) ++ pool.deferred.erase entry).Perm
      (pool.settled ++ pool.deferred) := by
    rw [List.append_assoc]
    exact (List.perm_cons_erase waits).symm.append_left _
  obtain ⟨s, error, assigned, -, rejects⟩ := core.deferred entry.1 entry.2 waits
  exact { core with
    settledOnce := (perm.map Prod.fst).nodup_iff.mpr core.settledOnce
    settledDone := fun t => (perm.map Prod.fst).mem_iff.trans (core.settledDone t)
    deferred := fun t outcome mem => core.deferred t outcome (List.mem_of_mem_erase mem)
    resolved := fun t v mem => by
      cases List.mem_append.mp mem with
      | inl old => exact core.resolved t v old
      | inr new =>
          have same := List.mem_singleton.mp new
          rw [← (Prod.mk.inj same).2] at rejects
          cases rejects
    rejected := fun t e u mem here => by
      cases List.mem_append.mp mem with
      | inl old => exact core.rejected t e u old here
      | inr new =>
          have same := List.mem_singleton.mp new
          refine .inl fun present => stopped u present ?_
          rw [← (Prod.mk.inj same).1]
          exact here }

end Core

end OpenClaw.WorkerTaskPool
