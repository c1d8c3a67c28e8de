import OpenClaw.Followup.EnqueueMoves

/-!
The overflow policy shared by the queue owners, over any type of items: which items it removes
and when it refuses. The follow-up queue is the instance with its reserved and protected runs,
so admitting a run keeps the waiting items within the cap. The cap is a whole number or
infinite, as both owners resolve it; a NaN cap is never below the pending count and drops
every item it may.
-/

namespace Followup

/-- Generic capped queue state with shared overflow summary fields. -/
structure CappedQueue (T : Type*) where
  items : List T := []
  cap : Count := .fin 20
  dropPolicy : QueueDropPolicy := .summarize
  droppedCount : Nat := 0
  summaryLines : List String := []

structure DropPolicyParams (T : Type*) where
  summarize : T → String
  summaryLimit : Option Int := none
  inFlight : T → Bool := fun _ => false
  isProtected : T → Bool := fun _ => false

/-- What a call returns, hands to `onDrop` and to `onSummaryElide`, and leaves of the queue. -/
structure DropOutcome (T : Type*) where
  admitted : Bool
  dropped : List T := []
  elided : List String := []
  queue : CappedQueue T

namespace CappedQueue

variable {T : Type*} {items pre kept dropped : List T} {isVictim : T → Bool}

def countPendingQueueItems (inFlight : T → Bool) (items : List T) : Nat :=
  items.countP fun item => !inFlight item

/-- In-flight identities and protected items stay. -/
def victim (params : DropPolicyParams T) (item : T) : Bool :=
  !(params.inFlight item || params.isProtected item)

/-- The indices of the victims from `index` on, up to the given number of them. -/
def victimIndices (isVictim : T → Bool) : Option Nat → Nat → List T → List Nat
  | _, _, [] => []
  | stop, index, item :: items =>
      if isVictim item then
        index ::
          if stop = some 1 then [] else victimIndices isVictim (stop.map (· - 1)) (index + 1) items
      else victimIndices isVictim stop (index + 1) items

/-- Splice the indices out, the last one first: the dropped items and the rest. -/
def spliceOut (items : List T) (indices : List Nat) : List T × List T :=
  indices.foldr (fun index state => ((state.2[index]?).toList ++ state.1, state.2.eraseIdx index))
    ([], items)

/-- The oldest lines above the limit, and the lines within it. -/
def elide (limit : Option Nat) (lines : List String) : List String × List String :=
  match limit with
  | some limit => (lines.take (lines.length - limit), lines.drop (lines.length - limit))
  | none => ([], lines)

def applyQueueDropPolicy (params : DropPolicyParams T) (queue : CappedQueue T) : DropOutcome T :=
  let pendingCount := countPendingQueueItems params.inFlight queue.items
  if queue.cap = .fin 0 || queue.cap.isAbove pendingCount then
    { admitted := true, queue }
  else if queue.dropPolicy = .new then { admitted := false, queue }
  else
    let dropCount := match queue.cap with
      | .fin cap => some (pendingCount - cap + 1)
      | _ => none
    let indices := victimIndices (victim params) dropCount 0 queue.items
    if dropCount.any (indices.length < ·) then { admitted := false, queue }
    else
      let (dropped, items) := spliceOut queue.items indices
      if queue.dropPolicy = .summarize then
        let summaryLines := queue.summaryLines ++
          dropped.map fun item => buildQueueSummaryLine (params.summarize item)
        let limit := match params.summaryLimit, queue.cap with
          | some limit, _ => some limit.toNat
          | none, .fin cap => some cap
          | none, _ => none
        let (elided, summaryLines) := elide limit summaryLines
        { admitted := true, dropped, elided,
          queue := { queue with
            items, summaryLines, droppedCount := queue.droppedCount + dropped.length } }
      else { admitted := true, dropped, queue := { queue with items } }

/-- The oldest `count` victims left, in order; the others stay where they were. -/
structure Removed (isVictim : T → Bool) (count : Nat) (items dropped kept : List T) : Prop where
  oldest : dropped = (items.filter isVictim).take count
  later : kept.filter isVictim = (items.filter isVictim).drop count
  spared : (kept.filter fun item => !isVictim item) = items.filter fun item => !isVictim item
  order : kept.Sublist items

theorem Removed.zero : Removed isVictim 0 items [] items :=
  ⟨by simp, by simp, rfl, .refl items⟩

theorem Removed.cons_victim {item : T} {count : Nat} (victim : isVictim item = true)
    (removed : Removed isVictim count items dropped kept) :
    Removed isVictim (count + 1) (item :: items) (item :: dropped) kept where
  oldest := by simp [victim, removed.oldest]
  later := by simp [victim, removed.later]
  spared := by simp [victim, removed.spared]
  order := removed.order.cons item

theorem Removed.cons_spared {item : T} {count : Nat} (spared : isVictim item = false)
    (removed : Removed isVictim count items dropped kept) :
    Removed isVictim count (item :: items) dropped (item :: kept) where
  oldest := by simp [spared, removed.oldest]
  later := by simp [spared, removed.later]
  spared := by simp [spared, removed.spared]
  order := removed.order.cons_cons item

theorem spliceOut_cons (items : List T) (index : Nat) (indices : List Nat) :
    spliceOut items (index :: indices) =
      (((spliceOut items indices).2[index]?).toList ++ (spliceOut items indices).1,
        (spliceOut items indices).2.eraseIdx index) := rfl

/-- Split off the first victims. -/
def takeOldest (isVictim : T → Bool) : Nat → List T → List T × List T
  | 0, items => ([], items)
  | _, [] => ([], [])
  | n + 1, item :: items =>
      if isVictim item then
        (item :: (takeOldest isVictim n items).1, (takeOldest isVictim n items).2)
      else ((takeOldest isVictim (n + 1) items).1, item :: (takeOldest isVictim (n + 1) items).2)

theorem removed_takeOldest (isVictim : T → Bool) (count : Nat) (items : List T) :
    (takeOldest isVictim count items).1.length = min count (items.countP isVictim) ∧
      Removed isVictim (takeOldest isVictim count items).1.length items
        (takeOldest isVictim count items).1 (takeOldest isVictim count items).2 := by
  induction items generalizing count with
  | nil => cases count <;> exact ⟨by simp [takeOldest], .zero⟩
  | cons item items ih =>
      cases count with
      | zero => exact ⟨by simp [takeOldest], .zero⟩
      | succ count =>
          cases victim : isVictim item with
          | true =>
              obtain ⟨length, removed⟩ := ih count
              simp only [takeOldest, victim, if_true, List.length_cons, List.countP_cons]
              exact ⟨by omega, removed.cons_victim victim⟩
          | false =>
              obtain ⟨length, removed⟩ := ih (count + 1)
              simp only [takeOldest, victim, Bool.false_eq_true, if_false, List.countP_cons]
              exact ⟨length, removed.cons_spared victim⟩

/-- Collecting the indices stops at `count` victims or at the end, and splicing them out
splits the first victims off. -/
theorem spliceOut_victimIndices (isVictim : T → Bool) (count : Nat) (pre items : List T) :
    (victimIndices isVictim (some (count + 1)) pre.length items).length =
        (takeOldest isVictim (count + 1) items).1.length ∧
      spliceOut (pre ++ items) (victimIndices isVictim (some (count + 1)) pre.length items) =
        ((takeOldest isVictim (count + 1) items).1,
          pre ++ (takeOldest isVictim (count + 1) items).2) := by
  induction items generalizing count pre with
  | nil => exact ⟨rfl, rfl⟩
  | cons item items ih =>
      have moved : pre.length + 1 = (pre ++ [item]).length := by simp
      have shifted : pre ++ item :: items = pre ++ [item] ++ items := by simp
      have taken : ∀ kept : List T, ((pre ++ [item] ++ kept)[pre.length]?).toList = [item] ∧
          (pre ++ [item] ++ kept).eraseIdx pre.length = pre ++ kept := fun kept => by
        rw [List.append_assoc, List.getElem?_append_right le_rfl,
          List.eraseIdx_append_of_length_le le_rfl]
        simp
      cases victim : isVictim item with
      | false =>
          obtain ⟨length, spliced⟩ := ih count (pre ++ [item])
          simp only [victimIndices, takeOldest, victim, Bool.false_eq_true, if_false]
          rw [moved, shifted, spliced, List.append_assoc, List.singleton_append]
          exact ⟨length, rfl⟩
      | true =>
          cases count with
          | zero =>
              have one : victimIndices isVictim (some 1) pre.length (item :: items) =
                  [pre.length] := by simp [victimIndices, victim]
              rw [Nat.zero_add, one, spliceOut_cons, shifted]
              simp only [spliceOut, List.foldr_nil, (taken items).1, (taken items).2,
                List.append_nil, takeOldest, victim, if_true, List.length_singleton, true_and]
          | succ count =>
              obtain ⟨length, spliced⟩ := ih count (pre ++ [item])
              have more : victimIndices isVictim (some (count + 1 + 1)) pre.length (item :: items) =
                  pre.length ::
                    victimIndices isVictim (some (count + 1)) (pre ++ [item]).length items := by
                simp [victimIndices, victim]
              rw [more, spliceOut_cons, shifted, spliced, List.length_cons, length]
              simp only [takeOldest, victim, if_true, List.length_cons, (taken _).1, (taken _).2,
                List.singleton_append, true_and]

theorem Removed.perm {count : Nat} (removed : Removed isVictim count items dropped kept) :
    (dropped ++ kept).Perm items := by
  have keptParts := List.filter_append_perm isVictim kept
  rw [removed.later, removed.spared] at keptParts
  have whole : (dropped ++ ((items.filter isVictim).drop count ++
      items.filter fun item => !isVictim item)).Perm items := by
    rw [← List.append_assoc, removed.oldest, List.take_append_drop]
    exact List.filter_append_perm isVictim items
  exact (keptParts.symm.append_left dropped).trans whole

theorem Removed.isVictim_of_mem {count : Nat} {item : T}
    (removed : Removed isVictim count items dropped kept) (mem : item ∈ dropped) :
    isVictim item = true := by
  rw [removed.oldest] at mem
  exact (List.mem_filter.mp (List.mem_of_mem_take mem)).2

/-- Items that are all counted leave the count by their number. -/
theorem Removed.countP {count : Nat} {counted : T → Bool}
    (removed : Removed isVictim count items dropped kept)
    (all : ∀ item, isVictim item = true → counted item = true) :
    dropped.length + kept.countP counted = items.countP counted := by
  have whole := removed.perm.countP_eq counted
  rw [List.countP_append] at whole
  rw [← whole, List.countP_eq_length.mpr fun item mem => all item (removed.isVictim_of_mem mem)]

/-- A positive cap: the call refuses and changes nothing, or it makes room by dropping as many
of the oldest victims as it takes. -/
structure MakesRoom (params : DropPolicyParams T) (queue : CappedQueue T) (r : DropOutcome T) :
    Prop where
  refused : r.admitted = false → r.queue = queue ∧ r.dropped = [] ∧ r.elided = []
  room : r.admitted = true →
    queue.cap.isAbove (countPendingQueueItems params.inFlight r.queue.items) = true
  removed : Removed (victim params) r.dropped.length queue.items r.dropped r.queue.items
  needed : r.admitted = true → ∀ cap, queue.cap = .fin cap →
    r.dropped.length = countPendingQueueItems params.inFlight queue.items + 1 - cap

theorem applyQueueDropPolicy_makesRoom (params : DropPolicyParams T) (queue : CappedQueue T)
    (positive : (Count.fin 0).lt queue.cap = true) :
    MakesRoom params queue (applyQueueDropPolicy params queue) := by
  have nonzero : queue.cap ≠ .fin 0 := by
    rintro zero
    rw [zero] at positive
    exact absurd positive (by decide)
  have unchanged : ∀ admitted, (admitted = true → queue.cap.isAbove
      (countPendingQueueItems params.inFlight queue.items) = true) →
      MakesRoom params queue { admitted, queue } := fun admitted below =>
    { refused := fun _ => ⟨rfl, rfl, rfl⟩
      room := below
      removed := .zero
      needed := fun yes cap finite => by
        have := below yes
        rw [finite, Count.isAbove, decide_eq_true_eq] at this
        simp only [List.length_nil]
        omega }
  rw [applyQueueDropPolicy]
  dsimp only
  split
  case isTrue enough =>
    simp only [nonzero, decide_false, Bool.false_or] at enough
    exact unchanged true fun _ => enough
  case isFalse full =>
    simp only [nonzero, decide_false, Bool.false_or, Bool.not_eq_true] at full
    split
    · exact unchanged false (fun impossible => absurd impossible (by decide))
    · cases capped : queue.cap with
      | nan => exact absurd positive (by rw [capped]; decide)
      | inf => exact absurd full (by rw [capped]; simp [Count.isAbove])
      | fin cap =>
          rw [capped, Count.isAbove, decide_eq_false_iff_not, Nat.not_lt] at full
          rw [capped, Ne, Count.fin.injEq] at nonzero
          obtain ⟨size, spliced⟩ := spliceOut_victimIndices (victim params)
            (countPendingQueueItems params.inFlight queue.items - cap) [] queue.items
          obtain ⟨length, removed⟩ := removed_takeOldest (victim params)
            (countPendingQueueItems params.inFlight queue.items - cap + 1) queue.items
          simp only [List.nil_append, List.length_nil] at size spliced
          generalize takeOldest (victim params) _ queue.items = taken at size spliced length removed
          obtain ⟨dropped, kept⟩ := taken
          dsimp only at size spliced length removed ⊢
          simp only [Option.any_some, decide_eq_true_eq]
          split
          case isTrue few => exact unchanged false (fun impossible => absurd impossible (by decide))
          case isFalse enough =>
            have exactly : dropped.length =
                countPendingQueueItems params.inFlight queue.items - cap + 1 := by omega
            have pending : dropped.length + kept.countP (fun item => !params.inFlight item) =
                queue.items.countP fun item => !params.inFlight item :=
              removed.countP fun item taken => by simp_all [victim]
            have makes : ∀ r : DropOutcome T, r.admitted = true → r.dropped = dropped →
                r.queue.items = kept → MakesRoom params queue r := by
              intro r admitted same items
              refine ⟨fun refused => absurd (admitted.symm.trans refused) (by decide), fun _ => ?_,
                ?_, fun _ limit finite => ?_⟩
              · rw [capped, items, Count.isAbove, decide_eq_true_eq]
                change dropped.length + countPendingQueueItems params.inFlight kept =
                  countPendingQueueItems params.inFlight queue.items at pending
                omega
              · rw [same, items]
                exact removed
              · rw [capped, Count.fin.injEq] at finite
                rw [same]
                omega
            rw [spliced]
            split
            · exact makes _ rfl rfl rfl
            · exact makes _ rfl rfl rfl

end CappedQueue

/-! ### The follow-up queue -/

namespace State

variable {s t : State} {norm : Normalizers}

def capped (s : State) : CappedQueue RunId where
  items := s.items
  cap := s.cap
  dropPolicy := s.dropPolicy
  droppedCount := s.droppedCount
  summaryLines := s.summaryLines

def dropParams (s : State) : DropPolicyParams RunId where
  summarize id := summarize (s.runs id)
  inFlight id := id ∈ s.inFlight
  isProtected := s.isProtected

theorem takeVictims_eq (isVictim : RunId → Bool) (n : Nat) (items : List RunId) :
    takeVictims isVictim n items = CappedQueue.takeOldest isVictim n items := by
  induction items generalizing n with
  | nil => cases n <;> rfl
  | cons item items ih =>
      cases n with
      | zero => rfl
      | succ n =>
          rw [takeVictims, CappedQueue.takeOldest, ih, ih]

theorem countPendingQueueItems_eq : s.countPendingQueueItems =
    CappedQueue.countPendingQueueItems s.dropParams.inFlight s.capped.items := by
  simp only [countPendingQueueItems, CappedQueue.countPendingQueueItems, dropParams, capped,
    decide_not]

theorem victim_dropParams : CappedQueue.victim s.dropParams = s.isVictim := by
  funext id
  simp only [CappedQueue.victim, isVictim, dropParams, Bool.not_or, decide_not]

/-- The queue's own drop policy is the shared one. -/
theorem applyQueueDropPolicy_agrees (valid : s.cap ≠ .nan) :
    let r := CappedQueue.applyQueueDropPolicy s.dropParams s.capped
    s.applyQueueDropPolicy.1 = r.admitted ∧ s.applyQueueDropPolicy.2.1 = r.elided ∧
      s.applyQueueDropPolicy.2.2.capped = r.queue := by
  intro r
  cases cap : s.cap with
  | nan => exact absurd cap valid
  | inf =>
      have unlimited : r = { admitted := true, queue := s.capped } := by
        simp [r, CappedQueue.applyQueueDropPolicy, capped, cap, Count.isAbove]
      rw [unlimited, applyQueueDropPolicy, cap]
      exact ⟨rfl, rfl, rfl⟩
  | fin cap' =>
      have same : s.capped.cap = .fin cap' := cap
      simp only [r, applyQueueDropPolicy, cap, CappedQueue.applyQueueDropPolicy, same,
        Count.isAbove, Count.fin.injEq, ← countPendingQueueItems_eq, victim_dropParams]
      by_cases enough : (decide (cap' = 0) || decide (s.countPendingQueueItems < cap')) = true
      · rw [if_pos enough, if_pos enough]
        exact ⟨rfl, rfl, rfl⟩
      rw [if_neg enough, if_neg enough]
      by_cases new : s.dropPolicy = .new
      · rw [if_pos new, if_pos (show s.capped.dropPolicy = .new from new)]
        exact ⟨rfl, rfl, rfl⟩
      rw [if_neg new, if_neg (show s.capped.dropPolicy ≠ .new from new)]
      obtain ⟨size, spliced⟩ := CappedQueue.spliceOut_victimIndices s.isVictim
        (s.countPendingQueueItems - cap') [] s.items
      simp only [List.nil_append, List.length_nil] at size spliced
      simp only [takeVictims_eq, Option.any_some, show s.capped.items = s.items from rfl, size,
        spliced, decide_eq_true_eq]
      by_cases few : (CappedQueue.takeOldest s.isVictim (s.countPendingQueueItems - cap' + 1)
          s.items).1.length < s.countPendingQueueItems - cap' + 1
      · rw [if_pos few, if_pos few]
        exact ⟨rfl, rfl, rfl⟩
      rw [if_neg few, if_neg few]
      by_cases summarizes : s.dropPolicy = .summarize
      · rw [if_pos summarizes, if_pos (show s.capped.dropPolicy = .summarize from summarizes)]
        simp only [elideLines, summarizeDropped, dropParams, CappedQueue.elide, true_and]
        exact ⟨rfl, by simp [capped]⟩
      · rw [if_neg summarizes, if_neg (show s.capped.dropPolicy ≠ .summarize from summarizes)]
        exact ⟨rfl, rfl, rfl⟩

/-! What waits and how much may: untouched by the bookkeeping of summary sources. -/

def waiting (s : State) : List RunId × Finset RunId × Count := (s.items, s.inFlight, s.cap)

theorem evict_waiting (n : Nat) : (s.evict n).waiting = s.waiting := by
  induction n generalizing s with
  | zero => rfl
  | succ n ih =>
      cases found : evictOne s.activeSummarySources s.summaryElisions with
      | none => rw [evict_none found]
      | some result =>
          rw [evict_some found, ih]
          rfl

theorem trim_waiting : s.trimSummaryElisionsToCap.waiting = s.waiting := by
  rw [trimSummaryElisionsToCap]
  split
  · exact evict_waiting _
  · rfl

theorem elideSource_waiting {item : RunId} {line : String} :
    (s.elideSource norm item line).waiting = s.waiting := by
  rw [elideSource, trim_waiting, appendElision_eq]
  rfl

theorem elideSources_waiting {lines : List String} :
    (s.elideSources norm lines).waiting = s.waiting := by
  have each : ∀ (pairs : List (RunId × String)) (u : State),
      (pairs.foldl (fun s pair => s.elideSource norm pair.1 pair.2) u).waiting = u.waiting := by
    intro pairs
    induction pairs with
    | nil => exact fun _ => rfl
    | cons pair pairs ih => exact fun u => (ih _).trans elideSource_waiting
  exact each _ _

theorem countPendingQueueItems_of_waiting (same : s.waiting = t.waiting) :
    s.countPendingQueueItems = t.countPendingQueueItems := by
  obtain ⟨items, rest⟩ := Prod.mk.inj same
  obtain ⟨inFlight, -⟩ := Prod.mk.inj rest
  rw [countPendingQueueItems, countPendingQueueItems, items, inFlight]

theorem applyQueueDropPolicy_inFlight :
    s.applyQueueDropPolicy.2.2.inFlight = s.inFlight ∧ s.applyQueueDropPolicy.2.2.cap = s.cap := by
  rcases applyQueueDropPolicy_cases (s := s) with ⟨_, result⟩ |
    ⟨dropped, kept, -, -, ⟨-, result⟩ | ⟨-, result⟩⟩
  · rw [result]
    exact ⟨rfl, rfl⟩
  · rw [result]
    exact ⟨rfl, rfl⟩
  · rw [result, elideLines]
    split <;> exact ⟨rfl, rfl⟩

/-- Making room leaves the waiting items below a positive cap. -/
theorem applyQueueDropPolicy_room (positive : (Count.fin 0).lt s.cap = true)
    (admitted : s.applyQueueDropPolicy.1 = true) :
    s.cap.isAbove s.applyQueueDropPolicy.2.2.countPendingQueueItems = true := by
  have valid : s.cap ≠ .nan := by
    rintro nan
    rw [nan] at positive
    exact absurd positive (by decide)
  obtain ⟨flag, -, queue⟩ := applyQueueDropPolicy_agrees valid
  have room := (CappedQueue.applyQueueDropPolicy_makesRoom s.dropParams s.capped positive).room
    (flag ▸ admitted)
  rw [← queue] at room
  rw [countPendingQueueItems_eq]
  simpa only [dropParams, applyQueueDropPolicy_inFlight.1, capped] using room

theorem appendQueueItem_pending (s : State) (id : RunId) (front : Bool) :
    (s.appendQueueItem id front).countPendingQueueItems ≤ s.countPendingQueueItems + 1 := by
  cases front <;>
    simp only [appendQueueItem, countPendingQueueItems, setRun, Bool.false_eq_true, if_true,
      if_false, List.countP_append, List.countP_cons, List.countP_nil] <;>
    split <;> omega

theorem evict_runs (n : Nat) : (s.evict n).runs = s.runs := by
  induction n generalizing s with
  | zero => rfl
  | succ n ih =>
      cases found : evictOne s.activeSummarySources s.summaryElisions with
      | none => rw [evict_none found]
      | some result =>
          rw [evict_some found, ih]
          rfl

theorem getFollowupQueue_settled (settled : ∀ item ∈ s.items, (s.runs item).steerPending = false)
    (settings : QueueSettings) : ((s.getFollowupQueue settings).items.any fun item =>
      ((s.getFollowupQueue settings).runs item).steerPending) = false := by
  have items : (s.getFollowupQueue settings).items = s.items :=
    congrArg Prod.fst (trim_waiting (s := s.applyQueueRuntimeSettings settings))
  have runs : (s.getFollowupQueue settings).runs = s.runs := by
    rw [getFollowupQueue, trimSummaryElisionsToCap]
    split
    · exact evict_runs _
    · rfl
  rw [items, runs, List.any_eq_false]
  exact fun item mem => by simp [settled item mem]

/-- A normal run that is admitted while no steer is pending leaves the waiting items within the
cap in force. -/
theorem enqueueFollowupRun_within_cap {id : RunId} {options : EnqueueOptions}
    (normal : options.steerCandidate = false)
    (settled : ∀ item ∈ s.items, (s.runs item).steerPending = false)
    (admitted : (s.enqueueFollowupRun norm id options).1 = true)
    (positive : (Count.fin 0).lt (s.enqueueFollowupRun norm id options).2.cap = true) :
    (Count.fin (s.enqueueFollowupRun norm id options).2.countPendingQueueItems).le
      (s.enqueueFollowupRun norm id options).2.cap = true := by
  have refuse : ∀ {u : State} {P : Prop}, (false, u).1 = true → P := fun impossible =>
    absurd impossible Bool.false_ne_true
  revert admitted positive
  rw [State.enqueueFollowupRun]
  split
  · exact refuse
  · dsimp only
    split
    · exact refuse
    · generalize flagged : s.setRun id _ = u
      have still : ∀ item ∈ u.items, (u.runs item).steerPending = false := by
        subst flagged
        intro item mem
        by_cases same : item = id
        · subst same
          simpa only [setRun, Function.update_self] using settled item mem
        · simpa only [setRun, Function.update_of_ne same] using settled item mem
      have queued := getFollowupQueue_settled still options.settings
      generalize u.getFollowupQueue options.settings = t at queued ⊢
      rw [normal, queued]
      simp only [Bool.false_eq_true, if_false]
      split
      · exact refuse
      · split
        · exact refuse
        · split
          · exact refuse
          · have kept : (t.applyOverflowPolicy norm).waiting =
                t.applyQueueDropPolicy.2.2.waiting := by
              rw [applyOverflowPolicy]
              split
              · exact elideSources_waiting
              · rfl
            change (if _ then (true, (t.applyOverflowPolicy norm).appendQueueItem id options.front)
              else (false, t.applyOverflowPolicy norm)).1 = true → _
            cases room : t.applyQueueDropPolicy.1 with
            | false => exact refuse
            | true =>
                simp only [if_true]
                intro _ positive
                have caps : ((t.applyOverflowPolicy norm).appendQueueItem id options.front).cap =
                    t.cap := by
                  have := congrArg (·.2.2) kept
                  exact this.trans applyQueueDropPolicy_inFlight.2
                change (Count.fin 0).lt
                  ((t.applyOverflowPolicy norm).appendQueueItem id options.front).cap = true at positive
                change (Count.fin ((t.applyOverflowPolicy norm).appendQueueItem id
                  options.front).countPendingQueueItems).le
                  ((t.applyOverflowPolicy norm).appendQueueItem id options.front).cap = true
                rw [caps] at positive ⊢
                have below := applyQueueDropPolicy_room positive room
                rw [← countPendingQueueItems_of_waiting kept] at below
                have more := appendQueueItem_pending (t.applyOverflowPolicy norm) id options.front
                cases cap : t.cap with
                | nan => simp [cap, Count.isAbove] at below
                | inf => rfl
                | fin cap' =>
                    simp only [cap, Count.isAbove, decide_eq_true_eq] at below
                    simp only [Count.le, decide_eq_true_eq]
                    omega

/-- The drop policy on any queue with a positive cap, and the bound it gives the follow-up queue:
an admitted normal run leaves no more waiting items than the cap in force. -/
theorem dropPolicy_keeps_cap :
    (∀ {T : Type} (params : DropPolicyParams T) (queue : CappedQueue T),
      (Count.fin 0).lt queue.cap = true →
      CappedQueue.MakesRoom params queue (CappedQueue.applyQueueDropPolicy params queue)) ∧
    ∀ (norm : Normalizers) (s : State) (id : RunId) (options : EnqueueOptions),
      options.steerCandidate = false → (∀ item ∈ s.items, (s.runs item).steerPending = false) →
      (s.enqueueFollowupRun norm id options).1 = true →
      (Count.fin 0).lt (s.enqueueFollowupRun norm id options).2.cap = true →
      (Count.fin (s.enqueueFollowupRun norm id options).2.countPendingQueueItems).le
        (s.enqueueFollowupRun norm id options).2.cap = true :=
  ⟨CappedQueue.applyQueueDropPolicy_makesRoom, fun _ _ _ _ normal settled admitted positive =>
    enqueueFollowupRun_within_cap normal settled admitted positive⟩

/-- Of three waiting items and one in flight, the two oldest that nothing protects make room;
a run admitted to a queue of two keeps it at two. -/
theorem dropPolicy_keeps_cap_two :
    let params : DropPolicyParams Nat :=
      { summarize := toString, inFlight := (· = 0), isProtected := (· = 1) }
    let queue : CappedQueue Nat := { items := [0, 1, 2, 3], cap := .fin 2, dropPolicy := .old }
    let norm : Normalizers := ⟨id, id, some⟩
    let s : State := { items := [0, 1], cap := .fin 2, dropPolicy := .old }
    CappedQueue.MakesRoom params queue (CappedQueue.applyQueueDropPolicy params queue) ∧
      (CappedQueue.applyQueueDropPolicy params queue).dropped = [2, 3] ∧
      (Count.fin (s.enqueueFollowupRun norm 2 {}).2.countPendingQueueItems).le
        (s.enqueueFollowupRun norm 2 {}).2.cap = true := by
  intro params queue norm s
  refine ⟨dropPolicy_keeps_cap.1 params queue (by decide), by decide,
    dropPolicy_keeps_cap.2 norm s 2 {} (by decide) (by decide) (by decide) (by decide)⟩

end State
end Followup
