import OpenClaw.KeyedFifoLease.Calls

/-!
Runs of a registry. A wait is granted behind completed leases only, and when the handlers have
run it is granted behind completed leases always, since a tail settles once the leases of its
key up to its own are completed. With every lease completed no tail stays in the map.
-/

namespace OpenClaw.KeyedFifoLease

variable {κ : Type} [LinearOrder κ] {registry after : Registry κ} {id : Nat} {key : κ}
  {before : Option Nat}

namespace Registry

theorem Idle.isSettled (idle : registry.Idle) (ordered : registry.Ordered)
    (owns : registry.Owns id key before) (clear : registry.Clear key (id + 1)) :
    registry.isSettled id key = true := by
  induction id using Nat.strong_induction_on generalizing before with
  | _ id ih =>
      have completed := clear id (Nat.lt_succ_self id) (holds_iff.mpr ⟨before, owns⟩)
      obtain ⟨owned, found, mem⟩ := owns
      rw [Registry.isSettled]
      cases before with
      | none => simp [completed, found, mem]
      | some previous =>
          obtain ⟨held, below, -⟩ := ordered.next id key previous ⟨owned, found, mem⟩
          obtain ⟨before', owns'⟩ := holds_iff.mp held
          have settled := ih previous below owns' fun earlier inside => clear earlier (by omega)
          by_cases done : (id, key) ∈ registry.settled
          · simp [done]
          · have blocked := idle (.settleTail id key) rfl
            have settles : registry.settlesTail id key = true := by
              simp only [settlesTail, completed, done, found, Option.getD_some, List.any_eq_true,
                decide_true, decide_not, decide_false, Bool.not_false, Bool.and_self, Bool.true_and]
              exact ⟨_, mem, by simp [settled]⟩
            rw [Registry.step, if_pos settles] at blocked
            cases blocked

theorem Idle.isReady (idle : registry.Idle) (ordered : registry.Ordered)
    (clear : ∀ key, registry.Holds id key → registry.Clear key id) : registry.isReady id = true := by
  rw [Registry.isReady]
  cases found : registry.leases[id]? with
  | none => rfl
  | some owned =>
      rw [Option.getD_some, List.all_eq_true]
      rintro ⟨key, before⟩ mem
      refine (Option.all_eq_true _ _).mpr ?_
      rintro previous rfl
      have owns : registry.Owns id key (some previous) := ⟨owned, found, mem⟩
      obtain ⟨held, below, -⟩ := ordered.next id key previous owns
      obtain ⟨before, owns'⟩ := holds_iff.mp held
      exact idle.isSettled ordered owns' fun earlier inside =>
        clear key (holds_iff.mpr ⟨_, owns⟩) earlier (by omega)

theorem clear_of_shares
    (completed : ∀ earlier < id, registry.Shares earlier id → earlier ∈ registry.completed)
    (holds : registry.Holds id key) : registry.Clear key id :=
  fun earlier below held => completed earlier below ⟨key, held, holds⟩

theorem work_lt {label : Step κ} (internal : label.isInternal = true)
    (taken : registry.step label = some after) : after.work < registry.work := by
  cases label with
  | reserve | wait | abort | release | close => cases internal
  | settleTail id key =>
      simp only [Registry.step] at taken
      split at taken
      case isFalse => cases taken
      case isTrue settles =>
        cases taken
        simp only [settlesTail, Bool.and_eq_true, decide_eq_true_eq, List.any_eq_true] at settles
        obtain ⟨⟨-, fresh⟩, own, mem, same, -⟩ := settles
        have less := @List.countP_lt_countP _
          (registry.leases.zipIdx.flatMap fun lease => lease.1.map fun own => (lease.2, own.key))
          (fun tail => tail ∉ registry.settled ++ [(id, key)]) (fun tail => tail ∉ registry.settled)
          (fun tail _ => by simp; tauto) (id, key)
          (by
            cases found : registry.leases[id]? with
            | none =>
                rw [found] at mem
                cases mem
            | some owned =>
                rw [found] at mem
                refine List.mem_flatMap.mpr ⟨(owned, id), ?_, List.mem_map.mpr ⟨own, mem, by rw [same]⟩⟩
                exact List.mk_mem_zipIdx_iff_getElem?.mpr found)
          (by simpa using fresh) (by simp)
        simp only [work]
        omega
  | cleanUp id key =>
      simp only [Registry.step] at taken
      split at taken
      case isFalse => cases taken
      case isTrue both =>
        cases taken
        have shorter := List.length_erase_of_mem both.1
        have some := List.length_pos_of_mem both.1
        simp only [work]
        omega
  | ready index =>
      simp only [Registry.step] at taken
      split at taken
      case isFalse => cases taken
      case isTrue known =>
        cases taken
        obtain ⟨wait, found, both⟩ := (Option.any_eq_true _ _).mp known
        simp only [Bool.and_eq_true] at both
        have fewer := @List.countP_modify_lt _ registry.waits
          (fun wait => { wait with result := wait.result.or (some true) })
          (fun wait => wait.result.isNone) index wait found both.1 (by simp)
        exact Nat.add_lt_add_right (Nat.add_lt_add_right fewer _) _

theorem Ordered.contract (ordered : registry.Ordered) : registry.Contract where
  reserved inputKeys key some := holds_reserve some
  exclusive wait mem granted earlier below shared := by
    obtain ⟨key, held, mine⟩ := shared
    exact (ordered.waits wait mem).2.1 granted key mine earlier below held
  unblocked idle wait mem open_ completed := by
    obtain ⟨-, -, refused⟩ := ordered.waits wait mem
    cases result : wait.result with
    | some value =>
        cases value with
        | true => rfl
        | false => exact absurd (refused result) open_
    | none =>
        obtain ⟨index, found⟩ := List.mem_iff_getElem?.mp mem
        have ready := idle.isReady ordered fun key holds => clear_of_shares completed holds
        have blocked := idle (.ready index) rfl
        rw [Registry.step, if_pos (by rw [found, Option.any_some, result, ready]; rfl)] at blocked
        cases blocked
  finite _ _ internal taken := work_lt internal taken
  emptied idle completed := by
    refine List.eq_nil_iff_forall_not_mem.mpr ?_
    rintro ⟨key, id⟩ mem
    have found := JsMap.get?_eq_some.mpr mem
    obtain ⟨held, -⟩ := ordered.last key id found
    obtain ⟨before, owns⟩ := holds_iff.mp held
    have settled := idle.isSettled ordered owns fun earlier below _ =>
      completed earlier (by have := held.lt; omega)
    have pending := ordered.cleaned key id found (completed id held.lt)
    have blocked := idle (.cleanUp id key) rfl
    rw [Registry.step, if_pos ⟨pending, settled⟩] at blocked
    cases blocked

/-- What later steps keep: completed leases, and the keys of the leases made so far. -/
structure Extends (registry after : Registry κ) : Prop where
  completed : registry.completed ⊆ after.completed
  leases : registry.leases.length ≤ after.leases.length
  keys : ∀ id < registry.leases.length, ∀ key, after.Holds id key ↔ registry.Holds id key

theorem Extends.of_leases (leases : after.leases = registry.leases)
    (completed : registry.completed ⊆ after.completed) : registry.Extends after :=
  ⟨completed, by rw [leases], fun _ _ _ => holds_congr leases⟩

theorem Extends.refl (registry : Registry κ) : registry.Extends registry :=
  .of_leases rfl (List.Subset.refl _)

theorem Extends.trans {middle : Registry κ} (first : registry.Extends middle)
    (second : middle.Extends after) : registry.Extends after :=
  ⟨List.Subset.trans first.completed second.completed, first.leases.trans second.leases,
    fun id below key =>
      (second.keys id (below.trans_le first.leases) key).trans (first.keys id below key)⟩

theorem release_extends (id : Nat) : registry.Extends (registry.release id) := by
  rw [release]
  split
  case isTrue => exact .of_leases rfl (List.subset_append_left _ _)
  case isFalse => exact .refl registry

theorem foldl_release_extends (ids : List Nat) : registry.Extends (ids.foldl release registry) := by
  induction ids generalizing registry with
  | nil => exact .refl registry
  | cons id rest ih => exact (release_extends id).trans ih

theorem reserve_extends (inputKeys : List κ) : registry.Extends (registry.reserve inputKeys) := by
  rw [reserve]
  dsimp only
  split
  case isTrue => exact .refl registry
  case isFalse =>
    refine ⟨List.Subset.refl _, by simp, fun id below key => ?_⟩
    rw [holds_own (nodup_keys inputKeys) rfl]
    exact or_iff_left fun last => below.ne last.1

theorem step_extends {label : Step κ} (taken : registry.step label = some after) :
    registry.Extends after := by
  cases label with
  | reserve inputKeys =>
      cases taken
      exact reserve_extends inputKeys
  | release id =>
      cases taken
      exact release_extends id
  | close =>
      cases taken
      have released := @foldl_release_extends _ _ registry registry.releases
      exact released.trans (.of_leases rfl (List.Subset.refl _))
  | wait | abort | settleTail | cleanUp | ready =>
      simp only [Registry.step] at taken
      split at taken
      case isFalse => cases taken
      case isTrue =>
        cases taken
        exact .of_leases rfl (List.Subset.refl _)

theorem reaches_extends (run : Transition.Reaches step Transition.Any registry after) :
    registry.Extends after :=
  run.relates .refl (fun _ _ _ => .trans) fun _ _ _ _ => step_extends

theorem ordered_of_reaches (run : Transition.Reaches step Transition.Any create registry) :
    registry.Ordered :=
  run.invariant ordered_create fun _ _ _ ordered _ taken => ordered.step taken

end Registry

end OpenClaw.KeyedFifoLease
