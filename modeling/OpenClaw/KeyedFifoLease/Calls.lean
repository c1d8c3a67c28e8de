import OpenClaw.KeyedFifoLease.Registry
import OpenClaw.Lib.KeyedLists

/-!
The calls of a registry and the handlers of its promises keep the order. A new lease is the
last of all its keys; a release leaves its tails to handlers; taking a settled tail out of the
map forgets completed leases only, and so does a close, which releases every lease first.
-/

namespace OpenClaw.KeyedFifoLease

variable {κ : Type} [LinearOrder κ] {registry after : Registry κ} {id : Nat} {key : κ}
  {before : Option Nat} {keys : List κ} {tails : JsMap κ Nat}

namespace Registry

theorem own_get? : (own id keys tails).1.get? key = if key ∈ keys then some id else tails.get? key := by
  induction keys generalizing tails with
  | nil => rfl
  | cons first rest ih =>
      simp only [own, ih, List.mem_cons]
      by_cases later : key ∈ rest
      · rw [if_pos later, if_pos (.inr later)]
      · rw [if_neg later]
        by_cases same : key = first
        · subst same
          rw [if_pos (.inl rfl), JsMap.get?_set_self]
        · rw [if_neg (by tauto), JsMap.get?_set_of_ne same]

theorem mem_own (nodup : keys.Nodup) :
    ⟨key, before⟩ ∈ (own id keys tails).2 ↔ key ∈ keys ∧ before = tails.get? key := by
  induction keys generalizing tails with
  | nil => simp [own]
  | cons first rest ih =>
      obtain ⟨fresh, distinct⟩ := List.nodup_cons.mp nodup
      simp only [own, List.mem_cons, ih distinct, Owned.mk.injEq]
      constructor
      · rintro (⟨rfl, rfl⟩ | ⟨later, rfl⟩)
        · exact ⟨.inl rfl, rfl⟩
        · refine ⟨.inr later, JsMap.get?_set_of_ne fun same => ?_⟩
          exact fresh (same ▸ later)
      · rintro ⟨rfl | later, rfl⟩
        · exact .inl ⟨rfl, rfl⟩
        · refine .inr ⟨later, (JsMap.get?_set_of_ne fun same => ?_).symm⟩
          exact fresh (same ▸ later)

/-- A lease put behind the others, on keys that are all different. -/
theorem owns_own (nodup : keys.Nodup)
    (leases : after.leases = registry.leases ++ [(own registry.leases.length keys tails).2]) :
    after.Owns id key before ↔ registry.Owns id key before ∨
      id = registry.leases.length ∧ key ∈ keys ∧ before = tails.get? key := by
  rw [Owns, leases]
  constructor
  · rintro ⟨owned, found, mem⟩
    rcases List.getElem?_concat_eq_some.mp found with old | ⟨last, rfl⟩
    · exact .inl ⟨owned, old, mem⟩
    · exact .inr ⟨last, (mem_own nodup).mp mem⟩
  · rintro (⟨owned, found, mem⟩ | ⟨last, here⟩)
    · exact ⟨owned, List.getElem?_concat_eq_some.mpr (.inl found), mem⟩
    · exact ⟨_, List.getElem?_concat_eq_some.mpr (.inr ⟨last, rfl⟩), (mem_own nodup).mpr here⟩

theorem holds_own (nodup : keys.Nodup)
    (leases : after.leases = registry.leases ++ [(own registry.leases.length keys tails).2]) :
    after.Holds id key ↔ registry.Holds id key ∨ id = registry.leases.length ∧ key ∈ keys := by
  simp only [holds_iff, owns_own nodup leases, exists_or, exists_and_left, exists_eq, and_true]

theorem Ordered.own (ordered : registry.Ordered) (nodup : keys.Nodup)
    (tails : after.tails = (own registry.leases.length keys registry.tails).1)
    (leases : after.leases =
      registry.leases ++ [(Registry.own registry.leases.length keys registry.tails).2])
    (releases : after.releases = registry.releases ++ [registry.leases.length])
    (completed : after.completed = registry.completed) (settled : after.settled = registry.settled)
    (cleanups : after.cleanups = registry.cleanups) (waits : after.waits = registry.waits) :
    after.Ordered := by
  have holds : ∀ {id key}, after.Holds id key ↔
      registry.Holds id key ∨ id = registry.leases.length ∧ key ∈ keys := holds_own nodup leases
  have old : ∀ {id key}, id < registry.leases.length →
      (after.Holds id key ↔ registry.Holds id key) := fun below =>
    holds.trans (or_iff_left fun last => below.ne last.1)
  have clear : ∀ {key id}, id ≤ registry.leases.length → registry.Clear key id →
      after.Clear key id := fun upTo clear earlier below held =>
    completed ▸ clear earlier below ((old (by omega)).mp held)
  have length : after.leases.length = registry.leases.length + 1 := by
    rw [leases, List.length_append, List.length_singleton]
  have fresh : registry.leases.length ∉ registry.completed := fun mem =>
    Nat.lt_irrefl _ (ordered.made _ (.inl mem))
  refine ⟨fun id below => ?_, fun id either => ?_, fun id key owns => ?_,
    fun id key previous owns => ?_, fun key id found => ?_, fun key absent => ?_,
    fun id key mem => ?_, fun key id found done => ?_, fun wait mem => ?_⟩
  · rw [completed, releases, List.mem_append, List.mem_singleton]
    rcases Nat.lt_succ_iff_lt_or_eq.mp (length ▸ below) with before | rfl
    · rw [ordered.live id before, not_or]
      exact ⟨fun absent => ⟨absent, before.ne⟩, fun both => both.1⟩
    · simp [fresh]
  · rw [completed, releases, List.mem_append, List.mem_singleton] at either
    rw [length]
    rcases either with done | live | rfl
    · exact Nat.lt_succ_of_lt (ordered.made id (.inl done))
    · exact Nat.lt_succ_of_lt (ordered.made id (.inr live))
    · exact Nat.lt_succ_self _
  · rcases (owns_own nodup leases).mp owns with before | ⟨rfl, -, absent⟩
    · exact clear before.lt.le (ordered.first id key before)
    · exact clear le_rfl (ordered.free key absent.symm)
  · rcases (owns_own nodup leases).mp owns with before | ⟨rfl, -, found⟩
    · obtain ⟨held, below, between⟩ := ordered.next id key previous before
      have inside := before.lt
      refine ⟨(old held.lt).mpr held, below, fun other above under held' => ?_⟩
      exact between other above under ((old (by omega)).mp held')
    · obtain ⟨held, between⟩ := ordered.last key previous found.symm
      refine ⟨(old held.lt).mpr held, held.lt, fun other above under held' => ?_⟩
      exact between other above ((old under).mp held')
  · rw [tails, own_get?] at found
    split at found
    case isTrue mine =>
      cases found
      refine ⟨holds.mpr (.inr ⟨rfl, mine⟩), fun later above held => ?_⟩
      have := held.lt
      omega
    case isFalse other =>
      obtain ⟨held, none⟩ := ordered.last key id found
      refine ⟨holds.mpr (.inl held), fun later above held' => ?_⟩
      rcases holds.mp held' with before | ⟨-, mine⟩
      · exact none later above before
      · exact other mine
  · rw [tails, own_get?] at absent
    split at absent
    case isTrue => cases absent
    case isFalse other =>
      intro earlier below held
      rcases holds.mp held with before | ⟨-, mine⟩
      · exact completed ▸ ordered.free key absent earlier before.lt before
      · exact absurd mine other
  · obtain ⟨below, above⟩ := ordered.settles id key (settled ▸ mem)
    exact ⟨length ▸ Nat.lt_succ_of_lt below, clear below above⟩
  · rw [tails, own_get?] at found
    split at found
    case isTrue =>
      cases found
      exact absurd (completed ▸ done) fresh
    case isFalse =>
      rw [cleanups]
      exact ordered.cleaned key id found (completed ▸ done)
  · obtain ⟨below, granted, refused⟩ := ordered.waits wait (waits ▸ mem)
    rw [length]
    exact ⟨Nat.lt_succ_of_lt below, fun result key held =>
      clear below.le (granted result key ((old below).mp held)), refused⟩

theorem nodup_keys (inputKeys : List κ) :
    (JsArray.toSorted (fun left right => left < right) inputKeys.dedup).Nodup :=
  (JsArray.toSorted_perm _ _).nodup_iff.mpr (List.nodup_dedup inputKeys)

theorem mem_keys {inputKeys : List κ} :
    key ∈ JsArray.toSorted (fun left right => left < right) inputKeys.dedup ↔ key ∈ inputKeys := by
  rw [JsArray.mem_toSorted, List.mem_dedup]

theorem Ordered.reserve (ordered : registry.Ordered) (inputKeys : List κ) :
    (registry.reserve inputKeys).Ordered := by
  rw [Registry.reserve]
  dsimp only
  split
  case isTrue => exact ordered
  case isFalse => exact ordered.own (nodup_keys inputKeys) rfl rfl rfl rfl rfl rfl rfl

theorem holds_reserve {inputKeys : List κ} (some : inputKeys ≠ []) :
    (registry.reserve inputKeys).Holds registry.leases.length key ↔ key ∈ inputKeys := by
  obtain ⟨first, mem⟩ := List.exists_mem_of_ne_nil _ some
  have present : (JsArray.toSorted (fun left right => left < right) inputKeys.dedup).length ≠ 0 :=
    (List.length_pos_of_mem (mem_keys.mpr mem)).ne'
  rw [Registry.reserve]
  dsimp only
  rw [if_neg present, holds_own (nodup_keys inputKeys) rfl, mem_keys]
  constructor
  · rintro (held | ⟨-, here⟩)
    · exact absurd held.lt (Nat.lt_irrefl _)
    · exact here
  · exact fun here => .inr ⟨rfl, here⟩

/-- A released lease is completed, and a handler waits for each of its tails. -/
theorem Ordered.release (ordered : registry.Ordered) (id : Nat) : (registry.release id).Ordered := by
  rw [Registry.release]
  split
  case isFalse => exact ordered
  case isTrue live =>
    have below := ordered.made id (.inr live)
    have clear : ∀ {key n}, registry.Clear key n → ∀ {after : Registry κ},
        after.leases = registry.leases → after.completed = registry.completed ++ [id] →
          after.Clear key n := fun clear _ leases completed =>
      clear.mono leases (by rw [completed]; exact List.subset_append_left _ _)
    refine ⟨fun other inside => ?_, fun other either => ?_, fun other key owns => ?_, ordered.next,
      ordered.last, fun key absent => clear (ordered.free key absent) rfl rfl,
      fun other key mem => (ordered.settles other key mem).imp_right fun before => clear before rfl rfl,
      fun key other found done => ?_, fun wait mem => ?_⟩
    · rw [List.mem_append, List.mem_singleton, List.mem_filter, ordered.live other inside]
      by_cases same : other = id <;> simp [same]
    · rw [List.mem_append, List.mem_singleton, List.mem_filter] at either
      rcases either with (done | rfl) | ⟨live, -⟩
      · exact ordered.made other (.inl done)
      · exact below
      · exact ordered.made other (.inr live)
    · exact clear (ordered.first other key owns) rfl rfl
    · rw [List.mem_append]
      rcases List.mem_append.mp done with before | new
      · exact .inl (ordered.cleaned key other found before)
      · obtain rfl := List.mem_singleton.mp new
        obtain ⟨⟨owned, here, own, mem, rfl⟩, -⟩ := ordered.last key other found
        refine .inr (List.mem_map.mpr ⟨own, ?_, rfl⟩)
        rw [here]
        exact mem
    · obtain ⟨inside, granted, refused⟩ := ordered.waits wait mem
      exact ⟨inside, fun result key held => clear (granted result key held) rfl rfl, refused⟩

theorem mem_releases_release {other : Nat} :
    other ∈ (registry.release id).releases ↔ other ∈ registry.releases ∧ other ≠ id := by
  rw [Registry.release]
  split
  case isTrue => simp
  case isFalse absent => exact ⟨fun mem => ⟨mem, fun same => absent (same ▸ mem)⟩, fun both => both.1⟩

theorem Ordered.foldl_release (ordered : registry.Ordered) (ids : List Nat) :
    (ids.foldl Registry.release registry).Ordered ∧ ∀ other,
      other ∈ (ids.foldl Registry.release registry).releases ↔
        other ∈ registry.releases ∧ other ∉ ids := by
  induction ids generalizing registry with
  | nil => exact ⟨ordered, fun other => by simp⟩
  | cons id rest ih =>
      obtain ⟨kept, live⟩ := ih (ordered.release id)
      refine ⟨kept, fun other => ?_⟩
      rw [List.foldl_cons, live, mem_releases_release, List.mem_cons, not_or, and_assoc]

theorem Ordered.close (ordered : registry.Ordered) : registry.close.Ordered := by
  obtain ⟨released, live⟩ := ordered.foldl_release registry.releases
  have none : ∀ id < (registry.releases.foldl Registry.release registry).leases.length,
      id ∈ (registry.releases.foldl Registry.release registry).completed := fun id below =>
    (released.live id below).mpr fun mem => ((live id).mp mem).2 ((live id).mp mem).1
  exact ⟨released.live, released.made, released.first, released.next,
    fun _ _ found => (by cases found), fun _ _ earlier below _ => none earlier below,
    released.settles, fun _ _ found => (by cases found), released.waits⟩

theorem Ordered.wait (ordered : registry.Ordered) {lease : Nat} {signal : Option Bool}
    (below : lease < registry.leases.length) :
    ({ registry with waits := registry.waits ++
        [⟨lease, signal, if signal = some true then some false else none⟩] } :
      Registry κ).Ordered := by
  refine ordered.congr rfl rfl rfl rfl rfl ordered.settles fun wait mem => ?_
  rcases List.mem_append.mp mem with old | new
  · exact ordered.waits wait old
  · rw [List.mem_singleton.mp new]
    by_cases aborted : signal = some true
    · simp [aborted, below]
    · simp [aborted, below]

/-- A wait is resolved: with true when it is ready, with false when its signal aborts. -/
theorem Ordered.modify (ordered : registry.Ordered) {index : Nat} {f : Wait → Wait} {wait : Wait}
    (found : registry.waits[index]? = some wait) (lease : (f wait).lease = wait.lease)
    (granted : (f wait).result = some true → wait.result = some true ∨
      registry.isReady wait.lease = true)
    (refused : (f wait).result = some false → (f wait).signal = some true) :
    ({ registry with waits := registry.waits.modify index f } : Registry κ).Ordered := by
  refine ordered.congr rfl rfl rfl rfl rfl ordered.settles fun wait' mem => ?_
  obtain ⟨place, there⟩ := List.mem_iff_getElem?.mp mem
  obtain ⟨before, at_, rfl⟩ := List.getElem?_modify_eq_some.mp there
  by_cases here : index = place
  · subst here
    obtain rfl := Option.some.inj (found.symm.trans at_)
    obtain ⟨below, already, -⟩ := ordered.waits wait (List.mem_of_getElem? found)
    rw [if_pos rfl, lease]
    refine ⟨below, fun result key held => ?_, refused⟩
    rcases granted result with before | ready
    · exact already before key held
    · exact ordered.clear_of_isReady ready held
  · rw [if_neg here]
    exact ordered.waits before (List.mem_of_getElem? at_)

/-- A settled tail is taken out of the map, if no later one has taken its place. -/
theorem Ordered.cleanUp (ordered : registry.Ordered) (settled : registry.isSettled id key = true) :
    ({ registry with
        cleanups := registry.cleanups.erase (id, key)
        tails :=
          if registry.tails.get? key = some id then registry.tails.delete key
          else registry.tails } : Registry κ).Ordered := by
  have found : ∀ {other held}, (if registry.tails.get? key = some id then registry.tails.delete key
      else registry.tails).get? other = some held →
        registry.tails.get? other = some held ∧ (held, other) ≠ (id, key) := by
    intro other held found
    split at found
    case isTrue =>
      rw [JsMap.get?_delete] at found
      split at found
      case isTrue => cases found
      case isFalse differs =>
        exact ⟨found, fun same => differs (congrArg Prod.snd same)⟩
    case isFalse absent =>
      refine ⟨found, fun same => absent ?_⟩
      cases same
      exact found
  have clear := ordered.clear_of_isSettled settled
  refine ⟨ordered.live, ordered.made, ordered.first, ordered.next,
    fun other held there => ordered.last other held (found there).1, fun other absent => ?_,
    ordered.settles, fun other held there done => ?_, ordered.waits⟩
  · dsimp only at absent
    split at absent
    case isTrue here =>
      rw [JsMap.get?_delete] at absent
      split at absent
      case isTrue same =>
        subst same
        exact clear.of_last (ordered.last other id here).2 _
      case isFalse => exact ordered.free other absent
    case isFalse => exact ordered.free other absent
  · exact (List.mem_erase_of_ne (found there).2).mpr (ordered.cleaned other held (found there).1 done)

theorem Ordered.step (ordered : registry.Ordered) {label : Step κ}
    (taken : registry.step label = some after) : after.Ordered := by
  cases label with
  | reserve inputKeys =>
      cases taken
      exact ordered.reserve inputKeys
  | wait lease signal =>
      simp only [Registry.step] at taken
      split at taken
      case isFalse => cases taken
      case isTrue below =>
        cases taken
        exact ordered.wait below
  | abort index =>
      simp only [Registry.step] at taken
      split at taken
      case isFalse => cases taken
      case isTrue known =>
        cases taken
        obtain ⟨wait, found, -⟩ := (Option.any_eq_true _ _).mp known
        have aborted := @Ordered.modify _ _ _ ordered index
          (fun wait => { wait with signal := some true, result := wait.result.or (some false) }) wait
          found rfl (fun result => by cases before : wait.result <;> simp_all) fun _ => rfl
        rw [resolve, List.modify_modify_eq]
        exact aborted
  | release id =>
      cases taken
      exact ordered.release id
  | close =>
      cases taken
      exact ordered.close
  | settleTail id key =>
      simp only [Registry.step] at taken
      split at taken
      case isFalse => cases taken
      case isTrue settles =>
        cases taken
        refine ordered.congr rfl rfl rfl rfl rfl (fun other held mem => ?_) ordered.waits
        rcases List.mem_append.mp mem with old | new
        · exact ordered.settles other held old
        · cases List.mem_singleton.mp new
          obtain ⟨completed, clear⟩ := ordered.clear_of_settlesTail settles
          exact ⟨ordered.made id (.inl completed), clear⟩
  | cleanUp id key =>
      simp only [Registry.step] at taken
      split at taken
      case isFalse => cases taken
      case isTrue both =>
        cases taken
        exact ordered.cleanUp both.2
  | ready index =>
      simp only [Registry.step] at taken
      split at taken
      case isFalse => cases taken
      case isTrue known =>
        cases taken
        obtain ⟨wait, found, both⟩ := (Option.any_eq_true _ _).mp known
        simp only [Bool.and_eq_true] at both
        have open_ := Option.isNone_iff_eq_none.mp both.1
        exact @Ordered.modify _ _ _ ordered index _ wait found rfl (fun _ => .inr both.2)
          fun result => by simp [open_] at result

end Registry
end OpenClaw.KeyedFifoLease
