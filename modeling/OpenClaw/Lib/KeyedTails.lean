import OpenClaw.Lib.JsCollections
import OpenClaw.Lib.KeyedLists

/-!
Queues kept as a map of tails. Who enters is known by its place, waits under each of its keys for
the place found there, and leaves its own as the new tail; who is through takes its place out of
the map wherever no later one has replaced it. Each key is then served in the order of entry,
and places only wait for earlier ones.
-/

namespace OpenClaw.KeyedTails

variable {κ : Type}

/-- A key, and the place that was found under it. -/
structure Behind (κ : Type) where
  key : κ
  predecessor : Option Nat
  deriving DecidableEq, Repr

section Places

variable {entries : List (List (Behind κ))} {done later : Nat → Prop} {id n : Nat} {key : κ}
  {before : Option Nat}

def Waits (entries : List (List (Behind κ))) (id : Nat) (key : κ) (before : Option Nat) : Prop :=
  ∃ waits, entries[id]? = some waits ∧ ⟨key, before⟩ ∈ waits

def Holds (entries : List (List (Behind κ))) (id : Nat) (key : κ) : Prop :=
  ∃ before, Waits entries id key before

/-- Those that entered a key before place `n` are through. -/
def Clear (entries : List (List (Behind κ))) (done : Nat → Prop) (key : κ) (n : Nat) : Prop :=
  ∀ earlier < n, Holds entries earlier key → done earlier

theorem Waits.lt (waits : Waits entries id key before) : id < entries.length := by
  obtain ⟨_, found, -⟩ := waits
  exact (List.getElem?_eq_some_iff.mp found).1

theorem Holds.lt (holds : Holds entries id key) : id < entries.length :=
  let ⟨_, waits⟩ := holds
  waits.lt

theorem Clear.mono (clear : Clear entries done key n) (grows : ∀ id, done id → later id) :
    Clear entries later key n :=
  fun earlier below holds => grows earlier (clear earlier below holds)

theorem Clear.of_last (clear : Clear entries done key (id + 1))
    (last : ∀ other, id < other → ¬Holds entries other key) (n : Nat) :
    Clear entries done key n := by
  intro earlier _ holds
  by_cases upTo : earlier < id + 1
  · exact clear earlier upTo holds
  · exact absurd holds (last earlier (by omega))

theorem waits_concat {waits : List (Behind κ)} : Waits (entries ++ [waits]) id key before ↔
    Waits entries id key before ∨ id = entries.length ∧ ⟨key, before⟩ ∈ waits := by
  constructor
  · rintro ⟨_, found, mem⟩
    rcases List.getElem?_concat_eq_some.mp found with old | ⟨last, rfl⟩
    · exact .inl ⟨_, old, mem⟩
    · exact .inr ⟨last, mem⟩
  · rintro (⟨_, found, mem⟩ | ⟨last, mem⟩)
    · exact ⟨_, List.getElem?_concat_eq_some.mpr (.inl found), mem⟩
    · exact ⟨_, List.getElem?_concat_eq_some.mpr (.inr ⟨last, rfl⟩), mem⟩

theorem holds_concat {waits : List (Behind κ)} : Holds (entries ++ [waits]) id key ↔
    Holds entries id key ∨ id = entries.length ∧ ∃ before, ⟨key, before⟩ ∈ waits := by
  simp only [Holds, waits_concat, exists_or, exists_and_left]

theorem holds_concat_of_lt {waits : List (Behind κ)} (below : id < entries.length) :
    Holds (entries ++ [waits]) id key ↔ Holds entries id key :=
  holds_concat.trans (or_iff_left fun last => below.ne last.1)

theorem clear_concat {waits : List (Behind κ)} (upTo : n ≤ entries.length) :
    Clear (entries ++ [waits]) done key n ↔ Clear entries done key n :=
  forall_congr' fun earlier => forall_congr' fun below => by
    rw [holds_concat_of_lt (below.trans_le upTo)]

end Places

section Tails

variable [DecidableEq κ] {tails : JsMap κ Nat} {entries : List (List (Behind κ))}
  {done later : Nat → Prop} {id other : Nat} {key : κ} {keys : List κ} {before : Option Nat}

def behind (tails : JsMap κ Nat) (keys : List κ) : List (Behind κ) :=
  keys.map fun key => ⟨key, tails.get? key⟩

def putTail (id : Nat) (keys : List κ) (tails : JsMap κ Nat) : JsMap κ Nat :=
  keys.foldl (fun tails key => tails.set key id) tails

def dropTail (id : Nat) (keys : List κ) (tails : JsMap κ Nat) : JsMap κ Nat :=
  keys.foldl (fun tails key => if tails.get? key = some id then tails.delete key else tails) tails

theorem mem_behind : ⟨key, before⟩ ∈ behind tails keys ↔ key ∈ keys ∧ before = tails.get? key := by
  simp only [behind, List.mem_map, Behind.mk.injEq]
  constructor
  · rintro ⟨_, mem, rfl, rfl⟩
    exact ⟨mem, rfl⟩
  · rintro ⟨mem, rfl⟩
    exact ⟨key, mem, rfl, rfl⟩

@[simp] theorem map_key_behind : (behind tails keys).map Behind.key = keys := by
  rw [behind, List.map_map]
  exact List.map_id _

theorem get?_putTail :
    (putTail id keys tails).get? key = if key ∈ keys then some id else tails.get? key := by
  induction keys generalizing tails with
  | nil => rfl
  | cons first rest ih =>
      have next : putTail id (first :: rest) tails = putTail id rest (tails.set first id) := rfl
      rw [next, ih]
      by_cases inRest : key ∈ rest
      · rw [if_pos inRest, if_pos (List.mem_cons_of_mem _ inRest)]
      · rw [if_neg inRest]
        by_cases same : key = first
        · subst same
          rw [if_pos List.mem_cons_self, JsMap.get?_set_self]
        · rw [if_neg (by simp [same, inRest]), JsMap.get?_set_of_ne same]

theorem get?_dropTail : (dropTail id keys tails).get? key =
    if key ∈ keys ∧ tails.get? key = some id then none else tails.get? key := by
  induction keys generalizing tails with
  | nil => simp [dropTail]
  | cons first rest ih =>
      have next : dropTail id (first :: rest) tails = dropTail id rest
        (if tails.get? first = some id then tails.delete first else tails) := rfl
      have dropped : (if tails.get? first = some id then tails.delete first else tails).get? key =
          if key = first ∧ tails.get? key = some id then none else tails.get? key := by
        by_cases same : key = first
        · subst same
          split <;> simp_all [JsMap.get?_delete]
        · split <;> simp [JsMap.get?_delete, same]
      rw [next, ih, dropped]
      by_cases same : key = first
      · subst same
        by_cases here : tails.get? key = some id <;> simp [here]
      · simp [same]

theorem get?_dropTail_eq_some (found : (dropTail id keys tails).get? key = some other) :
    tails.get? key = some other ∧ (other = id → key ∉ keys) := by
  rw [get?_dropTail] at found
  split at found
  case isTrue => cases found
  case isFalse kept => exact ⟨found, fun same mem => kept ⟨mem, same ▸ found⟩⟩

/-- The map knows the last place of every key that is still in use, and each place waits for
the one before it. -/
structure Ordered (tails : JsMap κ Nat) (entries : List (List (Behind κ))) (done : Nat → Prop) :
    Prop where
  first : ∀ id key, Waits entries id key none → Clear entries done key id
  next : ∀ id key previous, Waits entries id key (some previous) →
    Holds entries previous key ∧ previous < id ∧
      ∀ between, previous < between → between < id → ¬Holds entries between key
  last : ∀ key id, tails.get? key = some id →
    Holds entries id key ∧ ∀ later, id < later → ¬Holds entries later key
  free : ∀ key, tails.get? key = none → Clear entries done key entries.length

theorem ordered_empty : Ordered (.empty : JsMap κ Nat) [] done where
  first _ _ waits := absurd waits.lt (Nat.not_lt_zero _)
  next _ _ _ waits := absurd waits.lt (Nat.not_lt_zero _)
  last _ _ found := by cases found
  free _ _ _ below := absurd below (Nat.not_lt_zero _)

theorem Ordered.mono (ordered : Ordered tails entries done) (grows : ∀ id, done id → later id) :
    Ordered tails entries later where
  first id key waits := (ordered.first id key waits).mono grows
  next := ordered.next
  last := ordered.last
  free key absent := (ordered.free key absent).mono grows

/-- A place is behind the one before it, and so behind those that one was behind. -/
theorem Ordered.clear (ordered : Ordered tails entries done) (waits : Waits entries id key before)
    (through : ∀ previous ∈ before, done previous ∧
      (Holds entries previous key → Clear entries done key previous)) :
    Clear entries done key id := by
  cases before with
  | none => exact ordered.first id key waits
  | some previous =>
      obtain ⟨held, -, between⟩ := ordered.next id key previous waits
      obtain ⟨itself, earlier⟩ := through previous rfl
      intro other below holds
      rcases Nat.lt_trichotomy other previous with less | rfl | more
      · exact earlier held other less holds
      · exact itself
      · exact absurd holds (between other more below)

/-- A place that its keys' earlier ones are through for waits for nobody else. -/
theorem Ordered.done_predecessor (ordered : Ordered tails entries done) {previous : Nat}
    (waits : Waits entries id key (some previous)) (clear : Clear entries done key id) :
    done previous := by
  obtain ⟨held, below, -⟩ := ordered.next id key previous waits
  exact clear previous below held

theorem Ordered.enter (ordered : Ordered tails entries done) (keys : List κ) :
    Ordered (putTail entries.length keys tails) (entries ++ [behind tails keys]) done := by
  refine ⟨fun id key waits => ?_, fun id key previous waits => ?_, fun key id found => ?_,
    fun key absent => ?_⟩
  · rcases waits_concat.mp waits with old | ⟨rfl, new⟩
    · exact (clear_concat old.lt.le).mpr (ordered.first id key old)
    · exact (clear_concat le_rfl).mpr (ordered.free key (mem_behind.mp new).2.symm)
  · rcases waits_concat.mp waits with old | ⟨rfl, new⟩
    · obtain ⟨held, below, between⟩ := ordered.next id key previous old
      refine ⟨holds_concat.mpr (.inl held), below, fun other above under => ?_⟩
      rw [holds_concat_of_lt (under.trans old.lt)]
      exact between other above under
    · obtain ⟨held, between⟩ := ordered.last key previous (mem_behind.mp new).2.symm
      refine ⟨holds_concat.mpr (.inl held), held.lt, fun other above under => ?_⟩
      rw [holds_concat_of_lt under]
      exact between other above
  · rw [get?_putTail] at found
    split at found
    case isTrue mine =>
      cases found
      refine ⟨holds_concat.mpr (.inr ⟨rfl, _, mem_behind.mpr ⟨mine, rfl⟩⟩), fun later above held => ?_⟩
      have := held.lt
      rw [List.length_append, List.length_singleton] at this
      omega
    case isFalse other =>
      obtain ⟨held, none⟩ := ordered.last key id found
      refine ⟨holds_concat.mpr (.inl held), fun later above held' => ?_⟩
      rcases holds_concat.mp held' with old | ⟨-, before, new⟩
      · exact none later above old
      · exact other (mem_behind.mp new).1
  · rw [get?_putTail] at absent
    split at absent
    case isTrue => cases absent
    case isFalse other =>
      intro earlier _ held
      rcases holds_concat.mp held with old | ⟨-, before, new⟩
      · exact ordered.free key absent earlier old.lt old
      · exact absurd (mem_behind.mp new).1 other

/-- A place goes out of the map when it and those before it are through. -/
theorem Ordered.leave (ordered : Ordered tails entries done)
    (through : ∀ key ∈ keys, Clear entries done key (id + 1)) :
    Ordered (dropTail id keys tails) entries done where
  first := ordered.first
  next := ordered.next
  last key other found := ordered.last key other (get?_dropTail_eq_some found).1
  free key absent := by
    rw [get?_dropTail] at absent
    split at absent
    case isTrue both => exact (through key both.1).of_last (ordered.last key id both.2).2 _
    case isFalse => exact ordered.free key absent

end Tails

end OpenClaw.KeyedTails
