import OpenClaw.NetPolicy.Pinned

/-!
What a pinned lookup answers, over any calls: records of its own for its host, whatever family
is asked for, and the system resolver for every other host.
-/

namespace OpenClaw.NetPolicy

variable {J : LowerCase} {h host : Text} {options : LookupOptions} {lookup fallback : PinnedLookup}
  {records : List LookupAddress} {calls : List (Text × LookupOptions)} {address : Text}

section Usable

theorem automaticRecords_subset : automaticRecords records ⊆ records := by
  simp only [automaticRecords]
  split
  · exact fun _ mem => (List.mem_filter.mp mem).1
  · exact List.Subset.refl _

theorem automaticRecords_ne_nil (filled : records ≠ []) : automaticRecords records ≠ [] := by
  simp only [automaticRecords]
  split
  case isTrue some => exact List.length_pos_iff.mp some
  case isFalse => exact filled

theorem usableRecords_cases (records : List LookupAddress) (family : Int) :
    usableRecords records family = automaticRecords records ∨
      usableRecords records family = records.filter (fun entry => (entry.family : Int) == family) ∧
        usableRecords records family ≠ [] := by
  by_cases asked : family = 4 ∨ family = 6
  · by_cases some : 0 < (records.filter fun entry => (entry.family : Int) == family).length
    · have chosen : usableRecords records family =
          records.filter fun entry => (entry.family : Int) == family := by
        simp only [usableRecords, if_pos asked, if_pos some]
      exact .inr ⟨chosen, chosen ▸ List.length_pos_iff.mp some⟩
    · exact .inl (by simp only [usableRecords, if_pos asked, if_neg some])
  · refine .inl ?_
    simp only [usableRecords, if_neg asked, ite_self]

theorem usableRecords_subset {family : Int} : usableRecords records family ⊆ records := by
  rcases usableRecords_cases records family with same | ⟨same, -⟩
  · exact same ▸ automaticRecords_subset
  · exact same ▸ fun _ mem => (List.mem_filter.mp mem).1

theorem usableRecords_ne_nil (family : Int) (filled : records ≠ []) :
    usableRecords records family ≠ [] := by
  rcases usableRecords_cases records family with same | ⟨-, some⟩
  · exact same ▸ automaticRecords_ne_nil filled
  · exact some

/-- Every record is found by its own family. -/
theorem mem_usableRecords {r : LookupAddress} (mem : r ∈ records)
    (family : r.family = 4 ∨ r.family = 6) : r ∈ usableRecords records r.family := by
  have asked : (r.family : Int) = 4 ∨ (r.family : Int) = 6 := by omega
  have found : r ∈ records.filter fun entry => (entry.family : Int) == r.family :=
    List.mem_filter.mpr ⟨mem, by simp⟩
  simp only [usableRecords]
  rw [if_pos asked, if_pos (List.length_pos_iff.mpr (List.ne_nil_of_mem found))]
  exact found

end Usable

section Calls

/-- A chain of lookups for one host. -/
def PinnedLookup.OnlyFor (h : Text) : PinnedLookup → Prop
  | .system => True
  | .pinned normalizedHost _ _ fallback => normalizedHost = h ∧ fallback.OnlyFor h

/-- The records a lookup answers with for its host. -/
def PinnedLookup.Holds (records : List LookupAddress) : PinnedLookup → Prop
  | .system => False
  | .pinned _ own _ _ => own = records

theorem PinnedLookup.OnlyFor.call (only : lookup.OnlyFor h) :
    (lookup.call J host options).2.OnlyFor h := by
  induction lookup with
  | system => trivial
  | pinned normalizedHost own index fallback ih =>
      simp only [PinnedLookup.call]
      split
      · exact ⟨only.1, ih only.2⟩
      · split
        · exact only
        · split <;> exact only

theorem PinnedLookup.Holds.call (holds : lookup.Holds records) :
    (lookup.call J host options).2.Holds records := by
  cases lookup with
  | system => exact holds
  | pinned normalizedHost own index fallback =>
      simp only [PinnedLookup.call]
      split
      · exact holds
      · split
        · exact holds
        · split <;> exact holds

theorem run_preserves (only : lookup.OnlyFor h) (holds : lookup.Holds records) :
    (lookup.run J calls).OnlyFor h ∧ (lookup.run J calls).Holds records := by
  induction calls generalizing lookup with
  | nil => exact ⟨only, holds⟩
  | cons call rest ih => exact ih only.call holds.call

/-- Any other host is left to the system resolver. -/
theorem PinnedLookup.OnlyFor.other (only : lookup.OnlyFor h)
    (different : normalizeHostname J host ≠ h) :
    (lookup.call J host options).1 = .resolver host options := by
  induction lookup with
  | system => rfl
  | pinned normalizedHost own index fallback ih =>
      have elsewhere : (normalizeHostname J host).isEmpty = true ∨
          (normalizeHostname J host != normalizedHost) = true :=
        .inr (by rw [only.1]; simpa using different)
      simp only [PinnedLookup.call, Bool.or_eq_true, if_pos elsewhere]
      exact ih only.2

/-- The host itself is answered from the records, whatever has been asked before. -/
theorem PinnedLookup.Holds.own (options : LookupOptions) (holds : lookup.Holds records)
    (only : lookup.OnlyFor h)
    (same : normalizeHostname J host = h) (named : h ≠ []) (filled : records ≠ []) :
    (lookup.call J host options).1.addresses ≠ [] ∧
      (∀ address ∈ (lookup.call J host options).1.addresses,
        ∃ r ∈ records, r.address = address) ∧
      (options.all = true → (lookup.call J host options).1 =
        .all (usableRecords records options.requestedFamily)) := by
  cases lookup with
  | system => exact absurd holds id
  | pinned normalizedHost own index fallback =>
      obtain rfl : own = records := holds
      have here : ¬ ((normalizeHostname J host).isEmpty = true ∨
          (normalizeHostname J host != normalizedHost) = true) := by
        rw [same, only.1]
        simpa using named
      have usable := usableRecords_ne_nil options.requestedFamily filled
      simp only [PinnedLookup.call, Bool.or_eq_true, if_neg here]
      by_cases every : options.all = true
      · rw [if_pos every]
        refine ⟨by simpa [Answer.addresses] using usable, fun address mem => ?_, fun _ => rfl⟩
        obtain ⟨r, listed, rfl⟩ := List.mem_map.mp mem
        exact ⟨r, usableRecords_subset listed, rfl⟩
      · have inside : index % (usableRecords own options.requestedFamily).length <
            (usableRecords own options.requestedFamily).length :=
          Nat.mod_lt _ (List.length_pos_iff.mpr usable)
        rw [if_neg every, List.getElem?_eq_getElem inside]
        refine ⟨by simp [Answer.addresses], fun address mem => ?_, fun all => absurd all every⟩
        obtain rfl := List.mem_singleton.mp mem
        exact ⟨_, usableRecords_subset (List.getElem_mem inside), rfl⟩

end Calls

section Service

/-- Answers the host from these addresses, and no other host. -/
structure Serves (J : LowerCase) (hostname : Text) (addresses : List Text)
    (lookup : PinnedLookup) : Prop where
  own : ∀ calls host options, normalizeHostname J host = normalizeHostname J hostname →
    ((lookup.run J calls).call J host options).1.addresses ≠ [] ∧
      ((lookup.run J calls).call J host options).1.addresses ⊆ addresses
  other : ∀ calls host options, normalizeHostname J host ≠ normalizeHostname J hostname →
    ((lookup.run J calls).call J host options).1 = .resolver host options

/-- Some call for the host, after some others, is answered with the address. -/
def HandsOut (J : LowerCase) (hostname : Text) (lookup : PinnedLookup) (address : Text) : Prop :=
  ∃ calls host options, normalizeHostname J host = normalizeHostname J hostname ∧
    address ∈ ((lookup.run J calls).call J host options).1.addresses

variable {hostname : Text} {addresses : List Text}

theorem recordOf_family (address : Text) :
    (recordOf address).family = 4 ∨ (recordOf address).family = 6 := by
  unfold recordOf
  dsimp only
  split
  · exact .inr rfl
  · exact .inl rfl

theorem mem_records : (∃ r ∈ addresses.map recordOf, r.address = address) ↔
    address ∈ addresses := by
  constructor
  · rintro ⟨r, mem, rfl⟩
    obtain ⟨a, listed, rfl⟩ := List.mem_map.mp mem
    exact listed
  · exact fun mem => ⟨recordOf address, List.mem_map_of_mem mem, rfl⟩

variable (only : lookup.OnlyFor (normalizeHostname J (normalizeHostname J hostname)))
  (holds : lookup.Holds (addresses.map recordOf)) (named : normalizeHostname J hostname ≠ [])
  (filled : addresses ≠ [])

include only holds named filled

/-- The lookup serves the host exactly when a second normalization keeps its name. -/
theorem serves_iff : Serves J hostname addresses lookup ↔
    normalizeHostname J (normalizeHostname J hostname) = normalizeHostname J hostname := by
  constructor
  · intro serves
    by_contra unstable
    have asked := (serves.own [] hostname .callback rfl).1
    have resolver : (lookup.call J hostname .callback).1 = .resolver hostname .callback :=
      only.other (Ne.symm unstable)
    rw [PinnedLookup.run, List.foldl_nil, resolver] at asked
    exact asked rfl
  · intro stable
    rw [stable] at only
    refine ⟨fun calls host options same => ?_, fun calls host options different => ?_⟩
    · have kept : (lookup.run J calls).OnlyFor _ ∧ (lookup.run J calls).Holds _ :=
        run_preserves only holds
      have own := kept.2.own options kept.1 same named (by simpa using filled)
      exact ⟨own.1, fun address mem => mem_records.mp (own.2.1 address mem)⟩
    · exact (run_preserves only holds).1.other different

theorem handsOut_iff
    (stable : normalizeHostname J (normalizeHostname J hostname) = normalizeHostname J hostname) :
    HandsOut J hostname lookup address ↔ address ∈ addresses := by
  constructor
  · rintro ⟨calls, host, options, same, mem⟩
    exact ((serves_iff only holds named filled).mpr stable |>.own calls host options same).2 mem
  · intro mem
    rw [stable] at only
    have own := holds.own (.object true (some (recordOf address).family)) only
      (rfl : normalizeHostname J hostname = _) named (by simpa using filled)
    refine ⟨[], hostname, .object true (some (recordOf address).family), rfl, ?_⟩
    rw [PinnedLookup.run, List.foldl_nil, own.2.2 rfl]
    exact List.mem_map.mpr ⟨recordOf address,
      mem_usableRecords (List.mem_map_of_mem mem) (recordOf_family address), rfl⟩

end Service

end OpenClaw.NetPolicy
